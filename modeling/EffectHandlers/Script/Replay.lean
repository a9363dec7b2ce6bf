/-
EffectHandlers/Script/Replay.lean

Programs written as routines.

A call of a program makes a record of the call and starts a coroutine.
Every effect or chain that the routine yields becomes a suspended chain that
is continued with a resumption; the resumption remembers the history, the
answers that the routine had received before.  A finished chain is answered
at once.

A chain may be run more than once, and a resumption may be used more than
once.  The record keeps one live coroutine with the history that it
stands at.  A resumption whose history is exactly that one sends the answer
to the live coroutine; any other one first makes a fresh coroutine and
sends it the answers of its own history, whatever it yields meanwhile.
Histories are told apart by their addresses and not by their answers.

The live coroutine is taken away before it is sent anything, and kept again
when it yields.  So a coroutine that fails or returns is never live.
-/
import EffectHandlers.Script.Routine
import EffectHandlers.Chain

namespace EffectHandlers

namespace Invocation

/-! ### The record of a call -/

/-- The history of a routine that has received nothing. -/
def emptyHistory : Nat := 0

/-- A new call of a routine. -/
def create (body : List Stmt) (env : Env) : Action Nat := Action.exchange fun w =>
  (w.invocations.size, { w with invocations := w.invocations.push ⟨body, env, #[], #[[]], none⟩ })

/-- The record of a call. -/
def recordOf (id : Nat) : Action Invocation := do
  Action.require .noLiveRoutine (← Action.ask fun w => w.invocations[id]?)

/-- A fresh coroutine of a call. -/
def spawn (id : Nat) : Action Nat := do
  let i ← recordOf id
  Action.exchange fun w =>
    (i.coroutines.size,
      w.changeCall id fun i => { i with coroutines := i.coroutines.push ⟨.entry i.body i.env, []⟩ })

/-- The live coroutine of a call. -/
def liveOf (id : Nat) : Action (Option (Nat × Nat)) :=
  Action.ask fun w => (w.invocations[id]?).bind (·.live)

/-- Keep a coroutine as the live one, or none. -/
def setLive (id : Nat) (l : Option (Nat × Nat)) : Action Unit :=
  Action.change fun w => w.changeCall id fun i => { i with live := l }

/-- Take the live coroutine away. -/
def takeLive (id : Nat) : Action Nat := do
  match ← liveOf id with
  | some (gen, _) =>
    setLive id none
    return gen
  | none => Action.fail .noLiveRoutine

/-- The answers of a history, newest first. -/
def answersOf (id h : Nat) : Action (List Value) := do
  let i ← recordOf id
  Action.require .noLiveRoutine i.histories[h]?

/-- A new history, with one more answer. -/
def extendHistory (id h : Nat) (answer : Value) : Action Nat := do
  let i ← recordOf id
  let earlier ← Action.require .noLiveRoutine i.histories[h]?
  Action.exchange fun w =>
    (i.histories.size,
      w.changeCall id fun i => { i with histories := i.histories.push (answer :: earlier) })

/-! ### Replay -/

/-- What a routine comes to, when it has to yield. -/
def mustYield : Advance → Action Unit
  | .yielded _ => pure ()
  | .returned _ => Action.fail .replayEndedEarly

/-- Send recorded answers to a coroutine, oldest first, without a look at what it yields. -/
def replay (eval : Evaluation) (id gen : Nat) : List Value → Action Unit
  | [] => pure ()
  | a :: rest => do
    mustYield (← Coroutine.send eval id gen a)
    replay eval id gen rest

/-- Make a fresh coroutine live that stands at a history. -/
def rebuild (eval : Evaluation) (id h : Nat) : Action Unit := do
  let answers ← answersOf id h
  -- The live coroutine stays until the fresh one has come as far as it should.
  let gen ← spawn id
  mustYield (← Coroutine.start eval id gen)
  replay eval id gen answers.reverse
  setLive id (some (gen, h))

/-- Whether the live coroutine stands at a history. -/
def standsAt (h : Nat) : Option (Nat × Nat) → Bool
  | some (_, h') => h' == h
  | none => false

/-! ### Yielding and going on -/

/-- What a routine yields, as a chain. -/
def yieldedChain : Value → Action Chain
  | .effect e => pure (Chain.perform e)
  | .chain c => pure c
  | other => Action.fail (.notYieldable other.typeName)

/-- What is kept when a coroutine comes to something after an answer from a history: at a yield it
is live again, and stands at the extended history. -/
def settle (id h gen : Nat) (answer : Value) : Advance → Action (Advance × Nat)
  | .returned v => return (.returned v, h)
  | .yielded v => do
    -- Equal answers sent twice from one history give two histories.
    let h ← extendHistory id h answer
    setLive id (some (gen, h))
    return (.yielded v, h)

/-- Send an answer to the live coroutine, which stands at a history. -/
def feed (eval : Evaluation) (id h : Nat) (answer : Value) : Action (Advance × Nat) := do
  let gen ← takeLive id
  settle id h gen answer (← Coroutine.send eval id gen answer)

/-- The chain for what a routine came to at a history.  Finished chains that it yields are
answered at once; the fuel bounds their number. -/
def suspend (eval : Evaluation) (call : Call) (id : Nat) : Nat → Advance → Nat → Action Chain :=
  fun fuel next h =>
    match next with
    | .returned v => pure (Chain.finished v)
    | .yielded v => do
      match ← yieldedChain v with
      | .suspended e r => (Chain.suspended e r).bind call (.call (.resumption id h))
      | .done answer _ =>
        match fuel with
        | 0 => Action.exhaust
        | fuel + 1 => do
          -- Nothing is left of a finished chain but its value.
          let (next, h) ← feed eval id h answer
          suspend eval call id fuel next h
termination_by structural fuel => fuel

theorem suspend_returned (eval : Evaluation) (call : Call) (id fuel : Nat) (v : Value) (h : Nat) :
    suspend eval call id fuel (.returned v) h = pure (Chain.finished v) := by
  cases fuel <;> rfl

theorem suspend_yielded (eval : Evaluation) (call : Call) (id fuel : Nat) (v : Value) (h : Nat) :
    suspend eval call id fuel (.yielded v) h = yieldedChain v >>= fun c =>
      match c, fuel with
      | .suspended e r, _ => (Chain.suspended e r).bind call (.call (.resumption id h))
      | .done _ _, 0 => Action.exhaust
      | .done answer _, fuel + 1 =>
        feed eval id h answer >>= fun p => suspend eval call id fuel p.1 p.2 := by
  cases fuel
  all_goals
    rw [suspend]
    refine congrArg (yieldedChain v >>= ·) (funext fun c => ?_)
    cases c <;> rfl

/-- The three ways in which a routine comes to a chain: it returns, it yields a pending chain, or
it yields a finished one and goes on with its value. -/
theorem suspend_eq_value {eval : Evaluation} {call : Call} {id fuel : Nat} {next : Advance}
    {h : Nat} {w w' : World} {c : Chain} (hc : suspend eval call id fuel next h w = .value c w') :
    (∃ v, next = .returned v ∧ c = Chain.finished v ∧ w' = w) ∨
    (∃ v e r, next = .yielded v ∧ yieldedChain v w = .value (.suspended e r) w' ∧
      c = .suspended (e.map (.bind (.call (.resumption id h)))) r) ∨
    (∃ v answer r w₁ p w₂ n, next = .yielded v ∧ fuel = n + 1 ∧
      yieldedChain v w = .value (.done answer r) w₁ ∧ feed eval id h answer w₁ = .value p w₂ ∧
      suspend eval call id n p.1 p.2 w₂ = .value c w') := by
  rcases next with v | v
  · rw [suspend_yielded] at hc
    obtain ⟨d, w₁, hd, hc⟩ := Action.bind_eq_value.mp hc
    rcases d with ⟨answer, r⟩ | ⟨e, r⟩
    · rcases fuel with _ | n
      · cases hc
      · obtain ⟨p, w₂, hp, hc⟩ := Action.bind_eq_value.mp hc
        exact .inr (.inr ⟨v, answer, r, w₁, p, w₂, n, rfl, rfl, hd, hp, hc⟩)
    · obtain ⟨rfl, rfl⟩ := Action.pure_eq_value.mp hc
      exact .inr (.inl ⟨v, e, r, rfl, hd, rfl⟩)
  · rw [suspend_returned] at hc
    obtain ⟨rfl, rfl⟩ := Action.pure_eq_value.mp hc
    exact .inl ⟨v, rfl, rfl, rfl⟩

/-- Go on from a history with an answer. -/
def resume (eval : Evaluation) (call : Call) (maxSteps id h : Nat) (answer : Value) :
    Action Chain := do
  -- After this the live coroutine stands at `h` in either case.
  if standsAt h (← liveOf id) then pure () else rebuild eval id h
  let (next, h) ← feed eval id h answer
  suspend eval call id maxSteps next h

/-- Start a new call of a routine: its number, and what the routine comes to first. -/
def enter (eval : Evaluation) (body : List Stmt) (env : Env) : Action (Nat × Advance) := do
  let id ← create body env
  let gen ← spawn id
  let next ← Coroutine.start eval id gen
  match next with
  | .returned _ => return (id, next)
  | .yielded _ => do
    setLive id (some (gen, emptyHistory))
    return (id, next)

/-- The chain of a new call of a routine. -/
def begin (eval : Evaluation) (call : Call) (maxSteps : Nat) (body : List Stmt) (env : Env) :
    Action Chain := do
  let (id, next) ← enter eval body env
  suspend eval call id maxSteps next emptyHistory

end Invocation

end EffectHandlers
