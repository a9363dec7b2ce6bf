/-
EffectHandlers/Proofs/Watch.lean

A coroutine is only ever advanced from the right place.

A second interpreter does what the first one does, and looks around while
it does it.  Before a coroutine is started, it looks whether the coroutine
is a fresh one; before a coroutine is sent an answer, whether it is parked
at a yield and has received exactly the answers that it should have; and
before and after every access to the record of a call, every slice, every
expression and every call of a function, whether each live coroutine is
parked and has received exactly the answers of the history that it is kept
with (`World.Upright`).  If it finds anything else, it raises an alarm,
which may be any action whatever.

The two interpreters do the same, so the alarm is never raised.  A kept
world says where the live coroutines are parked, and a moment says what they
have received; the walks that lead from kept worlds to kept worlds and from
moments to moments are followed in step (`Outcome.bind_eq_of_comes`).

Main result: the alarm is never raised, and every world that calls lead to is
upright (`coroutines_advance_in_place`).
-/
import EffectHandlers.Proofs.Proceeding
import Mathlib.Data.List.Permutation

namespace EffectHandlers

variable {α β : Type} {s : Settings} {id gen h : Nat} {i : Invocation} {answers : List Value}

/-! ### What is looked at -/

/-- A coroutine of a call stands somewhere and has received something. -/
def World.Holds (w : World) (id gen : Nat) (c : Coroutine) : Prop :=
  ∃ i, w.invocations[id]? = some i ∧ i.coroutines[gen]? = some c

/-- A coroutine has not started. -/
def World.Fresh (w : World) (id gen : Nat) : Prop :=
  ∃ body env, w.Holds id gen ⟨.entry body env, []⟩

/-- A coroutine is parked at a yield and has received exactly some answers, the newest first. -/
def World.Awaits (w : World) (id gen : Nat) (answers : List Value) : Prop :=
  ∃ target rest env, w.Holds id gen ⟨.parked target rest env, answers⟩

/-- The live coroutine of a call is kept with a history, is parked at a yield and has received
exactly the answers of the history. -/
def World.Ready (w : World) (id h : Nat) : Prop :=
  ∃ i gen answers, w.invocations[id]? = some i ∧ i.live = some (gen, h) ∧
    i.histories[h]? = some answers ∧ w.Awaits id gen answers

/-- Whatever coroutine is live, it is ready. -/
def World.Upright (w : World) : Prop :=
  ∀ (id : Nat) (i : Invocation) (gen h : Nat), w.invocations[id]? = some i →
    i.live = some (gen, h) → w.Ready id h

/-! ### The watched interpreter -/

namespace Watched

variable (alarm : ∀ α : Type, Action α)

open Classical in
/-- An action, if something is true of the world. -/
noncomputable def guarded (P : World → Prop) (x : Action α) : Action α := fun w =>
  if P w then x w else alarm α w

open Classical in
/-- An action, if the world is upright before it and after it, also after a failure. -/
noncomputable def step (x : Action α) : Action α := fun w =>
  if w.Upright ∧ ∀ u, (x w).world? = some u → u.Upright then x w else alarm α w

/-- Start a coroutine, which is a fresh one. -/
noncomputable def start (eval : Evaluation) (id gen : Nat) : Action Advance :=
  guarded alarm (·.Fresh id gen) (step alarm (Coroutine.start eval id gen))

/-- Send an answer to a coroutine, which is parked and has received given answers. -/
noncomputable def send (eval : Evaluation) (id gen : Nat) (received : List Value)
    (answer : Value) : Action Advance := do
  match ← Coroutine.standing id gen with
  | .parked target rest env =>
    guarded alarm (·.Holds id gen ⟨.parked target rest env, received⟩) (step alarm (do
      Coroutine.receive id gen answer
      Coroutine.execute id gen (execFrames eval rest (Coroutine.bindAnswer env target answer))))
  | .entry _ _ | .running | .finished => alarm Advance

/-- Send recorded answers to a coroutine that has received given ones. -/
noncomputable def replay (eval : Evaluation) (id gen : Nat) (received : List Value) :
    List Value → Action Unit
  | [] => pure ()
  | a :: rest => do
    Invocation.mustYield (← send alarm eval id gen received a)
    replay eval id gen (a :: received) rest

/-- Make a fresh coroutine live that stands at a history. -/
noncomputable def rebuild (eval : Evaluation) (id h : Nat) : Action Unit := do
  let answers ← Invocation.answersOf id h
  let gen ← step alarm (Invocation.spawn id)
  Invocation.mustYield (← start alarm eval id gen)
  replay alarm eval id gen [] answers.reverse
  step alarm (Invocation.setLive id (some (gen, h)))

/-- Send an answer to the live coroutine, which stands at a history and has received the answers of
the history. -/
noncomputable def feed (eval : Evaluation) (id h : Nat) (answer : Value) :
    Action (Advance × Nat) :=
  guarded alarm (·.Ready id h) (do
    let received ← Invocation.answersOf id h
    let gen ← step alarm (Invocation.takeLive id)
    let next ← send alarm eval id gen received answer
    step alarm (Invocation.settle id h gen answer next))

/-- The chain for what a routine came to at a history. -/
noncomputable def suspend (eval : Evaluation) (call : Call) (id : Nat) :
    Nat → Advance → Nat → Action Chain :=
  fun fuel next h =>
    match next with
    | .returned v => pure (Chain.finished v)
    | .yielded v => do
      match ← Invocation.yieldedChain v with
      | .suspended e r => (Chain.suspended e r).bind call (.call (.resumption id h))
      | .done answer _ =>
        match fuel with
        | 0 => Action.exhaust
        | fuel + 1 => do
          let (next, h) ← feed alarm eval id h answer
          suspend eval call id fuel next h
termination_by structural fuel => fuel

/-- Go on from a history with an answer. -/
noncomputable def resume (eval : Evaluation) (call : Call) (maxSteps id h : Nat)
    (answer : Value) : Action Chain := do
  if Invocation.standsAt h (← Invocation.liveOf id) then pure () else rebuild alarm eval id h
  let (next, h) ← feed alarm eval id h answer
  suspend alarm eval call id maxSteps next h

/-- Start a new call of a routine. -/
noncomputable def enter (eval : Evaluation) (body : List Stmt) (env : Env) :
    Action (Nat × Advance) := do
  let id ← step alarm (Invocation.create body env)
  let gen ← step alarm (Invocation.spawn id)
  let next ← start alarm eval id gen
  match next with
  | .returned _ => return (id, next)
  | .yielded _ => do
    step alarm (Invocation.setLive id (some (gen, Invocation.emptyHistory)))
    return (id, next)

/-- The chain of a new call of a routine. -/
noncomputable def begin (eval : Evaluation) (call : Call) (maxSteps : Nat) (body : List Stmt)
    (env : Env) : Action Chain := do
  let (id, next) ← enter alarm eval body env
  suspend alarm eval call id maxSteps next Invocation.emptyHistory

/-- Expressions, evaluated with a look at the world before and after. -/
noncomputable def eval (s : Settings) (call : Call) : Evaluation :=
  fun env e => step alarm (e.eval s call env)

/-- The value of a function on arguments, given how functions that it calls are called. -/
noncomputable def applyWith (s : Settings) (call : Call) (f : Callable) (args : List Value) :
    Action Value :=
  match f with
  | .closure _ params body env => do
    eval alarm s call (← Action.require .arity (Env.setAll? env params args)) body
  | .fixpoint _ name params body env => do
    let env := Env.set env name (.function f)
    eval alarm s call (← Action.require .arity (Env.setAll? env params args)) body
  | .program _ requires params (.resumable body) env => do
    let env ← Action.require .arity (Env.setAll? env params args)
    let c ← begin alarm (eval alarm s call) call s.maxSteps body env
    return .chain (c.declare requires)
  | .program _ requires params (.plain body) env => do
    let env ← Action.require .arity (Env.setAll? env params args)
    match ← eval alarm s call env body with
    | .chain c => return .chain (c.declare requires)
    | v => return .chain ((Chain.finished v).declare requires)
  | .resumption id h =>
    match args with
    | [answer] => do
      return .chain (← resume alarm (eval alarm s call) call s.maxSteps id h answer)
    | _ => Action.fail .arity

/-- The value of a function on arguments, if calls are nested no deeper than `depth`. -/
noncomputable def apply (s : Settings) : Nat → Call
  | 0 => fun _ _ => Action.exhaust
  | depth + 1 => fun f args => step alarm (applyWith alarm s (apply s depth) f args)

end Watched

/-! ### Steady worlds -/

/-- A kept world at some moment. -/
structure World.Steady (s : Settings) (w : World) : Prop where
  kept : Kept s w
  moment : ∃ m : Moment s, m.world = w

/-- In a steady world every live coroutine is ready: that it is parked is kept, and what it has
received is in the books. -/
theorem World.Steady.upright {w : World} (hw : w.Steady s) : w.Upright := by
  obtain ⟨hkept, m, rfl⟩ := hw
  obtain ⟨births, hkept⟩ := hkept.exists_births
  intro id i gen h hi hl
  obtain ⟨-, -, hparked⟩ := hkept id i hi
  obtain ⟨answers, hh, target, rest, env, hposition, -⟩ := parked_iff.mp (hparked gen h hl)
  obtain ⟨⟨position, received⟩, hc, hreceived⟩ := m.orderly id i gen h hi hl
  rw [hc] at hposition
  cases hposition
  cases hh.symm.trans hreceived
  exact ⟨i, gen, received, hi, hl, hh, target, rest, env, i, hi, hc⟩

theorem KeptFrom.steady {births : Births} {w : Moment s} (hw : KeptFrom s births w.world) :
    w.world.Steady s := ⟨hw.kept, w, rfl⟩

theorem Outcome.Comes.of_world {own : Option (Nat × Nat)} {w : Moment s}
    {P : α → Moment s → Prop} {o : Outcome α} (ho : o.Comes own w P) {u : World}
    (h : o.world? = some u) : ∃ v : Moment s, v.world = u ∧ w.Passes own v := by
  cases o with
  | value a z =>
    obtain ⟨v, rfl, hv, -⟩ := ho
    exact ⟨v, Option.some.inj h, hv⟩
  | failed f z =>
    obtain ⟨v, rfl, hv⟩ := ho
    exact ⟨v, Option.some.inj h, hv⟩
  | exhausted => cases h

/-- What leads to kept worlds and comes to moments leaves steady worlds. -/
theorem Outcome.Comes.steady {births : Births} {own : Option (Nat × Nat)} {z : World}
    {w : Moment s} {P : α → World → Prop} {Q : α → Moment s → Prop} {o : Outcome α}
    (hc : o.Comes own w Q) (hl : o.Leads s births z P) {u : World} (h : o.world? = some u) :
    u.Steady s := by
  obtain ⟨v, hv, -⟩ := hc.of_world h
  exact ⟨(hl.after_world h).kept, v, hv⟩

/-- Two sequences do the same if their first parts do, and what follows does the same in the kept
moments that the first part leads to. -/
theorem Outcome.bind_eq_of_comes {births : Births} {own : Option (Nat × Nat)} {z w₀ : World}
    {w : Moment s} {P : α → World → Prop} {Q : α → Moment s → Prop} {x x' : Action α}
    {f f' : α → Action β} (hx : x' z = x z) (hl : (x z).Leads s births w₀ P)
    (hc : (x z).Comes own w Q)
    (hf : ∀ a (v : Moment s), x z = .value a v.world → After s births w₀ v.world → P a v.world →
      Q a v → f' a v.world = f a v.world) : (x' >>= f') z = (x >>= f) z := by
  rw [Action.bind_congr_apply hx]
  refine Action.bind_congr_of_value fun a u ha => ?_
  rw [ha] at hl hc
  obtain ⟨v, rfl, -, hQ⟩ := hc
  exact hf a v ha hl.1 hl.2 hQ

/-! ### Looking changes nothing -/

section

variable {alarm : ∀ α : Type, Action α} {w : World} {x x' : Action α}

theorem Watched.guarded_eq {P : World → Prop} (h : P w) : guarded alarm P x w = x w := if_pos h

/-- A step from a steady world to steady worlds. -/
theorem Watched.step_eq (hw : w.Steady s) (hx : x' w = x w)
    (hleft : ∀ u, (x w).world? = some u → u.Steady s) : step alarm x' w = x w := by
  rw [step, if_pos ⟨hw.upright, fun u hu => (hleft u (hx ▸ hu)).upright⟩, hx]

theorem Keeps.steady {P : α → Prop} (hk : Keeps s P x) (hp : Proceeds s P x) (hw : w.Steady s)
    {u : World} (h : (x w).world? = some u) : u.Steady s := by
  obtain ⟨hkept, m, rfl⟩ := hw
  obtain ⟨v, hv, -⟩ := hp.of_world m h
  exact ⟨(hk.world hkept h).1, v, hv⟩

end

/-- Doing the same in steady worlds, and leading from steady worlds to steady ones, is a
discipline. -/
def watching (s : Settings) : Discipline Bool .free where
  holds P x := Keeps s P (x false) ∧ Proceeds s P (x false) ∧
    ∀ w : World, w.Steady s → x true w = x false w
  ret ha := ⟨(keeping s).ret ha, (proceeding s).ret ha, fun _ _ => rfl⟩
  fail P f := ⟨(keeping s).fail P f, (proceeding s).fail P f, fun _ _ => rfl⟩
  exhaust P := ⟨(keeping s).exhaust P, (proceeding s).exhaust P, fun _ _ => rfl⟩
  bind := by
    rintro α β P Q x f ⟨hk, hp, hx⟩ hf
    refine ⟨hk.bind fun a ha => (hf a ha).1, hp.bind fun a ha => (hf a ha).2.1, fun w hw => ?_⟩
    refine (Action.bind_congr_apply (hx w hw)).trans ?_
    refine Action.bind_congr_of_value fun a u ha => ?_
    have hu : u.Steady s := hk.steady hp hw (by rw [ha]; rfl)
    exact (hf a (hk.of_value hw.kept ha).2.2).2.2 u hu
  fresh := ⟨(keeping s).fresh, (proceeding s).fresh, fun _ _ => rfl⟩
  emit e := ⟨(keeping s).emit e, (proceeding s).emit e, fun _ _ => rfl⟩
  showValue hv := ⟨(keeping s).showValue hv, (proceeding s).showValue hv, fun _ _ => rfl⟩
  newCell hv := ⟨(keeping s).newCell hv, (proceeding s).newCell hv, fun _ _ => rfl⟩
  readCell a := ⟨(keeping s).readCell a, (proceeding s).readCell a, fun _ _ => rfl⟩
  writeCell a _ hv := ⟨(keeping s).writeCell a hv, (proceeding s).writeCell a hv, fun _ _ => rfl⟩
  newSource t := ⟨(keeping s).newSource t, (proceeding s).newSource t, fun _ _ => rfl⟩
  readLine k := ⟨(keeping s).readLine k, (proceeding s).readLine k, fun _ _ => rfl⟩
  newJournal := ⟨(keeping s).newJournal, (proceeding s).newJournal, fun _ _ => rfl⟩
  journalEntries j :=
    ⟨(keeping s).journalEntries j, (proceeding s).journalEntries j, fun _ _ => rfl⟩
  record j name _ hv :=
    ⟨(keeping s).record j name hv, (proceeding s).record j name hv, fun _ _ => rfl⟩

/-- Watched evaluation that does the same as evaluation that proceeds from moment to moment. -/
structure Evaluation.Watched (s : Settings) (eval' eval : Evaluation) : Prop where
  proceeds : eval.Proceeds s
  watching : (watching s).Evaluates fun b => bif b then eval' else eval

/-! ### Coroutines -/

namespace Watched

variable {alarm : ∀ α : Type, Action α} {eval eval' : Evaluation} {births : Births}
  {w : Moment s} {a : Value}

theorem execute_congr {part part' : Action Exit} {z : World}
    (h : part' (z.setPosition id gen .running) = part (z.setPosition id gen .running)) :
    Coroutine.execute id gen part' z = Coroutine.execute id gen part z := by
  rw [Coroutine.execute_apply, Coroutine.execute_apply, h]

/-- A fresh coroutine that is away is started. -/
theorem start_eq (heval : Evaluation.Watched s eval' eval) (hw : KeptFrom s births w.world)
    (hi : w.world.invocations[id]? = some i) (haway : i.Away gen)
    (hc : i.coroutines[gen]? = some ⟨.entry i.body i.env, []⟩) :
    start alarm eval' id gen w = Coroutine.start eval id gen w := by
  have hleads := Outcome.Leads.start heval.proceeds.sound hw hi haway hc
  have hcomes := Outcome.Comes.start heval.proceeds hi hc haway
  obtain ⟨v, hv⟩ := w.enters_first hi hc haway
  have hrun : (w.world.setPosition id gen .running).Steady s :=
    ⟨(hw.setPosition hi haway .running).kept, v, hv.world⟩
  rw [start, guarded_eq ⟨_, _, i, hi, hc⟩]
  refine step_eq hw.steady ?_ fun u hu => hcomes.steady hleads hu
  rw [Coroutine.start_apply hi hc, Coroutine.start_apply hi hc]
  refine execute_congr ?_
  have hpart := Discipline.execBlock heval.watching i.body (stmtsUse_any i.body)
    (fun b (_ : b ∈ i.env) => Value.obeys_free b.2)
  exact hpart.2.2 _ hrun

/-- A coroutine that is away and awaits an answer is sent it. -/
theorem send_eq (heval : Evaluation.Watched s eval' eval) (hw : KeptFrom s births w.world)
    (hi : w.world.invocations[id]? = some i) (haway : i.Away gen)
    (hawaits : i.Awaits s (births id) gen answers) (hidle : w.world.Idle id gen answers)
    (a : Value) :
    send alarm eval' id gen answers a w = Coroutine.send eval id gen a w := by
  have hleads := Outcome.Leads.send heval.proceeds.sound hw hi haway hawaits a
  have hcomes := Outcome.Comes.send heval.proceeds hidle a
  obtain ⟨target, rest, env, hposition, -⟩ := hawaits
  obtain ⟨j, ⟨position, received⟩, hj, hc, -, rfl⟩ := hidle
  cases hi.symm.trans hj
  rw [hc] at hposition
  cases hposition
  obtain ⟨v, hv⟩ := w.enters_next hi hc haway a
  obtain ⟨hw₁, -, hi₁⟩ := hw.withReceived hi haway a
  have hrun : ((w.world.changeCall id (·.withReceived gen a)).setPosition id gen .running).Steady
      s := ⟨(hw₁.setPosition hi₁ haway .running).kept, v, hv.world⟩
  rw [send, Action.bind_of_value (Coroutine.standing_apply hi hc)]
  show guarded alarm _ _ _ = _
  rw [guarded_eq ⟨i, hi, hc⟩]
  refine step_eq hw.steady ?_ fun u hu => hcomes.steady hleads hu
  rw [Coroutine.send_apply hi hc]
  refine execute_congr ?_
  have hpart := Discipline.execFrames heval.watching (fun f (_ : f ∈ rest) => f.obeys_free)
    (fun b (_ : b ∈ Coroutine.bindAnswer env target a) => Value.obeys_free b.2)
  exact hpart.2.2 _ hrun

/-! ### Replay -/

theorem replay_eq (heval : Evaluation.Watched s eval' eval) (as : List Value)
    (hw : KeptFrom s births w.world) (hi : w.world.invocations[id]? = some i)
    (haway : i.Away gen) (hawaits : i.Awaits s (births id) gen answers)
    (hidle : w.world.Idle id gen answers) :
    replay alarm eval' id gen answers as w = Invocation.replay eval id gen as w := by
  have hid : id < w.world.invocations.size := (Array.getElem?_eq_some_iff.mp hi).1
  induction as generalizing answers births w i with
  | nil => rfl
  | cons a as ih =>
    have hleads := Outcome.Leads.send heval.proceeds.sound hw hi haway hawaits a
    have hcomes := Outcome.Comes.send heval.proceeds hidle a
    rw [replay, Invocation.replay]
    refine Outcome.bind_eq_of_comes (send_eq heval hw hi haway hawaits hidle a) hleads hcomes
      fun next v _ hafter hrests hidle => ?_
    cases next with
    | returned x => rfl
    | yielded x =>
      obtain ⟨-, births', hagree, hv⟩ := hafter
      obtain ⟨j, hj, -, hjaway, hjawaits⟩ := hrests x rfl
      rw [← hagree id hid] at hjawaits
      have hid' := (Array.getElem?_eq_some_iff.mp hj).1
      exact ih hv hj hjaway hjawaits (hidle x rfl) hid'

/-- A fresh coroutine is made from an upright world, and leaves one. -/
theorem spawn_eq (alarm : ∀ α : Type, Action α) (hw : KeptFrom s births w.world)
    (hi : w.world.invocations[id]? = some i) : ∃ u : Moment s,
      Invocation.spawn id w = .value i.coroutines.size u.world ∧
      step alarm (Invocation.spawn id) w = .value i.coroutines.size u.world ∧
      KeptFrom s births u.world ∧ u.world.invocations[id]? = some i.withFresh ∧
      i.withFresh.Away i.coroutines.size := by
  obtain ⟨hw₀, -, haway⟩ := hw.withFresh hi
  have hi₀ := World.record_changeCall hi (·.withFresh)
  obtain ⟨u, hu, -, -⟩ := w.exists_spawn hi
  rw [← hu] at hw₀ hi₀
  have hspawn : Invocation.spawn id w = .value i.coroutines.size u.world := by
    rw [hu]
    exact Invocation.spawn_apply hi
  have hstep : step alarm (Invocation.spawn id) w = Invocation.spawn id w := by
    refine step_eq hw.steady rfl fun v hv => ?_
    rw [hspawn] at hv
    cases hv
    exact hw₀.steady
  exact ⟨u, hspawn, hstep.trans hspawn, hw₀, hi₀, haway⟩

theorem rebuild_eq (heval : Evaluation.Watched s eval' eval) (hw : KeptFrom s births w.world)
    (id h : Nat) :
    rebuild alarm eval' id h w = Invocation.rebuild eval id h w := by
  rcases Invocation.answersOf_cases id h w with ⟨i, answers, hi, hh⟩ | hfail
  case inr => rw [rebuild, Invocation.rebuild, Action.bind_apply, Action.bind_apply, hfail]
  obtain ⟨u, hspawn, hspawn', hw₀, hi₀, haway₀⟩ := spawn_eq alarm hw hi
  have hentry : i.withFresh.coroutines[i.coroutines.size]? = some ⟨.entry i.body i.env, []⟩ := by
    simp [Invocation.withFresh]
  have hanswers := Invocation.answersOf_apply hi hh
  rw [rebuild, Invocation.rebuild, Action.bind_of_value hanswers, Action.bind_of_value hanswers,
    Action.bind_of_value hspawn', Action.bind_of_value hspawn]
  have hleads := Outcome.Leads.start heval.proceeds.sound hw₀ hi₀ haway₀ hentry
  have hcomes := Outcome.Comes.start heval.proceeds hi₀ hentry haway₀
  refine Outcome.bind_eq_of_comes (start_eq heval hw₀ hi₀ haway₀ hentry) hleads hcomes
    fun next v hstart hafter hrests hidle => ?_
  cases next with
  | returned x => rfl
  | yielded x =>
    obtain ⟨-, births', hagree, hv⟩ := hafter
    obtain ⟨j, hj, -, hjaway, hjawaits⟩ := hrests x rfl
    rw [← hagree id (Array.getElem?_eq_some_iff.mp hi₀).1] at hjawaits
    have hleads := Outcome.Leads.replay heval.proceeds.sound answers.reverse hv hj hjaway hjawaits
    have hcomes := Outcome.Comes.replay heval.proceeds answers.reverse hidle
    show (replay alarm eval' id i.coroutines.size [] answers.reverse >>= _) v.world
      = (Invocation.replay eval id i.coroutines.size answers.reverse >>= _) v.world
    refine Outcome.bind_eq_of_comes (replay_eq heval _ hv hj hjaway hjawaits hidle) hleads hcomes
      fun _ z hreplay hafter _ _ => ?_
    -- What is left is the end of the rebuild, which leaves a steady world.
    have hend : Invocation.rebuild eval id h w
        = Invocation.setLive id (some (i.coroutines.size, h)) z := by
      rw [Invocation.rebuild, Action.bind_of_value hanswers, Action.bind_of_value hspawn,
        Action.bind_of_value hstart]
      exact Action.bind_of_value hreplay
    refine step_eq ⟨hafter.kept, z, rfl⟩ rfl fun y hy => ?_
    exact (Outcome.Comes.rebuild heval.proceeds w id h).steady
      (Outcome.Leads.rebuild heval.proceeds.sound hw id h) (hend ▸ hy)

/-- An answer is fed to the live coroutine. -/
theorem feed_eq (heval : Evaluation.Watched s eval' eval) (hw : KeptFrom s births w.world)
    (hi : w.world.invocations[id]? = some i) (hl : i.live = some (gen, h)) (a : Value) :
    feed alarm eval' id h a w = Invocation.feed eval id h a w := by
  have hready := hw.steady.upright id i gen h hi hl
  obtain ⟨-, -, hparked⟩ := hw id i hi
  obtain ⟨answers, hh, -⟩ := parked_iff.mp (hparked gen h hl)
  obtain ⟨c, hc, hh'⟩ := w.orderly id i gen h hi hl
  cases hh.symm.trans hh'
  have hid := (Array.getElem?_eq_some_iff.mp hi).1
  -- The live coroutine is taken away.
  obtain ⟨hw₀, hf₀, hi₀, haway₀, hawaits⟩ := hw.takeLive hi hl hh
  obtain ⟨u, hu, -⟩ := w.exists_takeLive gen hi
  rw [← hu] at hw₀ hi₀
  have hidle : u.world.Idle id gen c.received := ⟨_, c, hi₀, hc, haway₀, rfl⟩
  have htake : Invocation.takeLive id w = .value gen u.world := by
    rw [hu]
    exact Invocation.takeLive_apply hi hl
  have htake' : step alarm (Invocation.takeLive id) w = Invocation.takeLive id w := by
    refine step_eq hw.steady rfl fun v hv => ?_
    rw [htake] at hv
    cases hv
    exact hw₀.steady
  rw [feed, guarded_eq hready, Invocation.feed,
    Action.bind_of_value (Invocation.answersOf_apply hi hh),
    Action.bind_of_value (htake'.trans htake), Action.bind_of_value htake]
  have hleads := Outcome.Leads.send heval.proceeds.sound hw₀ hi₀ haway₀ hawaits a
  have hcomes := Outcome.Comes.send heval.proceeds hidle a
  refine Outcome.bind_eq_of_comes (send_eq heval hw₀ hi₀ haway₀ hawaits hidle a) hleads hcomes
    fun next v hsend hafter _ _ => ?_
  have hend : Invocation.feed eval id h a w = Invocation.settle id h gen a next v := by
    rw [Invocation.feed, Action.bind_of_value htake, Action.bind_of_value hsend]
  refine step_eq ⟨hafter.kept, v, rfl⟩ rfl fun y hy => ?_
  exact (Outcome.Comes.feed heval.proceeds hi hl hh a).steady
    (Outcome.Leads.feed heval.proceeds.sound hw hi hl hh a) (hend ▸ hy)

/-! ### Yielding and going on -/

theorem suspend_yielded (alarm : ∀ α : Type, Action α) (eval : Evaluation) (call : Call)
    (id fuel : Nat) (v : Value) (h : Nat) :
    suspend alarm eval call id fuel (.yielded v) h = Invocation.yieldedChain v >>= fun c =>
      match c, fuel with
      | .suspended e r, _ => (Chain.suspended e r).bind call (.call (.resumption id h))
      | .done _ _, 0 => Action.exhaust
      | .done answer _, fuel + 1 =>
        feed alarm eval id h answer >>= fun p => suspend alarm eval call id fuel p.1 p.2 := by
  cases fuel
  all_goals
    rw [suspend]
    refine congrArg (Invocation.yieldedChain v >>= ·) (funext fun c => ?_)
    cases c <;> rfl

/-- Finished chains that are yielded are answered, one after the other. -/
theorem suspend_eq (heval : Evaluation.Watched s eval' eval) (call call' : Call)
    {fuel : Nat} {next : Advance} (hw : KeptFrom s births w.world)
    (hlive : LiveAt id next h answers w.world) :
    suspend alarm eval' call' id fuel next h w = Invocation.suspend eval call id fuel next h w := by
  induction fuel using Nat.strongRecOn generalizing births next h answers w with
  | ind fuel ih =>
    cases next with
    | returned v => cases fuel <;> rfl
    | yielded v =>
      rw [suspend_yielded, Invocation.suspend_yielded]
      rcases Invocation.yieldedChain_cases v with ⟨c, hc⟩ | hfail
      case inr =>
        rw [hfail]
        rfl
      rw [hc, pure_bind, pure_bind]
      rcases c with ⟨answer, r⟩ | ⟨e, r⟩
      · cases fuel with
        | zero => rfl
        | succ fuel =>
          obtain ⟨gen, i, hi, hl, hh⟩ := hlive v rfl
          have hleads := Outcome.Leads.feed heval.proceeds.sound hw hi hl hh answer
          have hcomes := Outcome.Comes.feed heval.proceeds hi hl hh answer
          refine Outcome.bind_eq_of_comes (feed_eq heval hw hi hl answer) hleads hcomes
            fun p v _ hafter hlive _ => ?_
          obtain ⟨-, births', -, hv⟩ := hafter
          exact ih fuel (Nat.lt_succ_self fuel) hv hlive
      · rfl

/-- An answer to the live coroutine, and what comes after it. -/
theorem goOn_eq (heval : Evaluation.Watched s eval' eval) (call call' : Call) (maxSteps : Nat)
    (hw : KeptFrom s births w.world) (hi : w.world.invocations[id]? = some i)
    (hl : i.live = some (gen, h)) (a : Value) :
    (feed alarm eval' id h a >>= fun p => suspend alarm eval' call' id maxSteps p.1 p.2) w
      = (Invocation.feed eval id h a >>= fun p =>
          Invocation.suspend eval call id maxSteps p.1 p.2) w := by
  obtain ⟨c, hc, hh⟩ := w.orderly id i gen h hi hl
  refine Outcome.bind_eq_of_comes (feed_eq heval hw hi hl a)
    (Outcome.Leads.feed heval.proceeds.sound hw hi hl hh a)
    (Outcome.Comes.feed heval.proceeds hi hl hh a) fun p v _ hafter hlive _ => ?_
  obtain ⟨-, births', -, hv⟩ := hafter
  exact suspend_eq heval call call' hv hlive

theorem resume_eq (heval : Evaluation.Watched s eval' eval) (call call' : Call)
    (hw : KeptFrom s births w.world) (maxSteps id h : Nat) (a : Value) :
    resume alarm eval' call' maxSteps id h a w
      = Invocation.resume eval call maxSteps id h a w := by
  have hlive : Invocation.liveOf id w = .value ((w.world.invocations[id]?).bind (·.live)) w := rfl
  rw [resume, Invocation.resume, Action.bind_of_value hlive, Action.bind_of_value hlive]
  cases hstands : Invocation.standsAt h ((w.world.invocations[id]?).bind (·.live)) with
  | false =>
    refine Outcome.bind_eq_of_comes (rebuild_eq heval hw id h)
      (Outcome.Leads.rebuild heval.proceeds.sound hw id h)
      (Outcome.Comes.rebuild heval.proceeds w id h) fun _ v _ hafter _ hlive => ?_
    obtain ⟨-, births', -, hv⟩ := hafter
    obtain ⟨gen, j, hj, hl⟩ := hlive
    exact goOn_eq heval call call' maxSteps hv hj hl a
  | true =>
    obtain ⟨gen, hl⟩ := Invocation.standsAt_eq_true hstands
    obtain ⟨i, hi, hl⟩ := Option.bind_eq_some_iff.mp hl
    exact goOn_eq heval call call' maxSteps hw hi hl a

/-- A new call of a routine. -/
theorem enter_eq (heval : Evaluation.Watched s eval' eval) (hw : KeptFrom s births w.world)
    (hbirth : births w.world.invocations.size = w.world) (body : List Stmt) (env : Env) :
    enter alarm eval' body env w = Invocation.enter eval body env w := by
  let new : Invocation := ⟨body, env, #[], #[[]], none⟩
  have hw₀ : KeptFrom s births (w.made body env).world := hw.push hbirth rfl
  have hi₀ : (w.made body env).world.invocations[w.world.invocations.size]? = some new :=
    w.world.record_withCall body env
  have hcreate : Invocation.create body env w
      = .value w.world.invocations.size (w.made body env).world := rfl
  have hcreate' : step alarm (Invocation.create body env) w = Invocation.create body env w := by
    refine step_eq hw.steady rfl fun v hv => ?_
    rw [hcreate] at hv
    cases hv
    exact hw₀.steady
  -- The only coroutine of the call.
  obtain ⟨u, hspawn, hspawn', hw₁, hi₁, haway₁⟩ := spawn_eq alarm hw₀ hi₀
  have hentry : new.withFresh.coroutines[0]? = some ⟨.entry body env, []⟩ := rfl
  rw [enter, Invocation.enter, Action.bind_of_value (hcreate'.trans hcreate),
    Action.bind_of_value hcreate, Action.bind_of_value hspawn', Action.bind_of_value hspawn]
  refine Outcome.bind_eq_of_comes (start_eq heval hw₁ hi₁ haway₁ hentry)
    (Outcome.Leads.start heval.proceeds.sound hw₁ hi₁ haway₁ hentry)
    (Outcome.Comes.start heval.proceeds hi₁ hentry haway₁) fun next v hstart hafter _ _ => ?_
  cases next with
  | returned x => rfl
  | yielded x =>
    refine Action.bind_congr_apply (step_eq ⟨hafter.kept, v, rfl⟩ rfl fun y hy => ?_)
    have hend : Invocation.enter eval body env w
        = .value (w.world.invocations.size, .yielded x) y := by
      rw [Invocation.enter, Action.bind_of_value hcreate, Action.bind_of_value hspawn,
        Action.bind_of_value hstart]
      cases hy
      rfl
    refine (Outcome.Comes.enter heval.proceeds w body env).steady
      (Outcome.Leads.enter heval.proceeds.sound body env hw hbirth) ?_
    rw [hend]
    rfl

theorem begin_eq (heval : Evaluation.Watched s eval' eval) (call call' : Call) (maxSteps : Nat)
    (hw : KeptFrom s births w.world) (body : List Stmt) (env : Env) :
    begin alarm eval' call' maxSteps body env w
      = Invocation.begin eval call maxSteps body env w := by
  obtain ⟨births', -, hbirth, hw'⟩ := hw.exists_birth
  refine Outcome.bind_eq_of_comes (enter_eq heval hw' hbirth body env)
    (Outcome.Leads.enter heval.proceeds.sound body env hw' hbirth)
    (Outcome.Comes.enter heval.proceeds w body env) fun p v _ hafter hlive _ => ?_
  obtain ⟨-, births'', -, hv⟩ := hafter
  exact suspend_eq heval call call' hv hlive.2

end Watched

/-! ### Calls -/

namespace Watched

variable {alarm : ∀ α : Type, Action α} {eval' eval : Evaluation} {call call' : Call}

/-- A family of two actions is a pair of them. -/
theorem watching_pair {P : α → Prop} {x : Bool → Action α} (hx : (watching s).holds P x) :
    (watching s).holds P fun b => bif b then x true else x false := ⟨hx.1, hx.2.1, hx.2.2⟩

/-- A look at the world before an action and after it. -/
theorem watching_step {P : α → Prop} {x : Bool → Action α} (hx : (watching s).holds P x) :
    (watching s).holds P fun b => bif b then step alarm (x true) else x false := by
  obtain ⟨hk, hp, heq⟩ := hx
  exact ⟨hk, hp, fun w hw => step_eq hw (heq w hw) fun _ hu => hk.steady hp hw hu⟩

/-- Evaluation with watched calls is watched. -/
theorem watched_eval (hproceeds : Evaluation.Proceeds s fun env e => e.eval s call env)
    (hcall : (watching s).Calls fun b => bif b then call' else call) :
    Evaluation.Watched s (Watched.eval alarm s call') fun env e => e.eval s call env where
  proceeds := hproceeds
  watching e _ he henv := by
    have heval := Discipline.eval hcall (Callable.runsAlike_const _ s) e he henv
    exact watching_pair (x := fun b => (bif b then Watched.eval alarm s call' else
      fun env e => e.eval s call env) _ e) (watching_step heval)

theorem watching_resume (heval : Evaluation.Watched s eval' eval) (maxSteps id h : Nat)
    (a : Value) : (watching s).holds (Chain.Obeys .free) fun b =>
      bif b then resume alarm eval' call' maxSteps id h a
      else Invocation.resume eval call maxSteps id h a := by
  refine ⟨Keeps.resume heval.proceeds.sound call maxSteps id h a,
    Proceeds.resume heval.proceeds call maxSteps id h a, fun w hw => ?_⟩
  obtain ⟨hkept, m, rfl⟩ := hw
  obtain ⟨births, hkept⟩ := hkept.exists_births
  exact resume_eq heval call call' hkept maxSteps id h a

theorem watching_begin (heval : Evaluation.Watched s eval' eval) (maxSteps : Nat)
    (body : List Stmt) (env : Env) :
    (watching s).holds (Chain.Obeys .free) fun b =>
      bif b then begin alarm eval' call' maxSteps body env
      else Invocation.begin eval call maxSteps body env := by
  refine ⟨Keeps.begin heval.proceeds.sound call maxSteps body env,
    Proceeds.begin heval.proceeds call maxSteps body env, fun w hw => ?_⟩
  obtain ⟨hkept, m, rfl⟩ := hw
  obtain ⟨births, hkept⟩ := hkept.exists_births
  exact begin_eq heval call call' maxSteps hkept body env

/-- Calls of functions are watched if the calls that they make are. -/
theorem watching_applyWith (hproceeds : Evaluation.Proceeds s fun env e => e.eval s call env)
    (hcall : (watching s).Calls fun b => bif b then call' else call) :
    (watching s).Calls fun b f args =>
      bif b then applyWith alarm s call' f args else f.applyWith s call args := by
  have heval : Evaluation.Watched s (Watched.eval alarm s call') fun env e => e.eval s call env :=
    watched_eval hproceeds hcall
  intro f args hf hargs
  have hbind (env : Env) (params : List String) :
      (watching s).holds (Env.Obeys .free)
        fun _ => Action.require .arity (Env.setAll? env params args) :=
    Discipline.bindParameters (fun b _ => Value.obeys_free b.2) params hargs
  rcases f with ⟨_, params, body, env⟩ | ⟨_, name, params, body, env⟩ |
    ⟨_, requires, params, body | body, env⟩ | ⟨id, h⟩
  · exact watching_pair ((watching s).bind (hbind env params) fun _ henv =>
      heval.watching body _ (Expr.uses_any body) henv)
  · exact watching_pair ((watching s).bind (hbind _ params) fun _ henv =>
      heval.watching body _ (Expr.uses_any body) henv)
  · refine watching_pair (P := Value.Obeys .free) (x := fun b => do
      let env ← Action.require .arity (Env.setAll? env params args)
      let c ← bif b then begin alarm (Watched.eval alarm s call') call' s.maxSteps body env
        else Invocation.begin (fun env e => e.eval s call env) call s.maxSteps body env
      return .chain (c.declare requires)) ?_
    exact (watching s).bind (hbind env params) fun env _ =>
      (watching s).map (watching_begin heval s.maxSteps body env) fun c _ => Chain.obeys_free _
  · refine watching_pair (P := Value.Obeys .free) (x := fun b => do
      let eval := bif b then Watched.eval alarm s call' else fun env e => e.eval s call env
      let env ← Action.require .arity (Env.setAll? env params args)
      match ← eval env body with
      | .chain c => return .chain (c.declare requires)
      | v => return .chain ((Chain.finished v).declare requires)) ?_
    refine (watching s).bind (hbind env params) fun env henv => ?_
    refine (watching s).bind (heval.watching body env (Expr.uses_any body) henv) fun v _ => ?_
    cases v
    all_goals exact (watching s).ret (Chain.obeys_free _)
  · rcases args with _ | ⟨a, _ | ⟨_, _⟩⟩
    · exact (watching s).fail _ _
    · refine watching_pair (P := Value.Obeys .free) (x := fun b => do
        let c ← bif b then resume alarm (Watched.eval alarm s call') call' s.maxSteps id h a
          else Invocation.resume (fun env e => e.eval s call env) call s.maxSteps id h a
        return .chain c) ?_
      exact (watching s).map (watching_resume heval s.maxSteps id h a) fun c _ => c.obeys_free
    · exact (watching s).fail _ _

/-- **Watched calls are calls**: in steady worlds the alarm is never raised. -/
theorem watching_apply (alarm : ∀ α : Type, Action α) (s : Settings) (depth : Nat) :
    (watching s).Calls fun b => bif b then apply alarm s depth else Callable.apply s depth := by
  induction depth with
  | zero => exact fun _ _ _ _ => watching_pair ((watching s).exhaust _)
  | succ depth ih =>
    have heval : Evaluation.Proceeds s fun env e => e.eval s (Callable.apply s depth) env :=
      ⟨sound_apply (keeping_apply s depth), fun e _ he henv =>
        Discipline.eval (proceeding_apply s depth) (Callable.runsAlike_const _ s) e he henv⟩
    exact fun f args hf hargs =>
      watching_pair (watching_step (watching_applyWith heval ih f args hf hargs))

end Watched

/-! ### The theorem -/

/-- Reachable worlds are steady. -/
theorem World.Reachable.steady {w : World} (hw : w.Reachable s) : w.Steady s := by
  induction hw with
  | initial input =>
    let m : Moment s := ⟨.initial input, [], World.orderly_initial input, nofun, .nil⟩
    exact ⟨kept_initial s input, m, rfl⟩
  | call f args _ after ih =>
    exact Keeps.steady (keeping_meaning s f args f.obeys_free fun a _ => a.obeys_free)
      (proceeding_meaning s f args f.obeys_free fun a _ => a.obeys_free) ih after

/-- **Coroutines are advanced from the right place.**  In whatever world calls have led to, every
live coroutine is parked and has received exactly the answers of the history that it is kept with,
and so it is after another call, whether the call fails or not.  Nor is anything else ever met on
the way: an interpreter that raises an alarm when it is about to start a coroutine that has started,
to send an answer to a coroutine that is not parked or has not received exactly the answers before
it, to take away a live coroutine that is not there, or when it leaves a live coroutine elsewhere,
does what the interpreter does, whatever the alarm is. -/
theorem coroutines_advance_in_place (alarm : ∀ α : Type, Action α) {w : World}
    (hw : w.Reachable s) (depth : Nat) (f : Callable) (args : List Value) :
    Watched.apply alarm s depth f args w = Callable.apply s depth f args w ∧ w.Upright ∧
      ∀ u, (Callable.meaning s f args w).world? = some u → u.Upright := by
  have hcall := Watched.watching_apply alarm s depth f args f.obeys_free fun a _ => a.obeys_free
  exact ⟨hcall.2.2 w hw.steady, hw.steady.upright, fun u hu => (hw.call f args hu).steady.upright⟩

/-- A routine that, when its first request is answered with 1, answers that request once more. -/
def revisiting : List Stmt :=
  [.yield (some "x") (.op (.effect .tick) [.literal (.int 2)]),
    .cond (.op (.data .equal) [.var "x", .literal (.int 1)])
      [.eval (.op (.effect .resume) [.op (.data .cellGet) [.var "node"], .literal (.int 5)])] [],
    .yield (some "y") (.op (.effect .tick) [.var "x"]),
    .exit (.var "y")]

/-- A call of the routine, with the first node of its chain in a cell. -/
def visit : Expr :=
  .letIn "node" (.op (.data .cell) [.literal .null])
    (.op (.data .cellSet) [.var "node", .op (.chain .effect)
      [.op (.data .call) [.program [] ["node"] (.resumable revisiting), .var "node"]]])

/-- The first node is answered with 1; while the routine goes on, it answers the node with 5. -/
theorem coroutines_advance_in_place_revisiting : ∃ (w u : World) (v : Value),
    w.Reachable ⟨false, 10⟩ ∧
    Watched.apply (fun _ => Action.exhaust) ⟨false, 10⟩ 6 (.resumption 0 0) [.int 1] w
      = .value v u ∧ w.Upright ∧ u.Upright := by
  have hcalls : ∃ v u, (Callable.apply ⟨false, 10⟩ 6 (.closure 0 [] visit []) [] >>= fun _ =>
      Callable.apply ⟨false, 10⟩ 6 (.resumption 0 0) [.int 1]) (.initial "") = .value v u := by
    apply Exists.intro
    apply Exists.intro
    cbv
  obtain ⟨v, u, hcalls⟩ := hcalls
  obtain ⟨x, w, hvisit, hresume⟩ := Action.bind_eq_value.mp hcalls
  have hmeaning {f : Callable} {args : List Value} {w w' : World} {v : Value}
      (h : Callable.apply ⟨false, 10⟩ 6 f args w = .value v w') :
      (Callable.meaning ⟨false, 10⟩ f args w).world? = some w' := by
    rw [Callable.meaning_of_apply (by rw [h]; simp), h]
    rfl
  have hw : w.Reachable ⟨false, 10⟩ := (World.Reachable.initial "").call _ _ (hmeaning hvisit)
  obtain ⟨hwatched, hupright, hafter⟩ :=
    coroutines_advance_in_place (fun _ => Action.exhaust) hw 6 (.resumption 0 0) [.int 1]
  exact ⟨w, u, v, hw, hwatched.trans hresume, hupright, hafter u (hmeaning hresume)⟩

end EffectHandlers
