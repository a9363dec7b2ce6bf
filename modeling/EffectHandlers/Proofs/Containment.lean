/-
EffectHandlers/Proofs/Containment.lean

No stop signal comes out of a routine.

The signal that stops an iteration may be raised by anything that a routine
executes.  It leaves the routine as another failure, and nothing else that
is done for a call of a program raises it.  So whatever the routine does,
the call of a program and a resumption fail with other failures only
(`Callable.Executes.contained`).
-/
import EffectHandlers.Proofs.DirectStyle
import EffectHandlers.Script.Eval

namespace EffectHandlers

variable {α β : Type}

theorem Coroutine.outward_outward (f : Failure) : outward (outward f) = outward f := by
  cases f
  case raised kind message => cases kind <;> rfl
  all_goals rfl

/-- Whatever fails in an action fails as it does outside of routines. -/
def Action.Contained (x : Action α) : Prop := x.outward = x

namespace Action.Contained

variable {x : Action α}

/-! ### Actions -/

theorem pure (a : α) : Contained (pure a : Action α) := rfl

theorem exhaust : Contained (exhaust : Action α) := rfl

theorem fail {f : Failure} (hf : Coroutine.outward f = f) : Contained (fail f : Action α) := by
  funext w
  show Outcome.failed (Coroutine.outward f) w = _
  rw [hf]
  rfl

theorem bind {f : α → Action β} (hx : x.Contained) (hf : ∀ a, (f a).Contained) :
    (x >>= f).Contained := by
  rw [Contained, outward_bind, hx]
  exact congrArg (x >>= ·) (funext hf)

theorem require {f : Failure} (hf : Coroutine.outward f = f) (a : Option α) :
    (require f a).Contained := by
  cases a with
  | none => exact fail hf
  | some a => exact pure a

/-- No stop signal comes out: such a failure stays what it is outside of routines. -/
theorem outward_eq (hx : x.Contained) {w u : World} {f : Failure} (h : x w = .failed f u) :
    Coroutine.outward f = f := by
  have houtward : x.outward w = .failed (Coroutine.outward f) u := by rw [outward, h]
  rw [hx, h] at houtward
  injection houtward with heq
  exact heq.symm

/-! ### Accesses to the records of calls -/

theorem recordOf (id : Nat) : (Invocation.recordOf id).Contained :=
  bind (x := ask _) rfl fun _ => require rfl _

theorem spawn (id : Nat) : (Invocation.spawn id).Contained := bind (recordOf id) fun _ => rfl

theorem takeLive (id : Nat) : (Invocation.takeLive id).Contained := by
  refine bind (x := Invocation.liveOf id) rfl fun l => ?_
  cases l with
  | none => exact fail rfl
  | some p => exact rfl

theorem answersOf (id h : Nat) : (Invocation.answersOf id h).Contained :=
  bind (recordOf id) fun _ => require rfl _

theorem extendHistory (id h : Nat) (answer : Value) :
    (Invocation.extendHistory id h answer).Contained :=
  bind (recordOf id) fun _ => bind (require rfl _) fun _ => rfl

theorem settle (id h gen : Nat) (answer : Value) (next : Advance) :
    (Invocation.settle id h gen answer next).Contained := by
  cases next with
  | returned v => exact pure _
  | yielded v => exact bind (extendHistory id h answer) fun _ => rfl

/-! ### Coroutines -/

theorem execute (id gen : Nat) (part : Action Exit) :
    (Coroutine.execute id gen part).Contained := by
  funext w
  rw [outward, Coroutine.execute]
  cases part (w.setPosition id gen .running) with
  | value exit u => rfl
  | failed f u =>
    show Outcome.failed (Coroutine.outward (Coroutine.outward f)) _ = _
    rw [Coroutine.outward_outward]
  | exhausted => rfl

variable (eval : Evaluation) (call : Call)

theorem send (id gen : Nat) (answer : Value) : (Coroutine.send eval id gen answer).Contained := by
  refine bind (x := Coroutine.standing id gen) rfl fun p => ?_
  cases p with
  | entry body env => exact fail rfl
  | parked target rest env =>
    exact bind (x := Coroutine.receive id gen answer) rfl fun _ => execute id gen _
  | running => exact fail rfl
  | finished => exact pure _

theorem start (id gen : Nat) : (Coroutine.start eval id gen).Contained := by
  refine bind (x := Coroutine.standing id gen) rfl fun p => ?_
  cases p with
  | entry body env => exact execute id gen _
  | parked target rest env => exact send eval id gen .null
  | running => exact send eval id gen .null
  | finished => exact send eval id gen .null

/-! ### Replay -/

theorem mustYield (next : Advance) : (Invocation.mustYield next).Contained := by
  cases next with
  | yielded v => exact pure ()
  | returned v => exact fail rfl

theorem replay (id gen : Nat) (answers : List Value) :
    (Invocation.replay eval id gen answers).Contained := by
  induction answers with
  | nil => exact pure ()
  | cons a rest ih => exact bind (send eval id gen a) fun next => bind (mustYield next) fun _ => ih

theorem rebuild (id h : Nat) : (Invocation.rebuild eval id h).Contained :=
  bind (answersOf id h) fun _ => bind (spawn id) fun _ => bind (start eval id _) fun next =>
    bind (mustYield next) fun _ => bind (replay eval id _ _) fun _ => rfl

/-! ### Yielding and going on -/

theorem yieldedChain (v : Value) : (Invocation.yieldedChain v).Contained := by
  cases v
  case effect | chain => exact pure _
  all_goals exact fail rfl

theorem feed (id h : Nat) (answer : Value) : (Invocation.feed eval id h answer).Contained :=
  bind (takeLive id) fun _ => bind (send eval id _ answer) fun _ => settle id h _ answer _

theorem suspend (id fuel : Nat) (next : Advance) (h : Nat) :
    (Invocation.suspend eval call id fuel next h).Contained := by
  induction fuel generalizing next h with
  | zero =>
    cases next with
    | returned v => exact pure _
    | yielded v =>
      rw [Invocation.suspend_yielded]
      refine bind (yieldedChain v) fun c => ?_
      cases c with
      | done answer r => exact exhaust
      | suspended e r => exact pure _
  | succ fuel ih =>
    cases next with
    | returned v => exact pure _
    | yielded v =>
      rw [Invocation.suspend_yielded]
      refine bind (yieldedChain v) fun c => ?_
      cases c with
      | done answer r => exact bind (feed eval id h answer) fun p => ih p.1 p.2
      | suspended e r => exact pure _

/-! ### Calls -/

theorem resume (maxSteps id h : Nat) (answer : Value) :
    (Invocation.resume eval call maxSteps id h answer).Contained := by
  have hgo := bind (feed eval id h answer) fun p => suspend eval call id maxSteps p.1 p.2
  refine bind (x := Invocation.liveOf id) rfl fun l => ?_
  cases Invocation.standsAt h l with
  | true => exact hgo
  | false => exact bind (rebuild eval id h) fun _ => hgo

theorem enter (body : List Stmt) (env : Env) : (Invocation.enter eval body env).Contained := by
  refine bind (x := Invocation.create body env) rfl fun id => bind (spawn id) fun gen =>
    bind (start eval id gen) fun next => ?_
  cases next with
  | returned v => exact pure _
  | yielded v => exact rfl

theorem begin (maxSteps : Nat) (body : List Stmt) (env : Env) :
    (Invocation.begin eval call maxSteps body env).Contained :=
  bind (enter eval body env) fun p => suspend eval call p.1 maxSteps p.2 _

end Action.Contained

/-! ### Functions -/

/-- Calling a function executes the body of a program: from its start, or from one of its
yields. -/
inductive Callable.Executes : Callable → Prop
  | program (id : Nat) (requires : CapabilitySet) (params : List String) (body : List Stmt)
      (env : Env) : Executes (.program id requires params (.resumable body) env)
  | resumption (id h : Nat) : Executes (.resumption id h)

/-- **No stop signal comes out** of the call of a program or of a resumption. -/
theorem Callable.Executes.contained {f : Callable} (hf : f.Executes) (s : Settings) (call : Call)
    (args : List Value) : (f.applyWith s call args).Contained := by
  cases hf with
  | program id requires params body env =>
    refine .bind (.require rfl _) fun env => ?_
    exact .bind (.begin _ call s.maxSteps body env) fun c => .pure _
  | resumption id h =>
    match args with
    | [answer] => exact .bind (.resume _ call s.maxSteps id h answer) fun c => .pure _
    | [] | _ :: _ :: _ => exact .fail rfl

end EffectHandlers
