/-
EffectHandlers/Proofs/Requirements.lean

What the chain of a routine declares.

A routine stands for the program that binds every chain it yields to the
rest of itself, and a bind passes on what its first chain declares.  So the
chain that a call of the routine gives should declare what the program
itself declares and what the chains declare that were yielded during the
call: the finished ones, which are answered at once, and the pending one at
which the routine is suspended.

The finished ones are the exception: only their values are kept.

`Invocation.yieldsOf` lists the chains that are yielded during a call.

Main statement: the declaration of the chain, and that nothing is lost
exactly if every finished chain that was yielded declares no more than the
whole (`requires_program`), with a routine that loses a requirement
(`requires_program_lost`).
-/
import EffectHandlers.Script.Eval

namespace EffectHandlers

/-! ### Declarations of several chains -/

/-- What some chains declare together. -/
def declaredBy (cs : List Chain) : CapabilitySet :=
  cs.foldr (fun c s => c.requires ∪ s) ∅

@[simp] theorem mem_declaredBy {a : Capability} {cs : List Chain} :
    a ∈ declaredBy cs ↔ ∃ c ∈ cs, a ∈ c.requires := by
  induction cs with
  | nil => simp [declaredBy]
  | cons c cs ih =>
    have step : declaredBy (c :: cs) = c.requires ∪ declaredBy cs := rfl
    rw [step, CapabilitySet.mem_union, ih]
    simp

/-- The chains among some that are not finished. -/
def pendingOf (cs : List Chain) : List Chain := cs.filter fun c => !c.isDone

/-- What the pending chains declare falls short of what all declare unless the finished ones
declare no more. -/
theorem union_declaredBy_iff (r : CapabilitySet) (cs : List Chain) :
    r ∪ declaredBy (pendingOf cs) = r ∪ declaredBy cs ↔
      ∀ d ∈ cs, d.isDone = true → ∀ a ∈ d.requires, a ∈ r ∪ declaredBy (pendingOf cs) := by
  constructor
  · intro h d hd _ a ha
    rw [h, CapabilitySet.mem_union, mem_declaredBy]
    exact .inr ⟨d, hd, ha⟩
  · intro h
    apply CapabilitySet.ext
    intro a
    constructor
    · intro ha
      rw [CapabilitySet.mem_union, mem_declaredBy] at ha ⊢
      exact ha.imp id fun ⟨c, hc, hca⟩ => ⟨c, (List.mem_filter.mp hc).1, hca⟩
    · intro ha
      rw [CapabilitySet.mem_union, mem_declaredBy] at ha
      rcases ha with ha | ⟨c, hc, hca⟩
      · exact CapabilitySet.mem_union.mpr (.inl ha)
      · cases hdone : c.isDone with
        | true => exact h c hc hdone a hca
        | false =>
          have hp : c ∈ pendingOf cs := List.mem_filter.mpr ⟨hc, by simp [hdone]⟩
          exact CapabilitySet.mem_union.mpr (.inr (mem_declaredBy.mpr ⟨c, hp, hca⟩))

namespace Invocation

/-! ### The chains that a routine yields -/

/-- The chains that a routine yields until it is suspended or returns, in order: finished ones,
and at most one pending one at the end. -/
def yieldsOf (eval : Evaluation) (id : Nat) : Nat → Advance → Nat → Action (List Chain) :=
  fun fuel next h =>
    match next with
    | .returned _ => pure []
    | .yielded v => do
      let c ← yieldedChain v
      match c with
      | .suspended _ _ => return [c]
      | .done answer _ =>
        match fuel with
        | 0 => Action.exhaust
        | fuel + 1 => do
          let (next, h) ← feed eval id h answer
          return c :: (← yieldsOf eval id fuel next h)
termination_by structural fuel => fuel

theorem yieldsOf_returned (eval : Evaluation) (id fuel : Nat) (v : Value) (h : Nat) :
    yieldsOf eval id fuel (.returned v) h = pure [] := by
  cases fuel <;> rfl

theorem yieldsOf_yielded (eval : Evaluation) (id fuel : Nat) (v : Value) (h : Nat) :
    yieldsOf eval id fuel (.yielded v) h = yieldedChain v >>= fun c =>
      match c, fuel with
      | .suspended _ _, _ => pure [c]
      | .done _ _, 0 => Action.exhaust
      | .done answer _, fuel + 1 =>
        feed eval id h answer >>= fun p =>
          yieldsOf eval id fuel p.1 p.2 >>= fun cs => pure (c :: cs) := by
  cases fuel
  all_goals
    rw [yieldsOf]
    refine congrArg (yieldedChain v >>= ·) (funext fun c => ?_)
    cases c <;> rfl

/-- The chains that the routine of a program yields when the program is called. -/
def yields (eval : Evaluation) (maxSteps : Nat) (body : List Stmt) (env : Env) :
    Action (List Chain) := do
  let (id, next) ← enter eval body env
  yieldsOf eval id maxSteps next emptyHistory

/-! ### What a call declares -/

/-- The chain for what a routine came to declares what the pending chain declares that was
yielded on the way to it. -/
theorem suspend_requires (eval : Evaluation) (call : Call) (id fuel : Nat) {next : Advance}
    {h : Nat} {w w' : World} {c : Chain}
    (hc : suspend eval call id fuel next h w = .value c w') :
    ∃ cs, yieldsOf eval id fuel next h w = .value cs w' ∧
      c.requires = declaredBy (pendingOf cs) := by
  induction fuel using Nat.strongRecOn generalizing next h w with
  | ind fuel ih =>
    rcases suspend_eq_value hc with ⟨v, rfl, rfl, rfl⟩ | ⟨v, e, r, rfl, hv, rfl⟩ |
      ⟨v, answer, r, w₁, p, w₂, n, rfl, rfl, hv, hp, hc⟩
    · refine ⟨[], ?_, rfl⟩
      rw [yieldsOf_returned]
      rfl
    · refine ⟨[.suspended e r], ?_, ?_⟩
      · rw [yieldsOf_yielded]
        exact Action.bind_eq_value.mpr ⟨_, _, hv, rfl⟩
      · apply CapabilitySet.ext
        simp [pendingOf, Chain.isDone, Chain.requires]
    · -- A finished chain is yielded, but it is not pending.
      obtain ⟨cs, hcs, hreq⟩ := ih n (Nat.lt_succ_self n) hc
      refine ⟨.done answer r :: cs, ?_, hreq⟩
      rw [yieldsOf_yielded]
      exact Action.bind_eq_value.mpr ⟨_, _, hv, Action.bind_eq_value.mpr ⟨_, _, hp,
        Action.bind_eq_value.mpr ⟨_, _, hcs, rfl⟩⟩⟩

/-- The chain of a new call of a routine declares what the pending chain declares that the call
yields. -/
theorem begin_requires {eval : Evaluation} {call : Call} {maxSteps : Nat} {body : List Stmt}
    {env : Env} {w w' : World} {c : Chain}
    (hc : begin eval call maxSteps body env w = .value c w') :
    ∃ cs, yields eval maxSteps body env w = .value cs w' ∧
      c.requires = declaredBy (pendingOf cs) := by
  obtain ⟨p, w₁, hp, hc⟩ := Action.bind_eq_value.mp hc
  obtain ⟨cs, hcs, hreq⟩ := suspend_requires eval call p.1 maxSteps hc
  exact ⟨cs, Action.bind_eq_value.mpr ⟨p, w₁, hp, hcs⟩, hreq⟩

end Invocation

/-! ### Programs -/

/-- The chains that the routine of a program yields while the program is called. -/
def programYields (s : Settings) (call : Call) (params : List String) (body : List Stmt)
    (env : Env) (args : List Value) : Action (List Chain) := do
  let env ← Action.require .arity (Env.setAll? env params args)
  Invocation.yields (fun env e => e.eval s call env) s.maxSteps body env

/-- **What the chain of a program declares**: what the program declares, and what the pending
chain declares that the call yielded.  This is what all the chains declare that were yielded
exactly if the finished ones among them declare no more. -/
theorem requires_program (s : Settings) (call : Call) (id : Nat) (requires : CapabilitySet)
    (params : List String) (body : List Stmt) (env : Env) (args : List Value) {w w' : World}
    {v : Value}
    (h : Callable.applyWith s call (.program id requires params (.resumable body) env) args w
      = .value v w') :
    ∃ c cs, v = .chain c ∧ programYields s call params body env args w = .value cs w' ∧
      c.requires = requires ∪ declaredBy (pendingOf cs) ∧
      (c.requires = requires ∪ declaredBy cs ↔
        ∀ d ∈ cs, d.isDone = true → ∀ a ∈ d.requires, a ∈ c.requires) := by
  obtain ⟨env', w₁, henv, h⟩ := Action.bind_eq_value.mp h
  obtain ⟨c, w₂, hc, h⟩ := Action.bind_eq_value.mp h
  obtain ⟨rfl, rfl⟩ := Action.pure_eq_value.mp h
  obtain ⟨cs, hcs, hreq⟩ := Invocation.begin_requires hc
  have hdeclare : (c.declare requires).requires = requires ∪ declaredBy (pendingOf cs) := by
    apply CapabilitySet.ext
    intro a
    rw [Chain.mem_requires_declare, hreq, CapabilitySet.mem_union]
    exact or_comm
  refine ⟨c.declare requires, cs, rfl, ?_, hdeclare, ?_⟩
  · exact Action.bind_eq_value.mpr ⟨env', w₁, henv, hcs⟩
  · rw [hdeclare]
    exact union_declaredBy_iff requires cs

/-- The routine that yields a chain finished with one, which declares a capability, and then makes
a request of another capability. -/
def yieldingDone : List Stmt :=
  [.yield none (.op (.chain .done) [.literal (.int 1),
      .op (.chain .capability) [.literal (.text "log")]]),
    .yield none (.op (.effect .beep) [])]

/-- The requirement of a finished chain is lost: a call yields a chain that declares `log`, and
the chain of the call declares `console` only. -/
theorem requires_program_lost :
    ∃ e w, Callable.applyWith ⟨false, 5⟩ (fun _ _ => Action.exhaust)
        (.program 0 ∅ [] (.resumable yieldingDone) []) [] (World.initial "")
          = .value (.chain (.suspended e (.single ⟨"console"⟩))) w ∧
      programYields ⟨false, 5⟩ (fun _ _ => Action.exhaust) [] yieldingDone [] [] (World.initial "")
        = .value [.done (.int 1) (.single ⟨"log"⟩), Chain.perform (Effect.of .beep)] w := by
  apply Exists.intro
  apply Exists.intro
  constructor
  · cbv
  · cbv

/-- The same call with a declaration that covers what its finished chain declares. -/
theorem requires_program_kept :
    ∃ v w' c cs, Callable.applyWith ⟨false, 5⟩ (fun _ _ => Action.exhaust)
        (.program 0 (.single ⟨"log"⟩) [] (.resumable yieldingDone) []) [] (World.initial "")
          = .value v w' ∧
      v = .chain c ∧
      programYields ⟨false, 5⟩ (fun _ _ => Action.exhaust) [] yieldingDone [] [] (World.initial "")
        = .value cs w' ∧
      c.requires = .single ⟨"log"⟩ ∪ declaredBy (pendingOf cs) ∧
      (c.requires = .single ⟨"log"⟩ ∪ declaredBy cs ↔
        ∀ d ∈ cs, d.isDone = true → ∀ a ∈ d.requires, a ∈ c.requires) := by
  have hcall : ∃ v w', Callable.applyWith ⟨false, 5⟩ (fun _ _ => Action.exhaust)
      (.program 0 (.single ⟨"log"⟩) [] (.resumable yieldingDone) []) [] (World.initial "")
        = .value v w' := by
    apply Exists.intro
    apply Exists.intro
    cbv
  obtain ⟨v, w', h⟩ := hcall
  obtain ⟨c, cs, hv, hrest⟩ := requires_program ⟨false, 5⟩ (fun _ _ => Action.exhaust) 0
    (.single ⟨"log"⟩) [] yieldingDone [] [] h
  exact ⟨v, w', c, cs, h, hv, hrest⟩

end EffectHandlers
