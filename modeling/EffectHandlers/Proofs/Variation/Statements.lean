/-
EffectHandlers/Proofs/Variation/Statements.lean

What statements that vary come to.

A routine binds its variables in the order of execution, so one scope goes
with the whole of it: every variable keeps its role, however often it is
assigned.  Statements that vary in this scope end alike: they come through
with environments that vary, or they yield values in the role of the routine
and leave parts that vary, or they return counterparts.

Main statements: `Stmt.Varies.linked`, and `execFrames_linked` for what a
yield has left.
-/
import EffectHandlers.Proofs.Variation.Laws

namespace EffectHandlers

open Action.LinkedBy hiding pure bind fail map

/-- Evaluations are linked if expressions that vary have values that vary. -/
def EvaluationLinked (W : Comparing) (eval eval' : Evaluation) : Prop :=
  ∀ ⦃Γ : Scope⦄ ⦃ρ : Role⦄ ⦃e e' : Expr⦄, Expr.Varies W.loose Γ ρ e e' →
    ∀ ⦃L : Link⦄ ⦃env env' : Env⦄, EnvVaried W.loose L Γ env env' →
      Action.LinkedBy W L (fun M => Varied W.loose M ρ) (eval env e) (eval' env' e')

theorem CallsUnfolded.evaluation {W : Comparing} {call call' : Call}
    (hcall : CallsUnfolded W call call') {s s' : Settings} (hs : W.Fits s s') :
    EvaluationLinked W (fun env e => e.eval s call env) (fun env e => e.eval s' call' env) :=
  fun _ _ _ _ h _ _ _ henv => h.linked hs hcall henv

/-- Two ends of an execution that vary. -/
inductive Exit.Varied (loose : Bool) (Γ : Scope) (ρ : Role) (L : Link) : Exit → Exit → Prop
  | through {env env' : Env} (henv : EnvVaried loose L Γ env env') :
    Exit.Varied loose Γ ρ L (.through env) (.through env')
  | yielded {v v' : Value} {target : Option String} {rest rest' : List Frame} {env env' : Env}
      (hv : EffectHandlers.Varied loose L ρ v v') (htarget : ∀ x ∈ target, .plain ≤ (Γ x).role)
      (hrest : List.Forall₂ (Frame.Varies loose L Γ ρ) rest rest')
      (henv : EnvVaried loose L Γ env env') :
    Exit.Varied loose Γ ρ L (.yielded v target rest env) (.yielded v' target rest' env')
  | returned {v v' : Value} (hv : Counterpart L v v') :
    Exit.Varied loose Γ ρ L (.returned v) (.returned v')

/-- An answer is bound to the target of a yield. -/
theorem EnvVaried.bindAnswer {loose : Bool} {L : Link} {Γ : Scope} {env env' : Env}
    (henv : EnvVaried loose L Γ env env') {target : Option String}
    (htarget : ∀ x ∈ target, .plain ≤ (Γ x).role) {a a' : Value} (ha : Counterpart L a a') :
    EnvVaried loose L Γ (Coroutine.bindAnswer env target a)
      (Coroutine.bindAnswer env' target a') := by
  cases target with
  | none => exact henv
  | some x => exact henv.assign ((Varied.plain_iff.mpr ha).weaken (htarget x rfl))

section

variable {W : Comparing} {L : Link} {Γ : Scope} {ρ : Role} {eval eval' : Evaluation}
  {env env' : Env}

/-- Execute more if an execution came through; else what is left grows. -/
theorem Action.LinkedBy.thenExit {x y : Action Exit} {frames frames' : List Frame}
    {next next' : Env → Action Exit} (hxy : Action.LinkedBy W L (Exit.Varied W.loose Γ ρ) x y)
    (hframes : ∀ M, L ≤ M → List.Forall₂ (Frame.Varies W.loose M Γ ρ) frames frames')
    (hnext : ∀ {M : Link} {env env' : Env}, L ≤ M → EnvVaried W.loose M Γ env env' →
      Action.LinkedBy W M (Exit.Varied W.loose Γ ρ) (next env) (next' env')) :
    Action.LinkedBy W L (Exit.Varied W.loose Γ ρ)
      (x >>= fun exit => match exit with
        | .through env => next env
        | other => Pure.pure (other.followedBy frames))
      (y >>= fun exit => match exit with
        | .through env => next' env
        | other => Pure.pure (other.followedBy frames')) := by
  refine hxy.bind fun M exit exit' hLM hexit => ?_
  cases hexit with
  | through henv => exact hnext hLM henv
  | yielded hv htarget hrest henv =>
    exact .pure (.yielded hv htarget (List.rel_append hrest (hframes M hLM)) henv)
  | returned hv => exact .pure (.returned hv)

theorem execLoop_linked {x : String} {body body' : List Stmt} {exec exec' : Env → Action Exit}
    {τ : Role} (hx : τ ≤ (Γ x).role) (hbody : stmtsVary W.loose Γ ρ body body')
    (hexec : ∀ {M : Link} {env env' : Env}, EnvVaried W.loose M Γ env env' →
      Action.LinkedBy W M (Exit.Varied W.loose Γ ρ) (exec env) (exec' env'))
    {items items' : List Value} (hitems : List.Forall₂ (Varied W.loose L τ) items items')
    (henv : EnvVaried W.loose L Γ env env') :
    Action.LinkedBy W L (Exit.Varied W.loose Γ ρ) (execLoop exec x body items env)
      (execLoop exec' x body' items' env') := by
  induction items generalizing L items' env env' with
  | nil =>
    cases hitems
    exact .pure (.through henv)
  | cons v items ih =>
    cases hitems with
    | cons hv hitems =>
      have hrest (M : Link) (hLM : L ≤ M) := hitems.imp fun _ _ hv => Varied.mono hv hLM
      exact (hexec (henv.assign (hv.weaken hx))).thenExit
        (fun M hLM => .cons (.loop hx (hrest M hLM) hbody) .nil)
        fun hLM henv => ih (hrest _ hLM) henv

mutual

/-- **Statements that vary end alike.** -/
theorem Stmt.Varies.linked (heval : EvaluationLinked W eval eval') : ∀ {Γ : Scope} {ρ : Role}
    {s s' : Stmt}, Stmt.Varies W.loose Γ ρ s s' → ∀ {L : Link} {env env' : Env},
      EnvVaried W.loose L Γ env env' → Action.LinkedBy W L (Exit.Varied W.loose Γ ρ)
        (s.exec eval env) (s'.exec eval' env')
  | _, _, _, _, .yield he htarget, _, _, _, henv =>
    (heval he henv).map fun _ _ _ hLM hv => .yielded hv htarget .nil (henv.mono hLM)
  | _, _, _, _, .assign he, _, _, _, henv =>
    (heval he henv).map fun _ _ _ hLM hv => .through ((henv.mono hLM).assign hv)
  | _, _, _, _, .eval he, _, _, _, henv =>
    (heval he henv).map fun _ _ _ hLM _ => .through (henv.mono hLM)
  | _, _, _, _, .exit he, _, _, _, henv =>
    (heval he henv).map fun _ _ _ _ hv => .returned (Varied.plain_iff.mp hv)
  | _, _, _, _, .cond htest hyes hno, _, _, _, henv => by
    refine (heval htest henv).bind fun M v v' hLM hv => ?_
    rw [(Varied.plain_iff.mp hv).isTrue]
    split
    · exact stmtsVary.linked heval hyes (henv.mono hLM)
    · exact stmtsVary.linked heval hno (henv.mono hLM)
  | _, _, _, _, .each hσ hitems hx hbody, _, _, _, henv => by
    refine (heval hitems henv).bind fun M v v' hLM hv => ?_
    refine (itemsVaried hσ hv).bind fun N vs vs' hMN hvs => ?_
    exact execLoop_linked hx hbody (stmtsVary.linked heval hbody) hvs ((henv.mono hLM).mono hMN)

/-- Blocks that vary end alike. -/
theorem stmtsVary.linked (heval : EvaluationLinked W eval eval') : ∀ {Γ : Scope} {ρ : Role}
    {ss ss' : List Stmt}, stmtsVary W.loose Γ ρ ss ss' → ∀ {L : Link} {env env' : Env},
      EnvVaried W.loose L Γ env env' → Action.LinkedBy W L (Exit.Varied W.loose Γ ρ)
        (execBlock eval ss env) (execBlock eval' ss' env')
  | _, _, _, _, .nil _ _, _, _, _, henv => .pure (.through henv)
  | _, _, _, _, .cons hs hss, _, _, _, henv =>
    (Stmt.Varies.linked heval hs henv).thenExit (fun _ _ => .cons (.block hss) .nil)
      fun _ henv => stmtsVary.linked heval hss henv

end

/-- What yields have left ends alike. -/
theorem execFrames_linked (heval : EvaluationLinked W eval eval') {frames frames' : List Frame}
    (hframes : List.Forall₂ (Frame.Varies W.loose L Γ ρ) frames frames')
    (henv : EnvVaried W.loose L Γ env env') :
    Action.LinkedBy W L (Exit.Varied W.loose Γ ρ) (execFrames eval frames env)
      (execFrames eval' frames' env') := by
  induction frames generalizing L frames' env env' with
  | nil =>
    cases hframes
    exact .pure (.through henv)
  | cons f frames ih =>
    cases hframes with
    | cons hf hframes =>
      have hrest (M : Link) (hLM : L ≤ M) := hframes.imp fun _ _ hf => Frame.Varies.mono hf hLM
      cases hf with
      | block h =>
        exact (h.linked heval henv).thenExit hrest fun hLM henv => ih (hrest _ hLM) henv
      | loop hx hitems h =>
        exact (execLoop_linked hx h (h.linked heval) hitems henv).thenExit hrest
          fun hLM henv => ih (hrest _ hLM) henv

end

end EffectHandlers
