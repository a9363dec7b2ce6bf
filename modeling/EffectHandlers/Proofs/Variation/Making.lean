/-
EffectHandlers/Proofs/Variation/Making.lean

Expressions that only make their value.

A literal and a variable come to their values, and nothing else happens.  An
expression that surely has a value makes it: whatever the world is and
whatever functions do, nothing happens but that identities are drawn.  So it
makes no difference when, or how often, such an expression is evaluated.

Main statements: `Scope.Atom.eval` and `Surely.eval`.
-/
import EffectHandlers.Proofs.Variation.Chains

namespace EffectHandlers

variable {L : Link} {s : Settings} {call : Call} {env env' : Env}

/-! ### Literals and variables -/

section

variable {loose : Bool} {Γ : Scope} {ρ : Role} {e e' : Expr}

/-- A literal or a variable that has a value comes to it. -/
theorem Scope.Atom.eval (h : Γ.Atom ρ e) (henv : EnvVaried loose L Γ env env') : ∃ v v',
    (∀ s call, e.eval s call env = pure v) ∧ (∀ s call, e.eval s call env' = pure v') ∧
      Varied loose L ρ v v' := by
  induction h with
  | literal l =>
    refine ⟨l.value, l.value, fun _ _ => rfl, fun _ _ => rfl, .known ?_⟩
    cases l <;> exact .of_plain ⟨trivial, rfl⟩
  | @var x hbound hx =>
    obtain ⟨v, hv⟩ := henv.bound x hbound
    obtain ⟨hnone, -⟩ | ⟨v, v', hv, hv', hvaried⟩ := henv.lookup x hx
    · rw [hv] at hnone
      cases hnone
    · refine ⟨v, v', fun s call => ?_, fun s call => ?_, hvaried⟩
      · rw [Expr.eval, evalVar, hv]
      · rw [Expr.eval, evalVar, hv']
  | weaken _ hρ ih =>
    obtain ⟨v, v', hv, hv', hvaried⟩ := ih
    exact ⟨v, v', hv, hv', hvaried.weaken hρ⟩

/-- Other variables do not matter. -/
theorem Scope.Atom.eval_set (h : Γ.Atom ρ e) {x : String} (hx : x ∉ e.names) (u : Value) :
    e.eval s call (Env.set env x u) = e.eval s call env := by
  induction h with
  | literal l => rfl
  | @var y _ _ =>
    have hne : x ≠ y := fun hxy => hx (hxy ▸ List.mem_cons_self)
    rw [Expr.eval, Expr.eval, evalVar, evalVar, Env.lookup_set, if_neg hne]
  | weaken _ _ ih => exact ih hx

/-! ### Expressions that only make their value -/

/-- An expression makes a value, and draws identities up to a number, whatever functions do. -/
structure Expr.Makes (e : Expr) (env : Env) (w : World) (v : Value) (n : Nat) : Prop where
  le : w.fresh ≤ n
  eq (s : Settings) (call : Call) : e.eval s call env w = .value v { w with fresh := n }

/-- The same for a list of expressions. -/
structure allMake (es : List Expr) (env : Env) (w : World) (vs : List Value) (n : Nat) : Prop where
  le : w.fresh ≤ n
  eq (s : Settings) (call : Call) : evalAll s call es env w = .value vs { w with fresh := n }

theorem allMake.nil (env : Env) (w : World) : allMake [] env w [] w.fresh :=
  ⟨Nat.le_refl _, fun _ _ => rfl⟩

theorem allMake.cons {es : List Expr} {w : World} {v : Value} {vs : List Value} {n k : Nat}
    (h : e.Makes env w v n) (hs : allMake es env { w with fresh := n } vs k) :
    allMake (e :: es) env w (v :: vs) k where
  le := Nat.le_trans h.le hs.le
  eq s call := by
    rw [evalAll, Action.bind_of_value (h.eq s call), Action.bind_of_value (hs.eq s call)]
    rfl

/-- An operation that only makes a value of what its arguments come to. -/
theorem allMake.op {args : List Expr} {w : World} {vs : List Value} {n : Nat} {v : Value} {o : Op}
    (h : allMake args env w vs n) (ho : ∀ s call, o.apply s call vs = pure v) :
    (Expr.op o args).Makes env w v n where
  le := h.le
  eq s call := by
    rw [Expr.eval, Action.bind_of_value (h.eq s call), ho]
    rfl

theorem Expr.Makes.one {w : World} {v : Value} {n : Nat} (h : e.Makes env w v n) :
    allMake [e] env w [v] n := .cons h (.nil _ _)

theorem Expr.Makes.cond {test yes no : Expr} {w : World} {x v : Value} {n k : Nat}
    (htest : test.Makes env w x n)
    (h : (if x.isTrue then yes else no).Makes env { w with fresh := n } v k) :
    (Expr.cond test yes no).Makes env w v k where
  le := Nat.le_trans htest.le h.le
  eq s call := by
    have hbranch := h.eq s call
    rw [Expr.eval, Action.bind_of_value (htest.eq s call)]
    split <;> rename_i hx
    · rwa [if_pos hx] at hbranch
    · rwa [if_neg hx] at hbranch

theorem Expr.Makes.letIn {x : String} {body : Expr} {w : World} {u v : Value} {n k : Nat}
    (he : e.Makes env w u n) (h : body.Makes (Env.set env x u) { w with fresh := n } v k) :
    (Expr.letIn x e body).Makes env w v k where
  le := Nat.le_trans he.le h.le
  eq s call := by
    rw [Expr.eval, Action.bind_of_value (he.eq s call)]
    exact h.eq s call

/-- Two expressions make values that are related, in any two worlds. -/
def Expr.MakesWith (P : Value → Value → Prop) (e e' : Expr) (env env' : Env) : Prop :=
  ∀ w w' : World, ∃ v v' n n', e.Makes env w v n ∧ e'.Makes env' w' v' n' ∧ P v v'

/-- An operation that only makes a value of what its argument comes to. -/
theorem Expr.MakesWith.opOne {P R : Value → Value → Prop} {o : Op}
    (h : Expr.MakesWith P e e' env env')
    (ho : ∀ x x', P x x' → ∃ v v', (∀ s call, o.apply s call [x] = pure v) ∧
      (∀ s call, o.apply s call [x'] = pure v') ∧ R v v') :
    Expr.MakesWith R (.op o [e]) (.op o [e']) env env' := by
  intro w w'
  obtain ⟨x, x', n, n', hx, hx', hxx'⟩ := h w w'
  obtain ⟨v, v', hv, hv', hvv'⟩ := ho x x' hxx'
  exact ⟨v, v', n, n', hx.one.op hv, hx'.one.op hv', hvv'⟩

/-- The same for two arguments. -/
theorem Expr.MakesWith.opTwo {P Q R : Value → Value → Prop} {d d' : Expr} {o : Op}
    (he : Expr.MakesWith P e e' env env') (hd : Expr.MakesWith Q d d' env env')
    (ho : ∀ x x' y y', P x x' → Q y y' → ∃ v v', (∀ s call, o.apply s call [x, y] = pure v) ∧
      (∀ s call, o.apply s call [x', y'] = pure v') ∧ R v v') :
    Expr.MakesWith R (.op o [e, d]) (.op o [e', d']) env env' := by
  intro w w'
  obtain ⟨x, x', n, n', hx, hx', hxx'⟩ := he w w'
  obtain ⟨y, y', k, k', hy, hy', hyy'⟩ := hd { w with fresh := n } { w' with fresh := n' }
  obtain ⟨v, v', hv, hv', hvv'⟩ := ho x x' y y' hxx' hyy'
  exact ⟨v, v', k, k', (allMake.cons hx hy.one).op hv, (allMake.cons hx' hy'.one).op hv', hvv'⟩

theorem Varied.known_cases {v v' x x' : Value} (h : Varied loose L (.known v v') x x') :
    x = v ∧ x' = v' ∧ Counterpart L v v' := by
  cases h with
  | plain _ hρ => cases hρ
  | known h => exact ⟨rfl, rfl, h⟩

/-- A request that is only made. -/
theorem ChainOp.asks_apply {o : ChainOp} {vs vs' : List Value} (ho : o.asks vs.length = true)
    (hvs : Counterpart L vs vs') : ∃ r r', Counterpart L r r' ∧
      (∀ call, o.apply call vs = performValue r) ∧ ∀ call, o.apply call vs' = performValue r' := by
  match vs with
  | [] =>
    obtain rfl := hvs.nil_left
    cases o
    case readLine => exact ⟨_, _, .readLine, fun _ => rfl, fun _ => rfl⟩
    case tick => exact ⟨_, _, .tick (.int 1), fun _ => rfl, fun _ => rfl⟩
    all_goals cases ho
  | [a] =>
    obtain ⟨a', vs', rfl, ha, hvs⟩ := hvs.cons_left
    obtain rfl := hvs.nil_left
    cases o
    case write => exact ⟨_, _, .log ha, fun _ => rfl, fun _ => rfl⟩
    case writeLine => exact ⟨_, _, .writeLine ha, fun _ => rfl, fun _ => rfl⟩
    case get => exact ⟨_, _, .get ha, fun _ => rfl, fun _ => rfl⟩
    case tick => exact ⟨_, _, .tick ha, fun _ => rfl, fun _ => rfl⟩
    all_goals cases ho
  | [a, b] =>
    obtain ⟨a', vs', rfl, ha, hvs⟩ := hvs.cons_left
    obtain ⟨b', vs', rfl, hb, hvs⟩ := hvs.cons_left
    obtain rfl := hvs.nil_left
    cases o
    case put => exact ⟨_, _, .put ha hb, fun _ => rfl, fun _ => rfl⟩
    case modify => exact ⟨_, _, .modify ha hb, fun _ => rfl, fun _ => rfl⟩
    all_goals cases ho
  | _ :: _ :: _ :: _ => cases o <;> cases ho

mutual

/-- **An expression that surely has a value only makes it.** -/
theorem Surely.eval : ∀ {Γ : Scope} {ρ : Role} {e e' : Expr}, Surely loose Γ ρ e e' →
    ∀ {env env' : Env}, EnvVaried loose L Γ env env' →
      Expr.MakesWith (Varied loose L ρ) e e' env env'
  | _, _, _, _, .atom h, _, _, henv => by
    intro w w'
    obtain ⟨v, v', hv, hv', hvaried⟩ := h.eval henv
    refine ⟨v, v', w.fresh, w'.fresh, ⟨Nat.le_refl _, fun s call => ?_⟩,
      ⟨Nat.le_refl _, fun s call => ?_⟩, hvaried⟩
    · rw [hv]
      rfl
    · rw [hv']
      rfl
  | _, _, _, _, .weaken h hρ, _, _, henv => by
    intro w w'
    obtain ⟨v, v', n, n', hv, hv', hvaried⟩ := Surely.eval h henv w w'
    exact ⟨v, v', n, n', hv, hv', hvaried.weaken hρ⟩
  | _, _, _, _, .arithmetic he hd ho, _, _, henv => by
    refine .opTwo (Surely.eval he henv) (Surely.eval hd henv) fun x x' y y' hx hy => ?_
    obtain ⟨rfl, rfl, -⟩ := hx.known_cases
    obtain ⟨rfl, rfl, -⟩ := hy.known_cases
    exact ⟨_, _, fun _ call => ho call, fun _ call => ho call, .known (.int _)⟩
  | _, _, _, _, .lambda takes h, env, env', henv => fun w w' =>
    ⟨_, _, w.fresh + 1, w'.fresh + 1, ⟨Nat.le_succ _, fun _ _ => rfl⟩,
      ⟨Nat.le_succ _, fun _ _ => rfl⟩, .closure h henv.toBinds henv.values⟩
  | _, ρ, _, _, @Surely.cond _ _ _ _ _ yes yes' no no' htest hyes hno, env, env', henv => by
    intro w w'
    obtain ⟨x, x', n, n', hx, hx', hvaried⟩ := Surely.eval htest henv w w'
    have hbranch : Expr.MakesWith (Varied loose L ρ) (if x.isTrue then yes else no)
        (if x'.isTrue then yes' else no') env env' := by
      rw [(Varied.plain_iff.mp hvaried).isTrue]
      split
      · exact Surely.eval hyes henv
      · exact Surely.eval hno henv
    obtain ⟨v, v', k, k', hv, hv', hvaried⟩ := hbranch { w with fresh := n } { w' with fresh := n' }
    exact ⟨v, v', k, k', hx.cond hv, hx'.cond hv', hvaried⟩
  | _, _, _, _, .letIn he hbody, _, _, henv => by
    intro w w'
    obtain ⟨x, x', n, n', hx, hx', hvaried⟩ := Surely.eval he henv w w'
    obtain ⟨v, v', k, k', hv, hv', hvaried⟩ := Surely.eval hbody (henv.set hvaried)
      { w with fresh := n } { w' with fresh := n' }
    exact ⟨v, v', k, k', hx.letIn hv, hx'.letIn hv', hvaried⟩
  | _, _, _, _, .perform ho h, _, _, henv => by
    intro w w'
    obtain ⟨vs, vs', n, n', hvs, hvs', hlength, hcounterpart⟩ := surelyAll.eval h henv w w'
    obtain ⟨r, r', hr, happly, happly'⟩ := ChainOp.asks_apply (hlength ▸ ho) hcounterpart
    exact ⟨_, _, n, n', hvs.op fun s call => happly call, hvs'.op fun s call => happly' call,
      .perform hr⟩
  | _, _, _, _, .modify hk hf, _, _, henv =>
    .opTwo (Surely.eval hk henv) (Surely.eval hf henv) fun _ _ _ _ hk hf =>
      ⟨_, _, fun _ _ => rfl, fun _ _ => rfl, .perform_modify (Varied.plain_iff.mp hk) hf⟩
  | _, _, _, _, .lift hv, _, _, henv =>
    .opOne (Surely.eval hv henv) fun _ _ hv =>
      ⟨_, _, fun _ _ => rfl, fun _ _ => rfl, .same (Varied.plain_iff.mp hv).finished⟩
  | _, _, _, _, .bind hc hf, _, _, henv => by
    refine .opTwo (Surely.eval hc henv) (Surely.eval hf henv) fun x x' y y' hx hy => ?_
    obtain ⟨e, e', r, rfl, rfl⟩ := hx.waiting_cases
    obtain ⟨f, f', rfl, rfl⟩ := hy.function_cases
    exact ⟨_, _, fun _ _ => rfl, fun _ _ => rfl, .bindCall hx (.callable hy)⟩
  | _, _, _, _, .fmap hc hf, _, _, henv => by
    refine .opTwo (Surely.eval hc henv) (Surely.eval hf henv) fun x x' y y' hx hy => ?_
    obtain ⟨e, e', r, rfl, rfl⟩ := hx.waiting_cases
    obtain ⟨f, f', rfl, rfl⟩ := hy.function_cases
    exact ⟨_, _, fun _ _ => rfl, fun _ _ => rfl, .bindMap hx (.callable hy)⟩
  | _, _, _, _, .andThen hc hd, _, _, henv => by
    refine .opTwo (Surely.eval hc henv) (Surely.eval hd henv) fun x x' y y' hx hy => ?_
    obtain ⟨e, e', r, rfl, rfl⟩ := hx.waiting_cases
    obtain ⟨c, c', rfl, rfl⟩ := hy.made_chains
    exact ⟨_, _, fun _ _ => rfl, fun _ _ => rfl, .bindAlways hx hy⟩

/-- Expressions that surely have values only make them. -/
theorem surelyAll.eval : ∀ {Γ : Scope} {es es' : List Expr}, surelyAll loose Γ es es' →
    ∀ {env env' : Env}, EnvVaried loose L Γ env env' → ∀ w w' : World, ∃ vs vs' n n',
      allMake es env w vs n ∧ allMake es' env' w' vs' n' ∧ es.length = vs.length ∧
        Counterpart L vs vs'
  | _, _, _, .nil _, env, env', _, w, w' =>
    ⟨[], [], _, _, .nil env w, .nil env' w', rfl, .nil⟩
  | _, _, _, .cons he hes, env, env', henv, w, w' => by
    obtain ⟨v, v', n, n', hv, hv', hvaried⟩ := Surely.eval he henv w w'
    obtain ⟨vs, vs', k, k', hvs, hvs', hlength, hcounterpart⟩ := surelyAll.eval hes henv
      { w with fresh := n } { w' with fresh := n' }
    exact ⟨v :: vs, v' :: vs', k, k', .cons hv hvs, .cons hv' hvs',
      congrArg Nat.succ hlength, .cons (Varied.plain_iff.mp hvaried) hcounterpart⟩

end

end

end EffectHandlers
