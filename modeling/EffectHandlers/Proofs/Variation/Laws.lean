/-
EffectHandlers/Proofs/Variation/Laws.lean

The texts of the laws, and what comes of expressions that vary.

The sides of a law are made of atoms, so each of them comes to its chain at
once.  The functions in them are made there, with the bindings that exist
there, and what they come to when they are called is said by an equation.

Main statement: two expressions that vary have values that vary in their
role (`Expr.Varies.linked`).
-/
import EffectHandlers.Proofs.Variation.Handling
import EffectHandlers.Proofs.Variation.Making

namespace EffectHandlers

open Action.LinkedBy hiding pure bind fail map

/-! ### The texts of the laws -/

section

variable {s : Settings} {call : Call} {env : Env} {k v u f g c : Expr} {kv vv uv fv : Value}

theorem eval_op_one (o : Op) (a : Expr) : (Expr.op o [a]).eval s call env
    = a.eval s call env >>= fun x => o.apply s call [x] := by
  simp only [Expr.eval, evalAll, bind_assoc, pure_bind]

theorem eval_op_two (o : Op) (a b : Expr) : (Expr.op o [a, b]).eval s call env
    = a.eval s call env >>= fun x => b.eval s call env >>= fun y => o.apply s call [x, y] := by
  simp only [Expr.eval, evalAll, bind_assoc, pure_bind]

theorem eval_getAt (hk : k.eval s call env = pure kv) :
    (Expr.getAt k).eval s call env = pure (.chain (waiting (.get kv) [])) := by
  rw [Expr.getAt, eval_op_one, hk, pure_bind, waiting_nil]
  rfl

theorem eval_putAt (hk : k.eval s call env = pure kv) (hv : v.eval s call env = pure vv) :
    (Expr.putAt k v).eval s call env = pure (.chain (waiting (.put kv vv) [])) := by
  rw [Expr.putAt, eval_op_two, hk, pure_bind, hv, pure_bind, waiting_nil]
  rfl

theorem eval_modifyAt (hk : k.eval s call env = pure kv) (hf : f.eval s call env = pure fv) :
    (Expr.modifyAt k f).eval s call env = pure (.chain (waiting (.modify kv fv) [])) := by
  rw [Expr.modifyAt, eval_op_two, hk, pure_bind, hf, pure_bind, waiting_nil]
  rfl

/-- What a chain that waits is continued with. -/
theorem eval_bindTo {q : Request} (hc : c.eval s call env = pure (.chain (waiting q []))) :
    (Expr.bindTo c f).eval s call env = f.eval s call env >>= fun x =>
      Value.asFunction "binder" x >>= fun g => pure (.chain (waiting q [.call g])) := by
  rw [Expr.bindTo, eval_op_two, hc, pure_bind, waiting_nil]
  rfl

/-- What comes after a chain that waits. -/
theorem eval_andThen {d : Expr} {q : Request}
    (hc : c.eval s call env = pure (.chain (waiting q []))) :
    (Expr.andThen c d).eval s call env = d.eval s call env >>= fun x =>
      Chain.ofValue "then" x >>= fun next => pure (.chain (waiting q [.always next])) := by
  rw [Expr.andThen, eval_op_two, hc, pure_bind, waiting_nil]
  rfl

theorem eval_callOn (hf : f.eval s call env = pure fv) (hv : v.eval s call env = pure vv) :
    (Expr.callOn f v).eval s call env = Call.value call fv [vv] := by
  rw [Expr.callOn, eval_op_two, hf, pure_bind, hv, pure_bind]
  rfl

theorem eval_lift (hv : v.eval s call env = pure vv) :
    (Expr.lift v).eval s call env = pure (.chain (.finished vv)) := by
  rw [Expr.lift, eval_op_one, hv, pure_bind]
  rfl

theorem eval_var_set (x : String) (w : Value) :
    (Expr.var x).eval s call (Env.set env x w) = pure w := by
  rw [Expr.eval, evalVar, Env.lookup_set, if_pos rfl]

/-- A function of one parameter. -/
theorem applyWith_closure (id : Nat) (x : String) (body : Expr) (w : Value) :
    (Callable.closure id [x] body env).applyWith s call [w]
      = body.eval s call (Env.set env x w) := rfl

end

/-! ### The functions of the laws -/

section

variable {loose : Bool} {L : Link} {Γ : Scope} {ρ σ τ : Role} {k f g v : Expr} {env env' : Env}

/-- The value of an atom, in the environments in which other variables have values. -/
theorem Scope.Atom.eval_of (h : Γ.Atom ρ k) {x : String} (hx : x ∉ k.names) {kv : Value}
    (hk : ∀ s call, k.eval s call env = pure kv) (s : Settings) (call : Call) (w : Value) :
    k.eval s call (Env.set env x w) = pure kv := by rw [h.eval_set hx, hk]

/-- The function that stores what `f` gives, and gives it. -/
theorem applyWith_modifyInSteps (hk : Γ.Atom ρ k) (hf : Γ.Atom σ f) {x n : String}
    (hx : x ∉ k.names ∧ x ∉ f.names) (hn : n ∉ k.names) {kv fv : Value}
    (hkv : ∀ s call, k.eval s call env = pure kv) (hfv : ∀ s call, f.eval s call env = pure fv)
    (id : Nat) (s : Settings) (call : Call) (w : Value) :
    (Callable.closure id [x] (.letIn n (.callOn f (.var x))
        (.andThen (.putAt k (.var n)) (.lift (.var n)))) env).applyWith s call [w]
      = Call.value call fv [w] >>= fun m =>
        pure (.chain (waiting (.put kv m) [.always (.finished m)])) := by
  rw [applyWith_closure, Expr.eval, eval_callOn (hf.eval_of hx.2 hfv s call w) (eval_var_set x w)]
  refine congrArg (Call.value call fv [w] >>= ·) (funext fun m => ?_)
  have hkm : k.eval s call (Env.set (Env.set env x w) n m) = pure kv := by
    rw [hk.eval_set hn, hk.eval_of hx.1 hkv s call w]
  rw [eval_andThen (eval_putAt hkm (eval_var_set n m)), eval_lift (eval_var_set n m)]
  rfl

/-- The function that calls `g` on `v`, whatever it is given. -/
theorem applyWith_callOn (hg : Γ.Atom ρ g) (hv : Γ.Atom σ v) {x : String}
    (hx : x ∉ v.names ∧ x ∉ g.names) {gv vv : Value}
    (hgv : ∀ s call, g.eval s call env = pure gv) (hvv : ∀ s call, v.eval s call env = pure vv)
    (id : Nat) (s : Settings) (call : Call) (w : Value) :
    (Callable.closure id [x] (.callOn g v) env).applyWith s call [w] = Call.value call gv [vv] := by
  rw [applyWith_closure,
    eval_callOn (hg.eval_of hx.2 hgv s call w) (hv.eval_of hx.1 hvv s call w)]

/-- The function that applies `f` and then `g`. -/
theorem applyWith_inTurn (hf : Γ.Atom ρ f) (hg : Γ.Atom σ g) {x : String}
    (hx : x ∉ f.names ∧ x ∉ g.names) {fv gv : Value}
    (hfv : ∀ s call, f.eval s call env = pure fv) (hgv : ∀ s call, g.eval s call env = pure gv)
    (id : Nat) (s : Settings) (call : Call) (w : Value) :
    (Callable.closure id [x] (.callOn g (.callOn f (.var x))) env).applyWith s call [w]
      = Call.value call fv [w] >>= fun u => Call.value call gv [u] := by
  rw [applyWith_closure, Expr.callOn, eval_op_two, hg.eval_of hx.2 hgv s call w, pure_bind,
    eval_callOn (hf.eval_of hx.1 hfv s call w) (eval_var_set x w)]
  rfl

/-- A function that surely makes a chain of an argument, in one world and in many. -/
theorem Varied.builder_cases {v v' h h' : Value} (hg : Varied loose L (.builder [ρ]) h h')
    (hv : Varied loose L ρ v v') (w' : World) : ∃ g g' c' n', h = .function g ∧ h' = .function g' ∧
      w'.fresh ≤ n' ∧
      (∀ s call, g'.applyWith s call [v'] w' = .value (.chain c') { w' with fresh := n' }) ∧
      ∃ make : World → Chain, (∀ s call w, ∃ n, w.fresh ≤ n ∧
        g.applyWith s call [v] w = .value (.chain (make w)) { w with fresh := n }) ∧
        ∀ w, Varied loose L .made (.chain (make w)) (.chain c') := by
  cases hg with
  | plain _ h => cases h
  | @builder Δ _ id id' params body body' env env' hparams hbody hΔ henv =>
    obtain ⟨x, rfl⟩ : ∃ x, params = [x] := List.length_eq_one_iff.mp hparams
    have hset : EnvVaried loose L (Δ.set x ρ) (Env.set env x v) (Env.set env' x v') :=
      EnvVaried.set ⟨hΔ, henv⟩ hv
    have hmake (w : World) : ∃ c c' n n', body.Makes (Env.set env x v) w (.chain c) n ∧
        body'.Makes (Env.set env' x v') w' (.chain c') n' ∧
        Varied loose L .made (.chain c) (.chain c') := by
      obtain ⟨u, u', n, n', hu, hu', hvaried⟩ := Surely.eval hbody hset w w'
      obtain ⟨c, c', rfl, rfl⟩ := hvaried.made_chains
      exact ⟨c, c', n, n', hu, hu', hvaried⟩
    choose make c' n n' hleft hright hvaried using hmake
    -- What is made in the second world does not depend on the first one.
    have hsame (w : World) : c' w = c' w' := by
      have heq := ((hright w).eq ⟨false, 0⟩ fun _ _ => Action.exhaust).symm.trans
        ((hright w').eq ⟨false, 0⟩ fun _ _ => Action.exhaust)
      exact Value.chain.inj (Outcome.value.inj heq).1
    refine ⟨_, _, c' w', n' w', rfl, rfl, (hright w').le, fun s call => (hright w').eq s call,
      make, fun s call w => ⟨n w, (hleft w).le, (hleft w).eq s call⟩, fun w => hsame w ▸ hvaried w⟩

end

/-! ### Expressions that vary -/

section

variable {W : Comparing} {L : Link} {s s' : Settings} {call call' : Call} {env env' : Env}
  {Γ : Scope} {ρ σ : Role}

/-- What is known to be plain is the same on both sides. -/
theorem EnvVaried.mentioned {loose : Bool} (henv : EnvVaried loose L Γ env env')
    {names : List String} (h : ∀ x ∈ names, (Γ x).role.IsPlain) :
    Env.Mentioned L names env env' := by
  intro x hx
  have hplain := h x hx
  obtain ⟨hv, hv'⟩ | ⟨v, v', hv, hv', hvaried⟩ := henv.lookup x fun hunknown => by
    rw [hunknown] at hplain
    cases hplain
  · rw [hv, hv']
    exact .none
  · rw [hv, hv']
    exact .some (hvaried.of_isPlain hplain)

/-- All but the last of some expressions are evaluated for what they do. -/
theorem evalLast_concat (es : List Expr) (e : Expr) (v : Value) :
    evalLast s call v (es ++ [e]) env
      = evalAll s call es env >>= fun _ => e.eval s call env := by
  induction es generalizing v with
  | nil => simp only [List.nil_append, evalLast, evalAll, pure_bind, bind_pure]
  | cons d es ih => simp only [List.cons_append, evalLast, evalAll, bind_assoc, pure_bind, ih]

/-- An operation on two values. -/
theorem Action.LinkedBy.opTwo {R : Link → Value → Value → Prop} {o : Op} {a a' b b' : Expr}
    (henv : EnvVaried W.loose L Γ env env')
    (ha : ∀ {M : Link}, EnvVaried W.loose M Γ env env' → Action.LinkedBy W M
      (fun M => Varied W.loose M ρ) (a.eval s call env) (a'.eval s' call' env'))
    (hb : ∀ {M : Link}, EnvVaried W.loose M Γ env env' → Action.LinkedBy W M
      (fun M => Varied W.loose M σ) (b.eval s call env) (b'.eval s' call' env'))
    (ho : ∀ {M : Link} {x x' y y' : Value}, Varied W.loose M ρ x x' → Varied W.loose M σ y y' →
      Action.LinkedBy W M R (o.apply s call [x, y]) (o.apply s' call' [x', y'])) :
    Action.LinkedBy W L R ((Expr.op o [a, b]).eval s call env)
      ((Expr.op o [a', b']).eval s' call' env') := by
  rw [eval_op_two, eval_op_two]
  refine (ha henv).bind fun M x x' hLM hx => ?_
  refine (hb (henv.mono hLM)).bind fun N y y' hMN hy => ?_
  exact ho (hx.mono hMN) hy

theorem modify_get_put_linked {k f : Expr} {v n : String} (henv : EnvVaried W.loose L Γ env env')
    (hk : Γ.Atom .plain k) (hf : Γ.Atom .mapping f) (hv : v ∉ k.names ∧ v ∉ f.names)
    (hn : n ∉ k.names) :
    Action.LinkedBy W L (fun M => Varied W.loose M .chain) ((Expr.modifyAt k f).eval s call env)
      ((Expr.modifyInSteps k f v n).eval s' call' env') := by
  obtain ⟨kv, kv', hkv, hkv', hkvaried⟩ := hk.eval henv
  obtain ⟨fv, fv', hfv, hfv', hfvaried⟩ := hf.eval henv
  rw [eval_modifyAt (hkv s call) (hfv s call), Expr.modifyInSteps,
    eval_bindTo (eval_getAt (hkv' s' call'))]
  refine .of_drawn fun w w' => ⟨_, _, w.fresh, w'.fresh + 1, Nat.le_refl _, Nat.le_succ _, rfl,
    rfl, .chain (.made ?_)⟩
  exact .modify_get_put (Varied.plain_iff.mp hkvaried) hfvaried
    (applyWith_modifyInSteps hk hf hv hn hkv' hfv' _)

theorem put_put_linked {k v u c c' : Expr} (henv : EnvVaried W.loose L Γ env env')
    (hk : Γ.Atom .plain k) (hv : Γ.Atom .plain v) (hu : Γ.Atom .plain u)
    (hc : Action.LinkedBy W L (fun M => Varied W.loose M .chain) (c.eval s call env)
      (c'.eval s' call' env')) :
    Action.LinkedBy W L (fun M => Varied W.loose M .chain)
      ((Expr.andThen (.putAt k v) (.andThen (.putAt k u) c)).eval s call env)
      ((Expr.andThen (.putAt k u) c').eval s' call' env') := by
  obtain ⟨kv, kv', hkv, hkv', hkvaried⟩ := hk.eval henv
  obtain ⟨vv, vv', hvv, -, -⟩ := hv.eval henv
  obtain ⟨uv, uv', huv, huv', huvaried⟩ := hu.eval henv
  rw [eval_andThen (eval_putAt (hkv s call) (hvv s call)),
    eval_andThen (eval_putAt (hkv s call) (huv s call)),
    eval_andThen (eval_putAt (hkv' s' call') (huv' s' call')), bind_assoc]
  refine hc.bind fun M x x' hLM hx => ?_
  rw [bind_assoc]
  refine (ofValueVaried "then" hx).bind fun N d d' hMN hd => ?_
  rw [pure_bind]
  exact .pure (.chain (.made (.put_put ((Varied.plain_iff.mp hkvaried).mono (Link.le_trans hLM hMN))
    ((Varied.plain_iff.mp huvaried).mono (Link.le_trans hLM hMN)) hd)))

/-- What the side of the third law that reads comes to. -/
theorem eval_put_get {k v g : Expr} {kv vv : Value} {gf : Callable}
    (hk : k.eval s call env = pure kv) (hv : v.eval s call env = pure vv)
    (hg : g.eval s call env = pure (.function gf)) :
    (Expr.andThen (.putAt k v) (.bindTo (.getAt k) g)).eval s call env
      = pure (.chain (waiting (.put kv vv) [.always (waiting (.get kv) [.call gf])])) := by
  rw [eval_andThen (eval_putAt hk hv), eval_bindTo (eval_getAt hk), hg]
  rfl

theorem put_get_linked {k v g : Expr} {x : String} (henv : EnvVaried W.loose L Γ env env')
    (hk : Γ.Atom .plain k) (hv : Γ.Atom .plain v) (hg : Γ.Atom (.function [.plain] .chain) g)
    (hx : x ∉ v.names ∧ x ∉ g.names) :
    Action.LinkedBy W L (fun M => Varied W.loose M .chain)
      ((Expr.andThen (.putAt k v) (.bindTo (.getAt k) g)).eval s call env)
      ((Expr.bindTo (.putAt k v) (.lambda [x] (.callOn g v))).eval s' call' env') := by
  obtain ⟨kv, kv', hkv, hkv', hkvaried⟩ := hk.eval henv
  obtain ⟨vv, vv', hvv, hvv', hvvaried⟩ := hv.eval henv
  obtain ⟨gv, gv', hgv, hgv', hgvaried⟩ := hg.eval henv
  obtain ⟨gf, gf', rfl, rfl⟩ := hgvaried.function_cases
  rw [eval_put_get (hkv s call) (hvv s call) (hgv s call),
    eval_bindTo (eval_putAt (hkv' s' call') (hvv' s' call'))]
  refine .of_drawn fun w w' => ⟨_, _, w.fresh, w'.fresh + 1, Nat.le_refl _, Nat.le_succ _, rfl,
    rfl, .chain (.made ?_)⟩
  exact .put_get (Varied.plain_iff.mp hkvaried) (Varied.plain_iff.mp hvvaried)
    (.callable hgvaried) (applyWith_callOn hg hv hx hgv' hvv' _)

theorem put_get_built_linked (hcall : CallsUnfolded W call call') {k v g : Expr}
    (henv : EnvVaried W.loose L Γ env env') (hk : Γ.Atom .plain k) (hv : Γ.Atom ρ v)
    (hρ : ρ.IsPlain) (hg : Γ.Atom (.builder [ρ]) g) :
    Action.LinkedBy W L (fun M => Varied W.loose M .chain)
      ((Expr.andThen (.putAt k v) (.bindTo (.getAt k) g)).eval s call env)
      ((Expr.andThen (.putAt k v) (.callOn g v)).eval s' call' env') := by
  obtain ⟨kv, kv', hkv, hkv', hkvaried⟩ := hk.eval henv
  obtain ⟨vv, vv', hvv, hvv', hvvaried⟩ := hv.eval henv
  obtain ⟨gv, gv', hgv, hgv', hgvaried⟩ := hg.eval henv
  intro w w' hw
  obtain ⟨gf, gf', c', n', rfl, rfl, hn', hright, make, hmake, hvaried⟩ :=
    hgvaried.builder_cases hvvaried w'
  rw [eval_put_get (hkv s call) (hvv s call) (hgv s call),
    eval_andThen (eval_putAt (hkv' s' call') (hvv' s' call')),
    eval_callOn (hgv' s' call') (hvv' s' call')]
  show Outcome.LinkedBy W L _ (.value _ w) ((call' gf' [vv'] >>= _) w')
  obtain ⟨hbounded, hexhaust⟩ | ⟨t, next, hcalled, -⟩ := hcall.right gf' [vv']
  · rw [hexhaust]
    exact .right hbounded _
  · rw [hcalled, Action.bind_of_value (hright t next)]
    refine .value (Link.le_refl L) (hw.drawn (Nat.le_refl _) hn') (.chain (.made ?_))
    exact .put_get_built (Varied.plain_iff.mp hkvaried) (hvvaried.of_isPlain hρ) hmake hvaried

theorem modify_modify_linked {k f g : Expr} {x : String} (henv : EnvVaried W.loose L Γ env env')
    (hk : Γ.Atom .plain k) (hf : Γ.Atom .mapping f) (hg : Γ.Atom .mapping g)
    (hx : x ∉ f.names ∧ x ∉ g.names) :
    Action.LinkedBy W L (fun M => Varied W.loose M .chain)
      ((Expr.andThen (.modifyAt k f) (.modifyAt k g)).eval s call env)
      ((Expr.modifyAt k (.inTurn f g x)).eval s' call' env') := by
  obtain ⟨kv, kv', hkv, hkv', hkvaried⟩ := hk.eval henv
  obtain ⟨fv, fv', hfv, hfv', hfvaried⟩ := hf.eval henv
  obtain ⟨gv, gv', hgv, hgv', hgvaried⟩ := hg.eval henv
  rw [eval_andThen (eval_modifyAt (hkv s call) (hfv s call)),
    eval_modifyAt (hkv s call) (hgv s call), Expr.modifyAt, eval_op_two, hkv' s' call', pure_bind]
  refine .of_drawn fun w w' => ⟨_, _, w.fresh, w'.fresh + 1, Nat.le_refl _, Nat.le_succ _, rfl,
    rfl, .chain (.made ?_)⟩
  rw [← waiting_nil]
  exact .modify_modify (Varied.plain_iff.mp hkvaried) hfvaried hgvaried
    (applyWith_inTurn hf hg hx hfv' hgv' _)

theorem put_comm_linked {k v j u : Expr} {a a' b b' : Value} (hloose : W.loose = true)
    (henv : EnvVaried W.loose L Γ env env') (hk : Γ.Atom (.known a a') k)
    (hj : Γ.Atom (.known b b') j) (hv : Γ.Atom .plain v) (hu : Γ.Atom .plain u)
    (ha : a.keyFault? = none) (hb : b.keyFault? = none) (hab : a.same b = false) :
    Action.LinkedBy W L (fun M => Varied W.loose M .chain)
      ((Expr.andThen (.putAt k v) (.putAt j u)).eval s call env)
      ((Expr.andThen (.putAt j u) (.putAt k v)).eval s' call' env') := by
  obtain ⟨kv, kv', hkv, hkv', hkvaried⟩ := hk.eval henv
  obtain ⟨jv, jv', hjv, hjv', hjvaried⟩ := hj.eval henv
  obtain ⟨vv, vv', hvv, hvv', hvvaried⟩ := hv.eval henv
  obtain ⟨uv, uv', huv, huv', huvaried⟩ := hu.eval henv
  obtain ⟨rfl, rfl, hkk⟩ := hkvaried.known_cases
  obtain ⟨rfl, rfl, hjj⟩ := hjvaried.known_cases
  rw [eval_andThen (eval_putAt (hkv s call) (hvv s call)), eval_putAt (hjv s call) (huv s call),
    eval_andThen (eval_putAt (hjv' s' call') (huv' s' call')),
    eval_putAt (hkv' s' call') (hvv' s' call')]
  exact .pure (.chain (.made (.put_comm hloose hkk (Varied.plain_iff.mp hvvaried) hjj
    (Varied.plain_iff.mp huvaried) ha hb hab)))

/-- The same text of a store that starts with some entries. -/
theorem storeOf_linked (hs : W.Fits s s') (hcall : CallsLinked W call call')
    {entries : List (Expr × Expr)}
    (h : Env.Mentioned L (Expr.mapping entries).names env env') :
    Action.LinkedBy W L (fun M => Varied W.loose M .served)
      ((Expr.op (.handler .store) [.mapping entries]).eval s call env)
      ((Expr.op (.handler .store) [.mapping entries]).eval s' call' env') := by
  rw [eval_op_one, eval_op_one, Expr.eval, Expr.eval, bind_assoc, bind_assoc]
  refine (and_left (evalEntries_linked hs hcall entries .nil h)
    fun m w w' hm => evalEntries_distinct .nil hm).bind fun M m m' _ hm => ?_
  rw [pure_bind, pure_bind]
  exact newStore hm.1 hm.2

mutual

/-- **Expressions that vary have values that vary**, in the role of the expressions. -/
theorem Expr.Varies.linked (hs : W.Fits s s') (hcall : CallsUnfolded W call call') :
    ∀ {Γ : Scope} {ρ : Role} {e e' : Expr}, Expr.Varies W.loose Γ ρ e e' →
      ∀ {L : Link} {env env' : Env}, EnvVaried W.loose L Γ env env' →
      Action.LinkedBy W L (fun M => Varied W.loose M ρ)
        (e.eval s call env) (e'.eval s' call' env')
  | _, _, _, _, .same (e := e) h, _, _, _, henv =>
    (Expr.linked hs hcall.toCallsLinked e (henv.mentioned h)).mono fun _ _ _ _ hv =>
      .plain hv trivial
  | _, _, _, _, .literal _ l, _, _, _, _ => by
    refine .pure (.known ?_)
    cases l <;> exact .of_plain ⟨trivial, rfl⟩
  | _, _, _, _, .var (x := x) hx, _, env, env', henv => by
    rw [Expr.eval, Expr.eval, evalVar, evalVar]
    obtain ⟨hv, hv'⟩ | ⟨v, v', hv, hv', hvaried⟩ := henv.lookup x hx
    · rw [hv, hv']
      exact .fail (.failure fun _ => ⟨trivial, rfl⟩)
    · rw [hv, hv']
      exact .pure hvaried
  | _, _, _, _, .weaken h hρ, _, _, _, henv =>
    (Expr.Varies.linked hs hcall h henv).mono fun _ _ _ _ hv => hv.weaken hρ
  -- Functions: what a closure has captured varies, and so does its body.
  | _, _, _, _, .lambda takes h, _, _, _, henv =>
    .of_drawn fun w w' => ⟨_, _, w.fresh + 1, w'.fresh + 1, Nat.le_succ _, Nat.le_succ _, rfl, rfl,
      .closure h henv.toBinds henv.values⟩
  | _, _, _, _, .builder takes hparams h, _, _, _, henv =>
    .of_drawn fun w w' => ⟨_, _, w.fresh + 1, w'.fresh + 1, Nat.le_succ _, Nat.le_succ _, rfl, rfl,
      .builder hparams h henv.toBinds henv.values⟩
  | _, _, _, _, .fixpoint takes h, _, _, _, henv =>
    .of_drawn fun w w' => ⟨_, _, w.fresh + 1, w'.fresh + 1, Nat.le_succ _, Nat.le_succ _, rfl, rfl,
      .fixpoint h henv.toBinds henv.values⟩
  | _, _, _, _, .program takes hrequires hscope h, _, _, _, henv => by
    refine (evalAll_linked hs hcall.toCallsLinked _ (henv.mentioned hrequires)).bind
      fun M vs vs' hLM hvs => ?_
    refine (Action.LinkedBy.declaredCapabilities hvs).bind fun N r r' hMN hr => ?_
    subst hr
    have henvN := (henv.mono hLM).mono hMN
    exact .of_drawn fun w w' => ⟨_, _, w.fresh + 1, w'.fresh + 1, Nat.le_succ _, Nat.le_succ _, rfl,
      rfl, .program hscope h henvN.toBinds henvN.values⟩
  -- Control: both sides take the same branch.
  | _, _, _, _, .cond htest hyes hno, _, _, _, henv => by
    refine (Expr.Varies.linked hs hcall htest henv).bind fun M v v' hLM hv => ?_
    rw [(Varied.plain_iff.mp hv).isTrue]
    split
    · exact Expr.Varies.linked hs hcall hyes (henv.mono hLM)
    · exact Expr.Varies.linked hs hcall hno (henv.mono hLM)
  | _, _, _, _, .letIn he hbody, _, _, _, henv =>
    (Expr.Varies.linked hs hcall he henv).bind fun _ _ _ hLM hv =>
      Expr.Varies.linked hs hcall hbody ((henv.mono hLM).set hv)
  | _, _, _, _, @Expr.Varies.block _ _ _ _ es es' _ _ hes he, _, env, env', henv => by
    rw [Expr.eval, Expr.eval, evalLast_concat, evalLast_concat]
    exact (exprsVary.linked hs hcall hes henv).bind fun M _ _ hLM _ =>
      Expr.Varies.linked hs hcall he (henv.mono hLM)
  -- Operations.
  | _, _, _, _, .op o h, _, _, _, henv => by
    refine (exprsVary.linked hs hcall h henv).bind fun M vs vs' _ hvs => ?_
    exact (op hs hcall.toCallsLinked o hvs.counterpart_plain).mono fun _ _ _ _ hv =>
      .plain hv trivial
  | _, _, _, _, .call hf h, _, _, _, henv => by
    simp only [Expr.eval, evalAll, bind_assoc, pure_bind]
    refine (Expr.Varies.linked hs hcall hf henv).bind fun M x x' hLM hx => ?_
    refine (exprsVary.linked hs hcall h (henv.mono hLM)).bind fun N vs vs' hMN hvs => ?_
    exact callVaried hcall.toCallsLinked (hx.mono hMN) hvs
  | _, _, _, _, .list h, _, _, _, henv =>
    (exprsVary.linked hs hcall h henv).bind fun _ _ _ _ hvs => .pure hvs.chains
  | _, _, _, _, .fold hσ hitems hacc hf, _, _, _, henv => by
    simp only [Expr.eval, evalAll, bind_assoc, pure_bind]
    refine (Expr.Varies.linked hs hcall hitems henv).bind fun M x x' hLM hx => ?_
    refine (Expr.Varies.linked hs hcall hacc (henv.mono hLM)).bind fun N a a' hMN ha => ?_
    have hLN := Link.le_trans hLM hMN
    refine (Expr.Varies.linked hs hcall hf (henv.mono hLN)).bind fun P f f' hNP hf => ?_
    refine (itemsVaried hσ ((hx.mono hMN).mono hNP)).bind fun Q vs vs' hPQ hvs => ?_
    exact foldVaried hcall.toCallsLinked (hf.mono hPQ) hvs ((ha.mono hNP).mono hPQ)
  | _, _, _, _, .seen ho hc, _, _, _, henv => by
    rw [eval_op_one, eval_op_one]
    exact (Expr.Varies.linked hs hcall hc henv).bind fun M x x' _ hx =>
      (seenOp hcall.toCallsLinked ho hx).mono fun _ _ _ _ hv => .plain hv trivial
  | _, _, _, _, .bind hc hf, _, _, _, henv =>
    .opTwo henv (Expr.Varies.linked hs hcall hc) (Expr.Varies.linked hs hcall hf)
      (bindOp hcall.toCallsLinked)
  | _, _, _, _, .fmap hc hf, _, _, _, henv =>
    .opTwo henv (Expr.Varies.linked hs hcall hc) (Expr.Varies.linked hs hcall hf)
      (fmapOp hcall.toCallsLinked)
  | _, _, _, _, .andThen hc hd, _, _, _, henv =>
    .opTwo henv (Expr.Varies.linked hs hcall hc) (Expr.Varies.linked hs hcall hd)
      (andThenOp hcall.toCallsLinked)
  | _, _, _, _, .sequence h, _, _, _, henv => by
    rw [eval_op_one, eval_op_one]
    exact (Expr.Varies.linked hs hcall h henv).bind fun M x x' _ hx =>
      sequenceOp hcall.toCallsLinked hx
  | _, _, _, _, .declare hc hcaps, _, _, _, henv => by
    simp only [Expr.eval, evalAll, bind_assoc, pure_bind]
    refine (Expr.Varies.linked hs hcall hc henv).bind fun M x x' hLM hx => ?_
    refine (exprsVary.linked hs hcall hcaps (henv.mono hLM)).bind fun N vs vs' hMN hvs => ?_
    exact declareOp (hx.mono hMN) hvs.counterpart_plain
  | _, _, _, _, .modify hk hf, _, _, _, henv =>
    .opTwo henv (Expr.Varies.linked hs hcall hk) (Expr.Varies.linked hs hcall hf) fun hx hy =>
      .pure (.chain (.made (.perform_modify (Varied.plain_iff.mp hx) hy)))
  -- Handlers and runs.
  | _, _, _, _, .library ho h, _, _, _, henv =>
    (exprsVary.linked hs hcall h henv).bind fun _ _ _ _ hvs =>
      libraryOp hs hcall.toCallsLinked ho hvs.counterpart_plain
  | _, _, _, _, .store _, _, _, _, _ => newStore .nil .nil
  | _, _, _, _, .storeOf h, _, _, _, henv =>
    storeOf_linked hs hcall.toCallsLinked (henv.mentioned h)
  | _, _, _, _, .combine hρs h, _, _, _, henv => by
    refine (exprsVary.linked hs hcall h henv).bind fun M vs vs' _ hvs => ?_
    exact (combineOp s s' call call' hρs hvs).mono fun _ _ _ _ hv => hv.1
  | _, _, _, _, .combineServed hρs hserved h, _, _, _, henv => by
    refine (exprsVary.linked hs hcall h henv).bind fun M vs vs' _ hvs => ?_
    exact (combineOp s s' call call' hρs hvs).mono fun _ _ _ _ hv => hv.2 hserved
  | _, _, _, _, .check hc hh, _, _, _, henv =>
    .opTwo henv (Expr.Varies.linked hs hcall hc) (Expr.Varies.linked hs hcall hh)
      (checkOp s s' call call')
  | _, _, _, _, .run hc hh, _, _, _, henv =>
    .opTwo henv (Expr.Varies.linked hs hcall hc) (Expr.Varies.linked hs hcall hh) (runOp hs hcall)
  | _, _, _, _, .outcomeValue h, _, _, _, henv => by
    rw [eval_op_one, eval_op_one]
    exact (Expr.Varies.linked hs hcall h henv).bind fun M x x' _ hx =>
      (valueOp hcall.toCallsLinked hx).mono fun _ _ _ _ hv => .plain hv trivial
  -- The laws.
  | _, _, _, _, .modify_get_put hk hf hv hn, _, _, _, henv =>
    modify_get_put_linked henv hk hf hv hn
  | _, _, _, _, .put_put hk hv hu hc, _, _, _, henv =>
    put_put_linked henv hk hv hu (Expr.Varies.linked hs hcall hc henv)
  | _, _, _, _, .put_get hk hv hg hx, _, _, _, henv => put_get_linked henv hk hv hg hx
  | _, _, _, _, .put_get_built hk hv hρ hg, _, _, _, henv =>
    put_get_built_linked hcall henv hk hv hρ hg
  | _, _, _, _, .modify_modify hk hf hg hx, _, _, _, henv =>
    modify_modify_linked henv hk hf hg hx
  | _, _, _, _, .put_comm hloose hk hj hv hu ha hb hab, _, _, _, henv =>
    put_comm_linked hloose henv hk hj hv hu ha hb hab

/-- Expressions that vary have values that vary, each in its role. -/
theorem exprsVary.linked (hs : W.Fits s s') (hcall : CallsUnfolded W call call') :
    ∀ {Γ : Scope} {ρs : List Role} {es es' : List Expr}, exprsVary W.loose Γ ρs es es' →
      ∀ {L : Link} {env env' : Env}, EnvVaried W.loose L Γ env env' →
      Action.LinkedBy W L (fun M => valuesVary W.loose M ρs)
        (evalAll s call es env) (evalAll s' call' es' env')
  | _, _, _, _, .nil _, _, _, _, _ => .pure .nil
  | _, _, _, _, .cons he hes, _, _, _, henv =>
    (Expr.Varies.linked hs hcall he henv).bind fun _ _ _ hLM hv =>
      (exprsVary.linked hs hcall hes (henv.mono hLM)).map fun _ _ _ hMN hvs =>
        .cons (hv.mono hMN) hvs

end

end

end EffectHandlers
