/-
EffectHandlers/Proofs/Variation/Expressions.lean

The same expression, evaluated on either side.

An expression has counterparts as its values if the variables that it
mentions do; where it fails, it fails with counterparts.

Main statement: `Expr.linked`.
-/
import EffectHandlers.Proofs.Variation.Chains
import EffectHandlers.Proofs.Variation.Handlers

namespace EffectHandlers

open Action.LinkedBy

variable {W : Comparing} {L : Link} {s s' : Settings} {call call' : Call} {env env' : Env}

/-! ### The same text -/

/-- What some variables are bound to are counterparts. -/
abbrev Env.Mentioned (L : Link) (names : List String) (env env' : Env) : Prop :=
  ∀ x ∈ names, Counterpart L (env.lookup x) (env'.lookup x)

theorem Env.Mentioned.mono {M : Link} {names : List String} (h : Env.Mentioned L names env env')
    (hLM : L ≤ M) : Env.Mentioned M names env env' := fun x hx => (h x hx).mono hLM

theorem Env.Mentioned.left {xs ys : List String} (h : Env.Mentioned L (xs ++ ys) env env') :
    Env.Mentioned L xs env env' := fun x hx => h x (List.mem_append_left _ hx)

theorem Env.Mentioned.right {xs ys : List String} (h : Env.Mentioned L (xs ++ ys) env env') :
    Env.Mentioned L ys env env' := fun x hx => h x (List.mem_append_right _ hx)

theorem Env.Mentioned.set {names : List String} (h : Env.Mentioned L names env env') {x : String}
    {v v' : Value} (hv : Counterpart L v v') :
    Env.Mentioned L names (Env.set env x v) (Env.set env' x v') := by
  intro y hy
  rw [Env.lookup_set, Env.lookup_set]
  split
  · exact .some hv
  · exact h y hy

theorem evalVar_linked {x : String} (h : Counterpart L (env.lookup x) (env'.lookup x)) :
    Action.LinkedBy W L Counterpart (evalVar env x) (evalVar env' x) := by
  unfold evalVar
  generalize env.lookup x = o at h ⊢
  generalize env'.lookup x = o' at h ⊢
  cases counterpart_option.mp h with
  | none => exact .fail (.failure fun _ => ⟨trivial, rfl⟩)
  | some hv => exact .pure hv

theorem customCapabilities_linked (base : HandlerBase) (kind : Option Kind)
    (names : Option (List String)) :
    Action.LinkedBy W L (Equal CapabilitySet) (customCapabilities base kind names)
      (customCapabilities base kind names) := by
  unfold customCapabilities
  split
  · exact .pure rfl
  · split
    · split
      · exact .pure rfl
      · exact .fail (.failure fun _ => ⟨trivial, rfl⟩)
    · exact .pure rfl
  · exact .pure rfl

mutual

/-- **The same expression has counterparts as its values**, if what it mentions are counterparts. -/
theorem Expr.linked (hs : W.Fits s s') (hcall : CallsLinked W call call') :
    ∀ (e : Expr) {L : Link} {env env' : Env},
    Env.Mentioned L e.names env env' →
      Action.LinkedBy W L Counterpart (e.eval s call env) (e.eval s' call' env')
  | .literal l, _, _, _, _ => .pure (by cases l <;> exact .of_plain ⟨trivial, rfl⟩)
  | .var x, _, _, _, h => evalVar_linked (h x List.mem_cons_self)
  | .lambda params body, _, _, _, h =>
    fresh.map fun _ _ _ hLM hid =>
      .function trivial (.closure hid params body (Env.Mentioned.mono h hLM))
  | .fixpoint name params body, _, _, _, h =>
    fresh.map fun _ _ _ hLM hid =>
      .function trivial (.fixpoint hid name params body (Env.Mentioned.mono h hLM))
  | .cond test yes no, _, _, _, h => by
    refine (Expr.linked hs hcall test (Env.Mentioned.left (Env.Mentioned.left h))).bind
      fun M v v' hLM hv => ?_
    rw [hv.isTrue]
    split
    · exact Expr.linked hs hcall yes
        (Env.Mentioned.mono (Env.Mentioned.right (Env.Mentioned.left h)) hLM)
    · exact Expr.linked hs hcall no (Env.Mentioned.mono (Env.Mentioned.right h) hLM)
  | .letIn x bound body, _, _, _, h =>
    (Expr.linked hs hcall bound (Env.Mentioned.left h)).bind fun _ _ _ hLM hv =>
      Expr.linked hs hcall body
        (Env.Mentioned.set (Env.Mentioned.mono (Env.Mentioned.right h) hLM) hv)
  | .block es, _, _, _, h => evalLast_linked hs hcall es .null h
  | .mapping entries, _, _, _, h =>
    (evalEntries_linked hs hcall entries .nil h).map fun _ _ _ _ hm => .dict hm
  | .program requires params body, _, _, _, h => by
    refine (evalAll_linked hs hcall requires (Env.Mentioned.left h)).bind fun M vs vs' hLM hvs => ?_
    refine (Action.LinkedBy.declaredCapabilities hvs).bind fun N r r' hMN hr => ?_
    subst hr
    refine fresh.map fun P n n' hNP hid => ?_
    exact .function trivial (.program hid r params body (Env.Mentioned.mono (Env.Mentioned.right h)
      (Link.le_trans (Link.le_trans hLM hMN) hNP)))
  | .custom spec, _, _, _, h => HandlerSpec.linked hs hcall spec h
  | .op o args, _, _, _, h =>
    (evalAll_linked hs hcall args h).bind fun _ _ _ _ hvs => op hs hcall o hvs
termination_by structural e => e

theorem evalAll_linked (hs : W.Fits s s') (hcall : CallsLinked W call call') :
    ∀ (es : List Expr) {L : Link} {env env' : Env},
    Env.Mentioned L (exprsNames es) env env' →
      Action.LinkedBy W L Counterpart (evalAll s call es env) (evalAll s' call' es env')
  | [], _, _, _, _ => .pure .nil
  | e :: es, _, _, _, h =>
    (Expr.linked hs hcall e (Env.Mentioned.left h)).bind fun _ _ _ hLM hv =>
      (evalAll_linked hs hcall es (Env.Mentioned.mono (Env.Mentioned.right h) hLM)).map
        fun _ _ _ hMN hvs => .cons (hv.mono hMN) hvs
termination_by structural es => es

theorem evalLast_linked (hs : W.Fits s s') (hcall : CallsLinked W call call') :
    ∀ (es : List Expr) {L : Link} {env env' : Env} {v v' : Value},
    Counterpart L v v' → Env.Mentioned L (exprsNames es) env env' →
      Action.LinkedBy W L Counterpart (evalLast s call v es env) (evalLast s' call' v' es env')
  | [], _, _, _, _, _, hv, _ => .pure hv
  | e :: es, _, _, _, _, _, _, h =>
    (Expr.linked hs hcall e (Env.Mentioned.left h)).bind fun _ _ _ hLM hv =>
      evalLast_linked hs hcall es hv (Env.Mentioned.mono (Env.Mentioned.right h) hLM)
termination_by structural es => es

theorem evalEntries_linked (hs : W.Fits s s') (hcall : CallsLinked W call call') :
    ∀ (es : List (Expr × Expr)) {L : Link} {env env' : Env} {m m' : Mapping},
    Counterpart L m m' → Env.Mentioned L (entriesNames es) env env' →
      Action.LinkedBy W L Counterpart (evalEntries s call m es env)
        (evalEntries s' call' m' es env')
  | [], _, _, _, _, _, hm, _ => .pure hm
  | (k, v) :: es, _, _, _, _, _, hm, h => by
    refine (Expr.linked hs hcall k (Env.Mentioned.left (Env.Mentioned.left h))).bind
      fun M a a' hLM ha => ?_
    refine (Expr.linked hs hcall v (Env.Mentioned.mono (Env.Mentioned.right (Env.Mentioned.left h))
      hLM)).bind fun N b b' hMN hb => ?_
    have hLN := Link.le_trans hLM hMN
    refine (ofExcept ((hm.mono hLN).addMappingEntry (ha.mono hMN) hb)).bind
      fun P m m' hNP hm => ?_
    exact evalEntries_linked hs hcall es hm
      (Env.Mentioned.mono (Env.Mentioned.right h) (Link.le_trans hLN hNP))
termination_by structural es => es

theorem evalOption_linked (hs : W.Fits s s') (hcall : CallsLinked W call call') :
    ∀ (e : Option Expr) {L : Link} {env env' : Env},
    Env.Mentioned L (optionNames e) env env' →
      Action.LinkedBy W L Counterpart (evalOption s call e env) (evalOption s' call' e env')
  | none, _, _, _, _ => .pure .none
  | some e, _, _, _, h => (Expr.linked hs hcall e h).map fun _ _ _ _ hv => .some hv
termination_by structural e => e

theorem HandlerSpec.linked (hs : W.Fits s s') (hcall : CallsLinked W call call') :
    ∀ (spec : HandlerSpec) {L : Link} {env env' : Env},
    Env.Mentioned L spec.names env env' →
      Action.LinkedBy W L Counterpart (spec.eval s call env) (spec.eval s' call' env')
  | .mk name base kind names start step offer finish, L, env, env', h => by
    refine (evalOption_linked hs hcall start (Env.Mentioned.left (Env.Mentioned.left
      (Env.Mentioned.left h)))).bind fun M a a' hLM ha => ?_
    replace h := Env.Mentioned.mono h hLM
    refine (evalOption_linked hs hcall step (Env.Mentioned.right (Env.Mentioned.left
      (Env.Mentioned.left h)))).bind fun N b b' hMN hb => ?_
    replace h := Env.Mentioned.mono h hMN
    refine (evalOption_linked hs hcall offer (Env.Mentioned.right (Env.Mentioned.left h))).bind
      fun P c c' hNP hc => ?_
    replace h := Env.Mentioned.mono h hNP
    refine (evalOption_linked hs hcall finish (Env.Mentioned.right h)).bind fun Q d d' hPQ hd => ?_
    refine (customCapabilities_linked base kind names).bind fun R r r' hQR hr => ?_
    subst hr
    refine Action.LinkedBy.newHandler fun hRS hid =>
      .custom hid ⟨rfl, rfl, rfl, rfl, ?_, ?_, ?_, ?_⟩
    · exact ((((ha.mono hMN).mono hNP).mono hPQ).mono hQR).mono hRS
    · exact (((hb.mono hNP).mono hPQ).mono hQR).mono hRS
    · exact ((hc.mono hPQ).mono hQR).mono hRS
    · exact (hd.mono hQR).mono hRS
termination_by structural spec => spec

end

end EffectHandlers
