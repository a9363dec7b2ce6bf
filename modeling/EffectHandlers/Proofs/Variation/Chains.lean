/-
EffectHandlers/Proofs/Variation/Chains.lean

Chains that vary, and what chains are made with.

A chain that varies may be continued, declared, put into a sequence, and
given to a function that expects one.  What is made of it varies again: a
chain that waits for an answer takes one more stage on both sides, and any
other one is the same on both sides, so that a binder is applied to
counterparts.

Main statements: `Action.LinkedBy.bindMade` for every binder that varies,
and with it the operations of the library on chains in the role of chains.
-/
import EffectHandlers.Proofs.Variation.Library

namespace EffectHandlers

/-- Two chains that vary. -/
abbrev Chain.Varies (loose : Bool) : Link → Chain → Chain → Prop :=
  fun L c c' => Varied loose L .made (.chain c) (.chain c')

/-- Two functions that vary. -/
abbrev Callable.Varies (loose : Bool) (takes : List Role) (gives : Role) :
    Link → Callable → Callable → Prop :=
  fun L f f' => Varied loose L (.function takes gives) (.function f) (.function f')

/-- What varies may declare more. -/
theorem Chain.Varies.declare {loose : Bool} {L : Link} {c c' : Chain}
    (h : Chain.Varies loose L c c') (r : CapabilitySet) :
    Chain.Varies loose L (c.declare r) (c'.declare r) := by
  obtain ⟨d, d', hd, hd', hsame⟩ | hwaiting := Varied.made_cases h
  · cases hd
    cases hd'
    exact .same (hsame.declare r)
  · obtain ⟨e, e', s, he, he'⟩ := hwaiting.waiting_cases
    cases he
    cases he'
    exact .made (.declared _ hwaiting)

/-- The value of a chain that varies is appended to a list. -/
theorem Chain.Varies.gather {loose : Bool} {L : Link} {c c' : Chain} {xs xs' : List Value}
    (h : Chain.Varies loose L c c') (hxs : Counterpart L xs xs') :
    Chain.Varies loose L (c.gather xs) (c'.gather xs') := by
  obtain ⟨d, d', hd, hd', hsame⟩ | hwaiting := Varied.made_cases h
  · cases hd
    cases hd'
    exact .same (hsame.gatherChain hxs)
  · obtain ⟨e, e', s, he, he'⟩ := hwaiting.waiting_cases
    cases he
    cases he'
    exact .made (.bindAppend hwaiting hxs)

/-- The chain of a request. -/
theorem Varied.perform {loose : Bool} {L : Link} {r r' : Request} (h : Counterpart L r r') :
    Varied loose L .waiting (.chain (Chain.perform (.of r))) (.chain (Chain.perform (.of r'))) := by
  rw [Chain.perform, Chain.perform, h.effectOfRequest.effectCapability]
  exact .effect (h.effectOfRequest.mapStage .stageLift) _

theorem Varied.perform_modify {loose : Bool} {L : Link} {k k' f f' : Value}
    (hk : Counterpart L k k') (hf : Varied loose L .mapping f f') :
    Varied loose L .waiting (.chain (Chain.perform (.of (.modify k f))))
      (.chain (Chain.perform (.of (.modify k' f')))) := by
  rw [← waiting_nil, ← waiting_nil]
  exact .modify hk hf

namespace Action.LinkedBy

variable {W : Comparing} {L : Link} {call call' : Call} {v v' : Value} {vs vs' : List Value}
  {c c' d d' : Chain} {ρ : Role} {takes : List Role}

/-! ### Values in the roles of chains and functions -/

theorem ofValueVaried (role : String) (hv : Varied W.loose L .chain v v') :
    Action.LinkedBy W L (Chain.Varies W.loose) (Chain.ofValue role v) (Chain.ofValue role v') := by
  obtain hsame | hwaiting := hv.chain_cases
  · exact (ofValue role hsame).mono fun _ _ _ _ h => .same h
  · obtain ⟨e, e', r, rfl, rfl⟩ := hwaiting.waiting_cases
    exact .pure (.made hwaiting)

theorem asChainVaried (operation : String) (hv : Varied W.loose L .chain v v') :
    Action.LinkedBy W L (Chain.Varies W.loose) (v.asChain operation) (v'.asChain operation) := by
  obtain hsame | hwaiting := hv.chain_cases
  · exact (asChain operation hsame).mono fun _ _ _ _ h => .same h
  · obtain ⟨e, e', r, rfl, rfl⟩ := hwaiting.waiting_cases
    exact .pure (.made hwaiting)

theorem asFunctionVaried (role : String) (hv : Varied W.loose L (.callable takes ρ) v v') :
    Action.LinkedBy W L (Callable.Varies W.loose takes ρ) (v.asFunction role)
      (v'.asFunction role) := by
  obtain ⟨hsame, hρ⟩ | hfunction := hv.callable_cases
  · cases Value.shape hsame with
    | function made hf => exact .pure (.sameFunction (.function made hf) hρ)
    | _ => exact failType hsame (.notCallable role) fun _ => .failure fun _ => ⟨trivial, rfl⟩
  · obtain ⟨f, f', rfl, rfl⟩ := hfunction.function_cases
    exact .pure hfunction

/-- What is in the role of a function is called, or it is no function on either side. -/
theorem callVaried (hcall : CallsLinked W call call')
    (hv : Varied W.loose L (.callable takes ρ) v v') (hargs : valuesVary W.loose L takes vs vs') :
    Action.LinkedBy W L (fun M => Varied W.loose M ρ) (Call.value call v vs)
      (Call.value call' v' vs') := by
  obtain ⟨hsame, htakes, hgives⟩ | hfunction := hv.callable_cases
  · exact (callValue hcall hsame (hargs.counterpart htakes)).mono fun _ _ _ _ h => .plain h hgives
  · obtain ⟨f, f', rfl, rfl⟩ := hfunction.function_cases
    exact hcall.function hfunction hargs

/-! ### Continuing chains -/

theorem applyBinder (hcall : CallsLinked W call call') {b b' : Binder}
    (hb : b.Varied W.loose L b') (hv : Counterpart L v v') :
    Action.LinkedBy W L (Chain.Varies W.loose) (b.apply call v) (b'.apply call' v') := by
  cases hb with
  | call hf =>
    exact (callVaried hcall hf (.cons (.plain hv trivial) .nil)).bind fun M x y _ hxy =>
      ofValueVaried "binder" hxy
  | map hf =>
    exact (callVaried hcall hf (.cons (.plain hv trivial) .nil)).map fun M x y _ hxy =>
      .same (Varied.plain_iff.mp hxy).finished
  | always hc => exact .pure hc
  | gather hc =>
    cases Value.shape hv with
    | list hxs => exact .pure (Chain.Varies.gather hc hxs)
    | _ => exact failType hv (.noSum · "list") fun _ => .failure fun _ => ⟨trivial, rfl⟩
  | append hxs => exact .pure (.same (Counterpart.list (hxs.append (.cons hv .nil))).finished)

/-- A chain that varies may be continued by binders that vary. -/
theorem bindMade (hcall : CallsLinked W call call') (hc : Chain.Varies W.loose L c c')
    {b b' : Binder} (hb : b.Varied W.loose L b') :
    Action.LinkedBy W L (Chain.Varies W.loose) (c.bind call b) (c'.bind call' b') := by
  obtain ⟨d, d', hd, hd', hsame⟩ | hwaiting := Varied.made_cases hc
  · cases hd
    cases hd'
    cases Chain.shape hsame with
    | done r hv =>
      exact (applyBinder hcall hb hv).map fun M x y _ hxy => Chain.Varies.declare hxy r
    | suspended r he => exact .pure (.made ((Varied.effect he r).mapBinder hb))
  · obtain ⟨e, e', r, he, he'⟩ := hwaiting.waiting_cases
    cases he
    cases he'
    exact .pure (.made (hwaiting.mapBinder hb))

theorem sequenceAfterMade (hcall : CallsLinked W call call') (hc : Chain.Varies W.loose L c c')
    {cs cs' : List Chain} (hcs : List.Forall₂ (Chain.Varies W.loose L) cs cs') :
    Action.LinkedBy W L (Chain.Varies W.loose) (c.sequenceAfter call cs)
      (c'.sequenceAfter call' cs') := by
  induction cs generalizing L c c' cs' with
  | nil =>
    cases hcs
    exact .pure hc
  | cons d cs ih =>
    cases hcs with
    | cons hd hcs =>
      exact (bindMade hcall hc (.gather hd)).bind fun M x y hLM hxy =>
        ih hxy (hcs.imp fun _ _ h => Varied.mono h hLM)

theorem chainsOfVaried (role : String) (hvs : List.Forall₂ (Varied W.loose L .chain) vs vs') :
    Action.LinkedBy W L (fun M => List.Forall₂ (Chain.Varies W.loose M))
      (EffectHandlers.chainsOf role vs) (EffectHandlers.chainsOf role vs') := by
  induction vs generalizing L vs' with
  | nil =>
    cases hvs
    exact .pure .nil
  | cons v vs ih =>
    cases hvs with
    | cons hv hrest =>
      exact (ofValueVaried role hv).bind fun M x y hLM hxy =>
        (ih (hrest.imp fun _ _ hv => Varied.mono hv hLM)).map fun N xs ys hMN hxs =>
          .cons (Varied.mono hxy hMN) hxs

/-! ### Items -/

/-- The items of what varies. -/
theorem itemsVaried {σ τ : Role} (hσ : σ.Items τ) (hv : Varied W.loose L σ v v') :
    Action.LinkedBy W L (fun M => List.Forall₂ (Varied W.loose M τ)) (Action.ofExcept v.items)
      (Action.ofExcept v'.items) := by
  have hsame (h : Counterpart L v v') (hτ : τ.HasPlain) :
      Action.LinkedBy W L (fun M => List.Forall₂ (Varied W.loose M τ)) (Action.ofExcept v.items)
        (Action.ofExcept v'.items) :=
    (ofExcept h.items).mono fun _ _ _ _ hvs =>
      (counterpart_list.mp hvs).imp fun _ _ h => .plain h hτ
  cases hσ with
  | plain => exact hsame (Varied.plain_iff.mp hv) trivial
  | chains =>
    obtain h | ⟨vs, vs', rfl, rfl, hvs⟩ := hv.chains_cases
    · exact hsame h trivial
    · exact .pure hvs

theorem foldVaried {τ : Role} (hcall : CallsLinked W call call') {f f' a a' : Value}
    (hf : Varied W.loose L (.callable [ρ, τ] ρ) f f')
    (hvs : List.Forall₂ (Varied W.loose L τ) vs vs') (ha : Varied W.loose L ρ a a') :
    Action.LinkedBy W L (fun M => Varied W.loose M ρ) (EffectHandlers.foldItems call f vs a)
      (EffectHandlers.foldItems call' f' vs' a') := by
  induction vs generalizing L a a' vs' with
  | nil =>
    cases hvs
    exact .pure ha
  | cons v vs ih =>
    cases hvs with
    | cons hv hvs =>
      exact (callVaried hcall hf (.cons ha (.cons hv .nil))).bind fun M x y hLM hxy =>
        ih (hf.mono hLM) (hvs.imp fun _ _ hv => Varied.mono hv hLM) hxy

/-! ### The operations of the library -/

section

variable {a a' b b' : Value}

theorem chainResult {x y : Action Chain}
    (h : Action.LinkedBy W L (Chain.Varies W.loose) x y) :
    Action.LinkedBy W L (fun M => Varied W.loose M .chain)
      (x >>= fun c => Pure.pure (.chain c)) (y >>= fun c => Pure.pure (.chain c)) :=
  h.map fun _ _ _ _ hc => .chain hc

theorem bindOp (hcall : CallsLinked W call call') (ha : Varied W.loose L .chain a a')
    (hb : Varied W.loose L .continuation b b') :
    Action.LinkedBy W L (fun M => Varied W.loose M .chain)
      (ChainOp.apply call .bind [a, b]) (ChainOp.apply call' .bind [a', b']) :=
  (asFunctionVaried "binder" hb).bind fun _ _ _ hLM hf =>
    (asChainVaried "bind" (ha.mono hLM)).bind fun _ _ _ hMN hc =>
      chainResult (bindMade hcall hc (.call (.callable (Varied.mono hf hMN))))

theorem fmapOp (hcall : CallsLinked W call call') (ha : Varied W.loose L .chain a a')
    (hb : Varied W.loose L .mapping b b') :
    Action.LinkedBy W L (fun M => Varied W.loose M .chain)
      (ChainOp.apply call .fmap [a, b]) (ChainOp.apply call' .fmap [a', b']) :=
  (asFunctionVaried "mapper" hb).bind fun _ _ _ hLM hf =>
    (asChainVaried "bind" (ha.mono hLM)).bind fun _ _ _ hMN hc =>
      chainResult (bindMade hcall hc (.map (.callable (Varied.mono hf hMN))))

theorem andThenOp (hcall : CallsLinked W call call') (ha : Varied W.loose L .chain a a')
    (hb : Varied W.loose L .chain b b') :
    Action.LinkedBy W L (fun M => Varied W.loose M .chain)
      (ChainOp.apply call .andThen [a, b]) (ChainOp.apply call' .andThen [a', b']) :=
  (ofValueVaried "then" hb).bind fun _ _ _ hLM hd =>
    (asChainVaried "bind" (ha.mono hLM)).bind fun _ _ _ hMN hc =>
      chainResult (bindMade hcall hc (.always (Varied.mono hd hMN)))

theorem sequenceOp (hcall : CallsLinked W call call') (ha : Varied W.loose L .chains a a') :
    Action.LinkedBy W L (fun M => Varied W.loose M .chain)
      (ChainOp.apply call .sequence [a]) (ChainOp.apply call' .sequence [a']) := by
  refine (itemsVaried .chains ha).bind fun M vs vs' _ hvs => ?_
  exact (chainsOfVaried "sequence" hvs).bind fun N cs cs' _ hcs =>
    chainResult (sequenceAfterMade hcall (.same (Counterpart.list .nil).finished) hcs)

/-- What is the same of all chains that wait. -/
theorem seenOp (hcall : CallsLinked W call call') {o : ChainOp} (ho : o.sees = true)
    (ha : Varied W.loose L .chain a a') :
    Action.LinkedBy W L Counterpart (o.apply call [a]) (o.apply call' [a']) := by
  obtain hsame | hwaiting := ha.chain_cases
  · exact chainOne hcall o hsame
  · obtain ⟨e, e', r, rfl, rfl⟩ := hwaiting.waiting_cases
    cases o
    case isChain | isDone => exact .pure (.bool _)
    case requires => exact .pure (.capabilities r)
    all_goals cases ho

theorem declareOp (ha : Varied W.loose L .chain a a') (hvs : Counterpart L vs vs') :
    Action.LinkedBy W L (fun M => Varied W.loose M .chain)
      (ChainOp.apply call .declare (a :: vs)) (ChainOp.apply call' .declare (a' :: vs')) := by
  obtain hsame | hwaiting := ha.chain_cases
  · exact (chainDeclare hsame hvs).mono fun _ _ _ _ h => .plain h trivial
  · obtain ⟨e, e', r, rfl, rfl⟩ := hwaiting.waiting_cases
    cases vs with
    | nil =>
      obtain rfl := hvs.nil_left
      exact .pure ha
    | cons v vs =>
      obtain ⟨v', vs', rfl, hv, hrest⟩ := hvs.cons_left
      refine .bind (.pure (.made hwaiting) : Action.LinkedBy W L (Chain.Varies W.loose) _ _)
        fun M c c' hLM hc => ?_
      exact (capabilitiesOf "with_requirements" ((Counterpart.cons hv hrest).mono hLM)).bind
        fun N s s' hMN hs => .pure (hs ▸ .chain (Chain.Varies.declare (Varied.mono hc hMN) s))

end

end Action.LinkedBy

end EffectHandlers
