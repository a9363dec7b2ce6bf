/-
EffectHandlers/Proofs/Variation/Drives.lean

Drives of chains that vary.

Two chains that vary are driven against the same handlers, in states that
are counterparts.  Where they wait with counterparts, one step is made on
either side, and then the same binders go on.  Where one of them waits with
one side of a law and the other one with the other side, each makes a step
or two.  On the way the same functions are called on counterparts, in the
same order, and afterwards both sides stand at chains that vary, in states
that are counterparts again.  Only where values are stored under two keys in
either order, the store holds the same in another order of the keys, which
no program can notice.

The side that is not bounded is given two steps for each one of the other.

Main result: `goesOn_linked`.
-/
import EffectHandlers.Proofs.Variation.Chains
import EffectHandlers.Proofs.Variation.Handlers

namespace EffectHandlers

/-! ### Computations that do the same -/

theorem Action.LinkedBy.before {W : Comparing} {L : Link} {α β γ : Type} {Q : α → β → Prop}
    {R : Link → β → γ → Prop} {x : Action α} {y : Action β} {z : Action γ}
    (hxy : Action.SameBut Q x y) (hyz : Action.LinkedBy W L R y z) :
    Action.LinkedBy W L (fun M a c => ∃ b, Q a b ∧ R M b c) x z := by
  intro w w' hw
  have hsame := hxy w
  have hlinked := hyz w w' hw
  generalize x w = o at hsame ⊢
  generalize y w = p at hsame hlinked
  generalize z w' = q at hlinked ⊢
  cases hsame with
  | value u related =>
    cases hlinked with
    | value hLM hv h => exact .value hLM hv ⟨_, related, h⟩
    | right h => exact .right h _
  | failed f u =>
    cases hlinked with
    | failed hLM hv h => exact .failed hLM hv h
    | right h => exact .right h _
  | exhausted =>
    cases hlinked with
    | left h => exact .left h _
    | right h => exact .right h _

open Action.LinkedBy hiding pure bind fail map

/-! ### Chains that go on -/

/-- Chains that vary are continued by binders that vary. -/
theorem Action.LinkedBy.continuedMade {W : Comparing} {L : Link} {call call' : Call}
    (hcall : CallsLinked W call call') {bs bs' : List Binder} {c c' : Chain}
    (hbs : List.Forall₂ (Binder.Varied W.loose L) bs bs') (hc : Chain.Varies W.loose L c c') :
    Action.LinkedBy W L (Chain.Varies W.loose) (c.continued call bs) (c'.continued call' bs') := by
  induction bs generalizing L c c' bs' with
  | nil =>
    cases hbs
    exact .pure hc
  | cons b bs ih =>
    cases hbs with
    | cons hb hbs =>
      exact (bindMade hcall hc hb).bind fun M d d' hLM hd =>
        ih (hbs.imp fun _ _ hb => hb.mono hLM) hd

/-- What counterparts are continued by: they go through the binders one by one. -/
theorem Action.LinkedBy.stagesVaried {W : Comparing} {L : Link} {call call' : Call}
    (hcall : CallsLinked W call call') {bs bs' : List Binder} {v v' : Value}
    (hbs : List.Forall₂ (Binder.Varied W.loose L) bs bs') (hv : Varied W.loose L .chain v v') :
    Action.LinkedBy W L (fun M => Varied W.loose M .chain)
      (EffectHandlers.applyStages call v (bs.map .bind))
      (EffectHandlers.applyStages call' v' (bs'.map .bind)) := by
  induction bs generalizing L v v' bs' with
  | nil =>
    cases hbs
    exact .pure hv
  | cons b bs ih =>
    cases hbs with
    | cons hb hbs =>
      rw [List.map_cons, List.map_cons, applyStages_cons, applyStages_cons, Stage.apply_bind,
        Stage.apply_bind]
      simp only [bind_assoc, pure_bind]
      refine (asChainVaried "bind" hv).bind fun M c c' hLM hc => ?_
      refine (bindMade hcall hc (hb.mono hLM)).bind fun N d d' hMN hd => ?_
      exact ih (hbs.imp fun _ _ hb => (hb.mono hLM).mono hMN) (.chain hd)

/-! ### Where drives stand and end -/

section

variable {ι : Type} [DecidableEq ι] {hs hs' : ι → Handler} {t : Shape ι} {i : ι}

/-- The handlers are counterparts, their states are counterparts, and the store holds a mapping
without equal keys. -/
structure StatesLinked (hs hs' : ι → Handler) (t : Shape ι) (i : ι) (L : Link) (σ σ' : ι → Value) :
    Prop where
  handlers : ∀ j ∈ t.leaves, Counterpart L (hs j) (hs' j)
  states : ∀ j ∈ t.leaves, Counterpart L (σ j) (σ' j)
  holds : ∃ m : Mapping, σ i = .frozen m ∧ m.Distinct

namespace StatesLinked

variable {L M : Link} {σ σ' : ι → Value}

omit [DecidableEq ι] in
theorem mono (h : StatesLinked hs hs' t i L σ σ') (hLM : L ≤ M) :
    StatesLinked hs hs' t i M σ σ' where
  handlers j hj := (h.handlers j hj).mono hLM
  states j hj := (h.states j hj).mono hLM
  holds := h.holds

/-- One handler moves to states that are counterparts. -/
theorem update (h : StatesLinked hs hs' t i L σ σ') {j : ι} {a a' : Value} (ha : Counterpart L a a')
    (hi : ∃ m : Mapping, Function.update σ j a i = .frozen m ∧ m.Distinct) :
    StatesLinked hs hs' t i L (Function.update σ j a) (Function.update σ' j a') where
  handlers := h.handlers
  states k hk := by
    by_cases hkj : k = j
    · subst hkj
      rwa [Function.update_self, Function.update_self]
    · rw [Function.update_of_ne hkj, Function.update_of_ne hkj]
      exact h.states k hk
  holds := hi

/-- The store holds other mappings. -/
theorem store (h : StatesLinked hs hs' t i L σ σ') {m m' : Mapping} (hm : Counterpart L m m')
    (hd : m.Distinct) :
    StatesLinked hs hs' t i L (Function.update σ i (.frozen m))
      (Function.update σ' i (.frozen m')) :=
  h.update hm.frozen ⟨m, Function.update_self _ _ _, hd⟩

omit [DecidableEq ι] in
/-- What the store holds on both sides. -/
theorem held (h : StatesLinked hs hs' t i L σ σ') (hi : i ∈ t.leaves) : ∃ m m' : Mapping,
    σ i = .frozen m ∧ σ' i = .frozen m' ∧ Counterpart L m m' ∧ m.Distinct := by
  obtain ⟨m, hσ, hd⟩ := h.holds
  have hstate := h.states i hi
  rw [hσ] at hstate
  generalize hσ' : σ' i = a at hstate
  cases Value.shape hstate with
  | frozen hm => exact ⟨m, _, hσ, rfl, hm, hd⟩

omit [DecidableEq ι] in
/-- The state of the combination. -/
theorem nest (h : StatesLinked hs hs' t i L σ σ') : Counterpart L (t.nest σ) (t.nest σ') := by
  have hstates := h.states
  clear h
  induction t with
  | leaf j => exact hstates j (List.mem_singleton.mpr rfl)
  | pair left right ihl ihr =>
    exact .tuple (.cons (ihl fun j hj => hstates j (List.mem_append_left _ hj))
      (.cons (ihr fun j hj => hstates j (List.mem_append_right _ hj)) .nil))

end StatesLinked

/-- Where two drives ended: but for the order of keys, the values and the states are
counterparts. -/
def EndsLinked (W : Comparing) (hs : ι → Handler) (t : Shape ι) (L : Link) (d d' : Drive) : Prop :=
  ∃ d₁, Shelves.Ends (Mapping.Alike W.loose) hs t d d₁ ∧ DriveLinked L d₁ d'

/-- Drives that stand at chains that vary go on alike for so many steps. -/
def GoesOnLinked (W : Comparing) (s s' : Settings) (call call' : Call) (hs hs' : ι → Handler)
    (t : Shape ι) (A A' : Handler) (i : ι) (n m : Nat) : Prop :=
  ∀ {L : Link} {p q : Nat} {σ σ' : ι → Value} {bs bs' : List Binder} {c c' : Chain},
    StatesLinked hs hs' t i L σ σ' → List.Forall₂ (Binder.Varied W.loose L) bs bs' →
    Chain.Varies W.loose L c c' →
    Action.LinkedBy W L (EndsLinked W hs t)
      (goesOn s call A n p (t.nest σ) bs c)
      (goesOn s' call' A' m q (t.nest σ') bs' c')

/-! ### The laws -/

variable {W : Comparing} {s s' : Settings} {call call' : Call}
  (hcall : CallsUnfolded W call call') {A A' : Handler} (h : Served s hs t A i)
  (h' : Served s' hs' t A' i) {n m p q : Nat} {L : Link} {σ σ' : ι → Value}
  (hst : StatesLinked hs hs' t i L σ σ') {bs bs' : List Binder}
  {k k' v v' u u' f f' : Value}

include h h' hst in
/-- Whatever is asked about a bad key, the failure is the same. -/
theorem faults_linked (hk : Counterpart L k k') {found : String} (hfault : k.keyFault? = some found)
    {r r' : Request} (hr : r.Stored) (hr' : r'.Stored) (hkey : r.keys = [k])
    (hkey' : r'.keys = [k'])
    (bs₀ bs₀' : List Binder) :
    Action.LinkedBy W L (EndsLinked W hs t)
      (goesOn s call A (n + 1) p (t.nest σ) bs (waiting r bs₀))
      (goesOn s' call' A' (m + 1) q (t.nest σ') bs' (waiting r' bs₀')) := by
  obtain ⟨m, m', hσ, hσ', -, -⟩ := hst.held h.mem
  rw [goesOn_fault h hσ bs₀ hfault hr hkey,
    goesOn_fault h' hσ' bs₀' (hk.keyFault?.trans hfault) hr' hkey']
  exact .fail (.failure fun _ => ⟨trivial, rfl⟩)

variable (henough : W.Enough (n + 1) (m + 1))
  (hrest : ∀ n' ≤ n, ∀ m', W.Enough n' m' → GoesOnLinked W s s' call call' hs hs' t A A' i n' m')
  (hbs : List.Forall₂ (Binder.Varied W.loose L) bs bs')

include hcall h h' hst henough hrest hbs

theorem modify_linked (hk : Counterpart L k k') (hf : Varied W.loose L .mapping f f') :
    Action.LinkedBy W L (EndsLinked W hs t)
      (goesOn s call A (n + 1) p (t.nest σ) bs (waiting (.modify k f) []))
      (goesOn s' call' A' (m + 1) q (t.nest σ') bs'
        (waiting (.modify k' f') [])) := by
  cases hkey : k.keyFault? with
  | some found => exact faults_linked h h' hst hk hkey (.modify k f) (.modify k' f') rfl rfl _ _
  | none =>
    obtain ⟨m₀, m₀', hσ, hσ', hm, hd⟩ := hst.held h.mem
    rw [goesOn_modify h hσ _ hkey, goesOn_modify h' hσ' _ (hk.keyFault?.trans hkey)]
    refine (callVaried hcall.toCallsLinked hf
      (.cons (.plain (hm.lookup hk).getD trivial) .nil)).bind fun M x y hLM hxy => ?_
    have hxy := Varied.plain_iff.mp hxy
    exact hrest n le_rfl m henough.step
      ((hst.mono hLM).store ((hm.mono hLM).set (hk.mono hLM) hxy) (hd.set k x))
      (hbs.imp fun _ _ hb => hb.mono hLM) (.same hxy.finished)

/-- **Modifying is reading, applying and storing.** -/
theorem modify_get_put_goesOn (hk : Counterpart L k k') (hf : Varied W.loose L .mapping f f')
    {g : Callable} (hg : ∀ s call x, g.applyWith s call [x] = Call.value call f' [x] >>= fun n =>
      pure (.chain (waiting (.put k' n) [.always (.finished n)]))) :
    Action.LinkedBy W L (EndsLinked W hs t)
      (goesOn s call A (n + 1) p (t.nest σ) bs (waiting (.modify k f) []))
      (goesOn s' call' A' (m + 1) q (t.nest σ') bs'
        (waiting (.get k') [.call g])) := by
  cases hkey : k.keyFault? with
  | some found => exact faults_linked h h' hst hk hkey (.modify k f) (.get k') rfl rfl _ _
  | none =>
    obtain ⟨m₀, m₀', hσ, hσ', hm, hd⟩ := hst.held h.mem
    have hkey' := hk.keyFault?.trans hkey
    -- Both sides call the function on what the key reads.
    rw [goesOn_modify h hσ _ hkey, goesOn_get h' hσ' _ hkey', List.singleton_append, goesOn_call]
    obtain ⟨hW, hexhaust⟩ | ⟨t, next, hcalled, hnext⟩ :=
      hcall.right g [(m₀'.lookup k').getD .null]
    · rw [hexhaust]
      exact .exhaustRight hW _
    rw [hcalled, hg]
    simp only [bind_assoc, pure_bind, Chain.ofValue]
    refine (callVaried hnext hf
      (.cons (.plain (hm.lookup hk).getD trivial) .nil)).bind fun M x y hLM hxy => ?_
    have hxy := Varied.plain_iff.mp hxy
    -- One side has stored what it gave, and the other one still has to.
    obtain ⟨hW, rfl⟩ | ⟨m', rfl, hm'⟩ := henough.step_right
    · rw [waiting, goesOn_zero]
      exact .exhaustRight hW _
    · rw [goesOn_put_always h' hσ' hkey']
      exact hrest n le_rfl m' hm'
        ((hst.mono hLM).store ((hm.mono hLM).set (hk.mono hLM) hxy) (hd.set k x))
        (hbs.imp fun _ _ hb => hb.mono hLM) (.same hxy.finished)

omit hcall in
/-- **Storing twice is storing the second time.** -/
theorem put_put_goesOn (hk : Counterpart L k k') (hu : Counterpart L u u') {c c' : Chain}
    (hc : Chain.Varies W.loose L c c') :
    Action.LinkedBy W L (EndsLinked W hs t)
      (goesOn s call A (n + 1) p (t.nest σ) bs
        (waiting (.put k v) [.always (waiting (.put k u) [.always c])]))
      (goesOn s' call' A' (m + 1) q (t.nest σ') bs'
        (waiting (.put k' u') [.always c'])) := by
  cases hkey : k.keyFault? with
  | some found => exact faults_linked h h' hst hk hkey (.put k v) (.put k' u') rfl rfl _ _
  | none =>
    obtain ⟨m₀, m₀', hσ, hσ', hm, hd⟩ := hst.held h.mem
    rw [goesOn_put_always h hσ hkey, goesOn_put_always h' hσ' (hk.keyFault?.trans hkey)]
    obtain ⟨hW, rfl⟩ | ⟨n', rfl, hn'⟩ := henough.step_left
    · rw [waiting, goesOn_zero]
      exact .exhaustLeft hW _
    · rw [goesOn_put_always h (Function.update_self _ _ _) hkey, Function.update_idem,
        Mapping.set_set]
      exact hrest n' (Nat.le_succ n') m hn' (hst.store (hm.set hk hu) (hd.set k u)) hbs hc

/-- **What was stored is read.**  A function that goes on with what is read is called on what was
stored. -/
theorem put_get_goesOn (hk : Counterpart L k k') (hv : Counterpart L v v') {g g' e : Callable}
    (hg : Varied W.loose L .continuation (.function g) (.function g'))
    (he : ∀ s call x, e.applyWith s call [x] = call g' [v']) :
    Action.LinkedBy W L (EndsLinked W hs t)
      (goesOn s call A (n + 1) p (t.nest σ) bs
        (waiting (.put k v) [.always (waiting (.get k) [.call g])]))
      (goesOn s' call' A' (m + 1) q (t.nest σ') bs'
        (waiting (.put k' v') [.call e])) := by
  cases hkey : k.keyFault? with
  | some found => exact faults_linked h h' hst hk hkey (.put k v) (.put k' v') rfl rfl _ _
  | none =>
    obtain ⟨m₀, m₀', hσ, hσ', hm, hd⟩ := hst.held h.mem
    obtain ⟨hW, rfl⟩ | ⟨n', rfl, hn'⟩ := henough.step_left
    · rw [goesOn_put_always h hσ hkey, waiting, goesOn_zero]
      exact .exhaustLeft hW _
    · rw [goesOn_put_get h hσ hkey, goesOn_put h' hσ' _ (hk.keyFault?.trans hkey),
        List.singleton_append, goesOn_call]
      obtain ⟨hW, hexhaust⟩ | ⟨t, next, hcalled, hnext⟩ := hcall.right e [.null]
      · rw [hexhaust]
        exact .exhaustRight hW _
      rw [hcalled, he]
      have hst' := hst.store (hm.set hk hv) (hd.set k v)
      refine (Action.LinkedBy.bind (callVaried hnext hg
        (.cons (.plain hv trivial) .nil)) fun M x y _ hxy => ofValueVaried "binder" hxy).bind
          fun M c c' hLM hc => ?_
      exact hrest n' (Nat.le_succ n') m hn' (hst'.mono hLM) (hbs.imp fun _ _ hb => hb.mono hLM) hc

/-- Where the function only makes a chain, it may be called while the program is built. -/
theorem put_get_built_goesOn (hk : Counterpart L k k') (hv : Counterpart L v v') {g : Callable}
    {make : World → Chain} {c' : Chain}
    (hmake : ∀ s call w, ∃ n, w.fresh ≤ n ∧
      g.applyWith s call [v] w = .value (.chain (make w)) { w with fresh := n })
    (hc : ∀ w, Chain.Varies W.loose L (make w) c') :
    Action.LinkedBy W L (EndsLinked W hs t)
      (goesOn s call A (n + 1) p (t.nest σ) bs
        (waiting (.put k v) [.always (waiting (.get k) [.call g])]))
      (goesOn s' call' A' (m + 1) q (t.nest σ') bs'
        (waiting (.put k' v') [.always c'])) := by
  cases hkey : k.keyFault? with
  | some found => exact faults_linked h h' hst hk hkey (.put k v) (.put k' v') rfl rfl _ _
  | none =>
    obtain ⟨m₀, m₀', hσ, hσ', hm, hd⟩ := hst.held h.mem
    obtain ⟨hW, rfl⟩ | ⟨n', rfl, hn'⟩ := henough.step_left
    · rw [goesOn_put_always h hσ hkey, waiting, goesOn_zero]
      exact .exhaustLeft hW _
    · rw [goesOn_put_get h hσ hkey, goesOn_put_always h' hσ' (hk.keyFault?.trans hkey)]
      obtain ⟨hW, hexhaust⟩ | ⟨t, next, hcalled⟩ := hcall.left g [v]
      · rw [hexhaust]
        exact .exhaustLeft hW _
      have hmade : Action.LinkedBy W L (Chain.Varies W.loose)
          (call g [v] >>= Chain.ofValue "binder") (pure c') := by
        refine .of_drawn fun w w' => ?_
        obtain ⟨n, hn, hvalue⟩ := hmake t next w
        rw [hcalled]
        exact ⟨make w, c', n, w'.fresh, hn, Nat.le_refl _, Action.bind_of_value hvalue, rfl, hc w⟩
      have hst' := hst.store (hm.set hk hv) (hd.set k v)
      have hafter := hmade.bind fun M c c' hLM hc => hrest n' (Nat.le_succ n') m hn'
        (p := p + 2) (q := q + 1) (hst'.mono hLM) (hbs.imp fun _ _ hb => hb.mono hLM) hc
      rwa [pure_bind] at hafter

/-- **Modifying twice is modifying by both functions in turn.** -/
theorem modify_modify_goesOn {g g' : Value} {e : Callable} (hk : Counterpart L k k')
    (hf : Varied W.loose L .mapping f f') (hg : Varied W.loose L .mapping g g')
    (he : ∀ s call x, e.applyWith s call [x] = Call.value call f' [x] >>= fun u =>
      Call.value call g' [u]) :
    Action.LinkedBy W L (EndsLinked W hs t)
      (goesOn s call A (n + 1) p (t.nest σ) bs
        (waiting (.modify k f) [.always (waiting (.modify k g) [])]))
      (goesOn s' call' A' (m + 1) q (t.nest σ') bs'
        (waiting (.modify k' (.function e)) [])) := by
  cases hkey : k.keyFault? with
  | some found =>
    exact faults_linked h h' hst hk hkey (.modify k f) (.modify k' _) rfl rfl _ _
  | none =>
    obtain ⟨m₀, m₀', hσ, hσ', hm, hd⟩ := hst.held h.mem
    rw [goesOn_modify h hσ _ hkey, goesOn_modify h' hσ' _ (hk.keyFault?.trans hkey), Call.value]
    obtain ⟨hW, hexhaust⟩ | ⟨t, next, hcalled, hnext⟩ :=
      hcall.right e [(m₀'.lookup k').getD .null]
    · rw [hexhaust]
      exact .exhaustRight hW _
    rw [hcalled, he, bind_assoc]
    refine (callVaried hnext hf
      (.cons (.plain (hm.lookup hk).getD trivial) .nil)).bind fun M x y hLM hxy => ?_
    rw [List.singleton_append, goesOn_always]
    obtain ⟨hW, rfl⟩ | ⟨n', rfl, hn'⟩ := henough.step_left
    · rw [waiting, goesOn_zero]
      exact .exhaustLeft hW _
    · -- The second function is called on what the first one gave.
      rw [goesOn_modify h (Function.update_self _ _ _) _ hkey, Mapping.lookup_set_self]
      refine (callVaried hnext (hg.mono hLM) (.cons hxy .nil)).bind fun N z z' hMN hz => ?_
      have hLN := Link.le_trans hLM hMN
      have hz := Varied.plain_iff.mp hz
      rw [Function.update_idem, Mapping.set_set]
      exact hrest n' (Nat.le_succ n') m hn'
        ((hst.mono hLN).store ((hm.mono hLN).set (hk.mono hLN) hz) (hd.set k z))
        (hbs.imp fun _ _ hb => hb.mono hLN) (.same hz.finished)

omit hcall in
/-- **Storing under unequal keys in either order** leaves the same entries, in another order. -/
theorem put_comm_goesOn {j j' : Value} (hloose : W.loose = true) (hk : Counterpart L k k')
    (hv : Counterpart L v v') (hj : Counterpart L j j') (hu : Counterpart L u u')
    (hkey : k.keyFault? = none) (hkey' : j.keyFault? = none) (hkj : k.same j = false) :
    Action.LinkedBy W L (EndsLinked W hs t)
      (goesOn s call A (n + 1) p (t.nest σ) bs
        (waiting (.put k v) [.always (waiting (.put j u) [])]))
      (goesOn s' call' A' (m + 1) q (t.nest σ') bs'
        (waiting (.put j' u') [.always (waiting (.put k' v') [])])) := by
  obtain ⟨m₀, m₀', hσ, hσ', hm, hd⟩ := hst.held h.mem
  rw [goesOn_put_always h hσ hkey, goesOn_put_always h' hσ' (hj.keyFault?.trans hkey')]
  obtain ⟨hW, rfl⟩ | ⟨hW, rfl⟩ | ⟨n', m', rfl, rfl⟩ := henough.step.cases
  · rw [waiting, goesOn_zero]
    exact .exhaustLeft hW _
  · rw [waiting, waiting, goesOn_zero]
    exact .exhaustRight hW _
  · rw [goesOn_put h (Function.update_self _ _ _) _ hkey',
      goesOn_put h' (Function.update_self _ _ _) _ (hk.keyFault?.trans hkey), Function.update_idem,
      Function.update_idem, List.nil_append, List.nil_append]
    have hnull : Counterpart L Value.null .null := .null
    -- The left side goes on as it does with the keys in the other order.
    have hreordered : Mapping.Alike W.loose ((m₀.set k v).set j u) ((m₀.set j u).set k v) := by
      rw [Value.same_comm] at hkj
      exact .inr ⟨hloose, (hd.set k v).set j u, Mapping.set_comm hkj m₀ v u⟩
    have hsame (a : ι) (_ : a ∈ t.leaves) :
        Shelves (Mapping.Alike W.loose) hs a (σ a) (σ a) := .same _
    have hshelves := Shelves.update hsame (.store h.isStore hreordered)
    have hlinked := hrest n' (Nat.le_succ n') m' henough.step.step (p := p + 2) (q := q + 2)
      (hst.store ((hm.set hj hu).set hk hv) ((hd.set j u).set k v)) hbs (.same hnull.finished)
    refine (Action.LinkedBy.before (goesOn_shelves h (unnoticed_alike W.loose) hshelves _)
      hlinked).mono fun M d d' _ hends => ?_
    obtain ⟨d₁, hd₁, d₂, hd₂, hd'⟩ := hends
    exact ⟨d₂, hd₁.trans hd₂, hd'⟩

omit hcall h h' hst henough hrest hbs

/-! ### One step -/

/-- What came of two offers: the same handler took the effect, to states that are counterparts; or
nobody took it. -/
inductive ClaimLinked (R : Link → Value → Value → Prop) (L : Link) : Claim ι → Claim ι → Prop
  | taken (j : ι) {a a' next next' : Value} (ha : Counterpart L a a') (hn : R L next next') :
    ClaimLinked R L (some (j, a, next)) (some (j, a', next'))
  | left : ClaimLinked R L none none

omit [DecidableEq ι] in
theorem offerEach_linked {call call' : Call} (hcall : CallsLinked W call call')
    {R : Link → Value → Value → Prop} {e e' : Effect} (he : ResumeLinked W L call call' R e e')
    {is : List ι} (hshipped : ∀ j ∈ is, (hs j).Shipped)
    (hhandlers : ∀ j ∈ is, Counterpart L (hs j) (hs' j))
    (hstates : ∀ j ∈ is, Counterpart L (σ j) (σ' j)) :
    Action.LinkedBy W L (ClaimLinked R) (offerEach call hs σ e is)
      (offerEach call' hs' σ' e' is) := by
  induction is generalizing L with
  | nil => exact .pure .left
  | cons j is ih =>
    rw [offerEach_cons, offerEach_cons]
    have hself := List.mem_cons_self (a := j) (l := is)
    have hrest {k : ι} (hk : k ∈ is) := List.mem_cons_of_mem j hk
    refine (offerShipped hcall he (hshipped j hself) (hhandlers j hself) (hstates j hself)).bind
      fun M x x' hLM hx => ?_
    cases hx with
    | handled ha hn => exact .pure (.taken j ha hn)
    | declined =>
      exact ih ⟨he.request.mono hLM, fun hMN ha => he.resume (Link.le_trans hLM hMN) ha⟩
        (fun k hk => hshipped k (hrest hk)) (fun k hk => (hhandlers k (hrest hk)).mono hLM)
        fun k hk => (hstates k (hrest hk)).mono hLM

omit [DecidableEq ι] in
/-- A drive goes on with a chain, or fails. -/
theorem drive_linked (hrest : GoesOnLinked W s s' call call' hs hs' t A A' i n m)
    (hst : StatesLinked hs hs' t i L σ σ') (hv : Varied W.loose L .chain v v') :
    Action.LinkedBy W L (EndsLinked W hs t)
      (drive s (A.offer call) n p (t.nest σ) v)
      (drive s' (A'.offer call') m q (t.nest σ') v') := by
  have hchain {c c' : Chain} (hc : Chain.Varies W.loose L c c') :
      Action.LinkedBy W L (EndsLinked W hs t)
        (drive s (A.offer call) n p (t.nest σ) (.chain c))
        (drive s' (A'.offer call') m q (t.nest σ') (.chain c')) := by
    have hgo := hrest (p := p) (q := q) hst .nil hc
    rwa [goesOn_nil, goesOn_nil] at hgo
  obtain hsame | hwaiting := hv.chain_cases
  · cases Value.shape hsame with
    | chain hc => exact hchain (.same hc)
    | _ =>
      cases n <;> cases m <;>
        exact failType hsame .notChainStep fun _ => .failure fun _ => ⟨trivial, rfl⟩
  · obtain ⟨e, e', r, rfl, rfl⟩ := hwaiting.waiting_cases
    exact hchain (.made hwaiting)

include hcall h h' hst henough hrest hbs

/-- Effects that are counterparts are one step on either side. -/
theorem effect_goesOn {e e' : Effect} (he : Counterpart L e e') (r r' : CapabilitySet) :
    Action.LinkedBy W L (EndsLinked W hs t)
      (goesOn s call A (n + 1) p (t.nest σ) bs (.suspended e r))
      (goesOn s' call' A' (m + 1) q (t.nest σ') bs' (.suspended e' r')) := by
  have hresume : ResumeLinked W L call call'
      (fun M => Varied W.loose M .chain) (e.extend (bs.map .bind)) (e'.extend (bs'.map .bind)) := by
    refine ⟨he.request, fun {M a a'} hLM ha => ?_⟩
    rw [Effect.resume_stages, Effect.resume_stages]
    refine (resume hcall.toCallsLinked (he.mono hLM) ha).bind fun N x x' hMN hx => ?_
    exact stagesVaried hcall.toCallsLinked (hbs.imp fun _ _ hb => hb.mono (Link.le_trans hLM hMN))
      (.plain hx trivial)
  rw [goesOn_suspended, goesOn_suspended, h.arranged.drive_suspended h.nodup,
    h'.arranged.drive_suspended h'.nodup]
  refine (offerEach_linked hcall.toCallsLinked hresume h.shipped hst.handlers hst.states).bind_value
    fun M x x' hLM hx hleft _ => ?_
  cases hx with
  | left => exact Action.LinkedBy.failUnhandled p q (hresume.request.mono hLM)
  | taken j ha hn =>
    simp only [Arranged.afterOffer, h.noteStep, h'.noteStep, pure_bind]
    obtain ⟨w, w', htaken⟩ := hleft
    obtain ⟨m₀, hσ, hd⟩ := hst.holds
    exact drive_linked (hrest n le_rfl m henough.step)
      ((hst.mono hLM).update ha (h.holds hσ hd htaken)) hn

/-- Chains that wait, one with one side of a law and one with the other, or both with
counterparts, go on alike. -/
theorem waiting_goesOn {c c' : Chain} (hc : Varied W.loose L .waiting (.chain c) (.chain c')) :
    Action.LinkedBy W L (EndsLinked W hs t)
      (goesOn s call A (n + 1) p (t.nest σ) bs c)
      (goesOn s' call' A' (m + 1) q (t.nest σ') bs' c') := by
  generalize hx : Value.chain c = x at hc
  generalize hx' : Value.chain c' = x' at hc
  generalize hρ : Role.waiting = ρ at hc
  induction hc generalizing c c' bs bs' with
  | effect he r =>
    cases hx
    cases hx'
    exact effect_goesOn hcall h h' hst henough hrest hbs he r r
  | bindCall _ hf ih =>
    cases hx
    cases hx'
    rw [goesOn_map, goesOn_map]
    exact ih (.cons (.call hf) hbs) rfl rfl rfl
  | bindMap _ hf ih =>
    cases hx
    cases hx'
    rw [goesOn_map, goesOn_map]
    exact ih (.cons (.map hf) hbs) rfl rfl rfl
  | bindAlways _ hc ih =>
    cases hx
    cases hx'
    rw [goesOn_map, goesOn_map]
    exact ih (.cons (.always hc) hbs) rfl rfl rfl
  | bindGather _ hc ih =>
    cases hx
    cases hx'
    rw [goesOn_map, goesOn_map]
    exact ih (.cons (.gather hc) hbs) rfl rfl rfl
  | bindAppend _ hxs ih =>
    cases hx
    cases hx'
    rw [goesOn_map, goesOn_map]
    exact ih (.cons (.append hxs) hbs) rfl rfl rfl
  | @declared e e' r s _ ih =>
    cases hx
    cases hx'
    rw [goesOn_declared e s r, goesOn_declared e' s r]
    exact ih hbs rfl rfl rfl
  | modify hk hf =>
    cases hx
    cases hx'
    exact modify_linked hcall h h' hst henough hrest hbs hk hf
  | modify_get_put hk hf hg =>
    cases hx
    cases hx'
    exact modify_get_put_goesOn hcall h h' hst henough hrest hbs hk hf hg
  | put_put hk hu hc =>
    cases hx
    cases hx'
    exact put_put_goesOn h h' hst henough hrest hbs hk hu hc
  | put_get hk hv hg hh =>
    cases hx
    cases hx'
    exact put_get_goesOn hcall h h' hst henough hrest hbs hk hv hg hh
  | put_get_built hk hv hmake hc =>
    cases hx
    cases hx'
    exact put_get_built_goesOn hcall h h' hst henough hrest hbs hk hv hmake hc
  | modify_modify hk hf hg hh =>
    cases hx
    cases hx'
    exact modify_modify_goesOn hcall h h' hst henough hrest hbs hk hf hg hh
  | put_comm hloose hk hv hj hu hkey hkey' hkj =>
    cases hx
    cases hx'
    exact put_comm_goesOn h h' hst henough hrest hbs hloose hk hv hj hu hkey hkey' hkj
  | plain _ hplain =>
    subst hρ
    cases hplain
  | _ => cases hρ

omit hcall h h' hst henough hrest hbs

/-! ### Whole drives -/

include hcall h h' in
/-- **Drives of chains that vary go on alike**, where the side that is not bounded has enough
steps. -/
theorem goesOn_linked (n m : Nat) (henough : W.Enough n m) :
    GoesOnLinked W s s' call call' hs hs' t A A' i n m := by
  induction n using Nat.strong_induction_on generalizing m with
  | _ n ih =>
    intro L p q σ σ' bs bs' c c' hst hbs hc
    refine (continuedMade hcall.toCallsLinked hbs hc).bind fun M d d' hLM hd => ?_
    have hst := hst.mono hLM
    have hwait {e e' : Effect} {r : CapabilitySet} (he : Varied W.loose M .waiting
        (.chain (.suspended e r)) (.chain (.suspended e' r))) :
        Action.LinkedBy W M (EndsLinked W hs t)
          (drive s (A.offer call) n p (t.nest σ) (.chain (.suspended e r)))
          (drive s' (A'.offer call') m q (t.nest σ') (.chain (.suspended e' r))) := by
      obtain ⟨hW, rfl⟩ | ⟨hW, rfl⟩ | ⟨n, m, rfl, rfl⟩ := henough.cases
      · exact .exhaustLeft hW _
      · exact .exhaustRight hW _
      · have hgo := waiting_goesOn hcall h h' (p := p) (q := q) hst henough
          (fun n' hn' m' => ih n' (Nat.lt_succ_of_le hn') m') .nil he
        rwa [goesOn_nil, goesOn_nil] at hgo
    obtain ⟨x, x', hx, hx', hsame⟩ | hwaiting := Varied.made_cases hd
    · cases hx
      cases hx'
      cases Chain.shape hsame with
      | done r hv =>
        rw [drive_done, drive_done]
        exact .pure ⟨_, ⟨rfl, rfl, σ, σ, rfl, rfl, fun _ _ => .same _⟩, hv, hst.nest⟩
      | suspended r he => exact hwait (.effect he r)
    · obtain ⟨e, e', r, he, he'⟩ := hwaiting.waiting_cases
      cases he
      cases he'
      exact hwait hwaiting

end

end EffectHandlers
