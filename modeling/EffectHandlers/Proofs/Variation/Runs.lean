/-
EffectHandlers/Proofs/Variation/Runs.lean

Runs of programs that vary.

A handler that is a combination of handlers of the library with a store among
them has counterparts of the same kind.  So a run of a chain is linked to
the run of a chain that varies from it, against a handler and its
counterpart: the capabilities that are checked are the same, both runs
begin in states that are counterparts, the drives are linked, and the
handlers finish with outputs that are counterparts, but for the order of the
keys that stores hold.

Main result: `run_linked`.
-/
import Mathlib.Data.List.Find
import EffectHandlers.Proofs.Variation.Drives

namespace EffectHandlers

open Action.LinkedBy hiding pure bind fail map

/-! ### Counterparts of handlers -/

section

variable {L : Link} {a a' : Handler}

theorem Counterpart.isStore (h : Counterpart L a a') : a'.isStore = a.isStore := by
  cases Handler.shape h <;> rfl

theorem Counterpart.shipped (h : Counterpart L a a') (ha : a.Shipped) : a'.Shipped := by
  cases Handler.shape h with
  | collector => exact .collector _
  | emitter => exact .emitter _ _ _
  | transcript => exact .transcript _ _
  | stream => exact .stream _ _
  | store => exact .store _ _
  | counter => exact .counter _
  | _ => cases ha

/-- Keys that are unequal have unequal counterparts. -/
theorem Counterpart.distinct {m m' : Mapping} (h : Counterpart L m m') (hm : m.Distinct) :
    m'.Distinct := by
  have hentries := counterpart_list.mp h
  have hkeys : List.Forall₂ (Counterpart L) m.keys m'.keys := by
    refine List.forall₂_map_left_iff.mpr (List.forall₂_map_right_iff.mpr (hentries.imp ?_))
    exact fun _ _ he => (counterpart_prod.mp he).1
  obtain ⟨hlength, hget⟩ := List.forall₂_iff_get.mp hkeys
  rw [Mapping.Distinct, List.pairwise_iff_getElem] at hm ⊢
  intro i j hi hj hij
  rw [← hlength] at hi hj
  exact ((hget i hi _).same (hget j hj _)).trans (hm i j hi hj hij)

end

section

variable {ι : Type} {hs hs' : ι → Handler} {t : Shape ι} {A A' : Handler} {i : ι} {L : Link}

theorem Arranged.congr (h : Arranged hs t A) (hhs : ∀ j ∈ t.leaves, hs j = hs' j) :
    Arranged hs' t A := by
  induction h with
  | leaf j =>
    rw [hhs j (List.mem_singleton.mpr rfl)]
    exact .leaf j
  | pair id _ _ ihl ihr =>
    exact .pair id (ihl fun j hj => hhs j (List.mem_append_left _ hj))
      (ihr fun j hj => hhs j (List.mem_append_right _ hj))

variable [DecidableEq ι]

/-- A counterpart of a combination is a combination of counterparts. -/
theorem Arranged.counterpart (h : Arranged hs t A) (hn : t.leaves.Nodup)
    (hA : Counterpart L A A') :
    ∃ hs' : ι → Handler, Arranged hs' t A' ∧ ∀ j ∈ t.leaves, Counterpart L (hs j) (hs' j) := by
  induction h generalizing A' with
  | leaf i =>
    refine ⟨fun _ => A', .leaf i, fun j hj => ?_⟩
    rw [List.mem_singleton.mp hj]
    exact hA
  | @pair left right a b id _ _ ihl ihr =>
    obtain ⟨hnl, hnr, hdisjoint⟩ := List.nodup_append.mp hn
    cases Handler.shape hA with
    | pair _ hfirst hsecond =>
      obtain ⟨f, hf, hleft⟩ := ihl hnl hfirst
      obtain ⟨g, hg, hright⟩ := ihr hnr hsecond
      -- No name stands on both sides.
      let both (j : ι) : Handler := if j ∈ left.leaves then f j else g j
      have hf' (j : ι) (hj : j ∈ left.leaves) : f j = both j := (if_pos hj).symm
      have hg' (j : ι) (hj : j ∈ right.leaves) : g j = both j :=
        (if_neg fun hj' => hdisjoint j hj' j hj rfl).symm
      refine ⟨both, .pair _ (hf.congr hf') (hg.congr hg'), fun j hj => ?_⟩
      rcases List.mem_append.mp hj with hj | hj
      · rw [← hf' j hj]
        exact hleft j hj
      · rw [← hg' j hj]
        exact hright j hj

/-- **A counterpart of handlers with a store is one.** -/
theorem Served.counterpart {s s' : Settings} (h : Served s hs t A i) (hlog : s'.logSteps = false)
    (hA : Counterpart L A A') :
    ∃ hs' : ι → Handler, Served s' hs' t A' i ∧ ∀ j ∈ t.leaves, Counterpart L (hs j) (hs' j) := by
  obtain ⟨hs', harranged, hhs⟩ := h.arranged.counterpart h.nodup hA
  refine ⟨hs', ⟨hlog, harranged, h.nodup, fun j hj => (hhs j hj).shipped (h.shipped j hj),
    ?_, fun {id initial} hstore => ?_⟩, hhs⟩
  · rw [← h.first]
    exact List.find?_congr fun j hj => (hhs j hj).isStore
  · have hi := hhs i h.mem
    rw [hstore] at hi
    generalize hx : hs i = x at hi
    cases Handler.shape hi with
    | store _ hinitial => exact hinitial.distinct (h.distinct hx)

omit [DecidableEq ι] in
theorem Counterpart.of_nest {σ σ' : ι → Value} (h : Counterpart L (t.nest σ) (t.nest σ')) :
    ∀ j ∈ t.leaves, Counterpart L (σ j) (σ' j) := by
  induction t with
  | leaf i =>
    intro j hj
    rw [List.mem_singleton.mp hj]
    exact h
  | pair left right ihl ihr =>
    cases Value.shape h with
    | tuple hparts =>
      obtain ⟨_, _, heq, hleft, hrest⟩ := hparts.cons_left
      obtain ⟨_, _, heq', hright, -⟩ := hrest.cons_left
      cases heq
      cases heq'
      intro j hj
      exact (List.mem_append.mp hj).elim (ihl hleft j) (ihr hright j)

/-! ### Runs -/

omit [DecidableEq ι] in
/-- Results of runs have their role: they are counterparts, but for the order of keys if it is let
loose. -/
theorem Shelves.Results.varied {loose : Bool} {v v₁ v' : Value}
    (h : Shelves.Results (Mapping.Alike loose) hs t v v₁) (hv : Counterpart L v₁ v') :
    Varied loose L (.ofRun loose) v v' := by
  obtain ⟨x, o, o', rfl, rfl, ho⟩ := h
  cases Value.shape hv with
  | result hx ho' =>
    have hreordered := Shelves.reordered ho
    cases loose with
    | true => exact .outcome hx hreordered ho'
    | false => exact .plain (hx.result (hreordered.eq_of_strict ▸ ho')) trivial

omit [DecidableEq ι] in
/-- Chains that vary declare the same. -/
theorem Chain.Varies.requires {loose : Bool} {c c' : Chain} (h : Chain.Varies loose L c c') :
    c'.requires = c.requires := by
  obtain ⟨d, d', hd, hd', hsame⟩ | hwaiting := Varied.made_cases h
  · cases hd
    cases hd'
    exact hsame.requires
  · obtain ⟨e, e', r, he, he'⟩ := hwaiting.waiting_cases
    cases he
    cases he'
    rfl

variable {W : Comparing} {s s' : Settings} {call call' : Call}

/-- The states in which runs begin. -/
theorem openRun_linked (hcall : CallsLinked W call call') (h : Served s hs t A i)
    (h' : Served s' hs' t A' i) (hA : Counterpart L A A')
    (hhs : ∀ j ∈ t.leaves, Counterpart L (hs j) (hs' j)) :
    Action.LinkedBy W L (fun M state state' => ∃ σ σ', state = t.nest σ ∧ state' = t.nest σ' ∧
        StatesLinked hs hs' t i M σ σ')
      (openRun call A) (EffectHandlers.openRun call' A') := by
  obtain ⟨id, initial, hstore⟩ := Handler.isStore_iff.mp h.isStore
  obtain ⟨id', initial', hstore'⟩ := Handler.isStore_iff.mp h'.isStore
  refine (start hcall A hA).bind_value fun M a a' hLM ha hleft hright => ?_
  obtain ⟨w, w₁, hw⟩ := hleft
  obtain ⟨w', w₁', hw'⟩ := hright
  obtain ⟨σ, rfl, hσ⟩ := start_store h.arranged h.nodup h.mem hstore hw
  obtain ⟨σ', rfl, -⟩ := start_store h'.arranged h'.nodup h'.mem hstore' hw'
  refine (note _ _ _ _).map fun N _ _ hMN _ => ⟨σ, σ', rfl, rfl, ?_⟩
  exact ⟨fun j hj => (hhs j hj).mono (Link.le_trans hLM hMN), (ha.mono hMN).of_nest,
    initial, hσ, h.distinct hstore⟩

end

/-- **Runs of chains that vary come to the same**, against handlers of the library with a store and
their counterparts. -/
theorem run_linked {W : Comparing} {L : Link} {s s' : Settings} {call call' : Call}
    (hfits : W.Fits s s') (hcall : CallsUnfolded W call call') {A A' : Handler}
    (hlibrary : A.OfLibrary) (hstore : A.HasStore) (hA : Counterpart L A A') {c c' : Chain}
    (hc : Chain.Varies W.loose L c c') :
    Action.LinkedBy W L (fun M => Varied W.loose M (.ofRun W.loose)) (run s call c A)
      (run s' call' c' A') := by
  obtain ⟨hs, t, i, -, h⟩ := exists_served hfits.left hlibrary hstore
  obtain ⟨hs', h', hhs⟩ := h.counterpart hfits.right hA
  refine (Action.LinkedBy.checkProvided hc.requires hA).bind fun M _ _ hLM _ => ?_
  refine (openRun_linked hcall.toCallsLinked h h' (hA.mono hLM)
    fun j hj => (hhs j hj).mono hLM).bind fun N state state' hMN hstates => ?_
  obtain ⟨σ, σ', rfl, rfl, hst⟩ := hstates
  have hLN := Link.le_trans hLM hMN
  have hgo := goesOn_linked hcall h h' s.maxSteps s'.maxSteps hfits.enough (p := 0) (q := 0) hst
    .nil (Varied.mono hc hLN)
  rw [goesOn_nil, goesOn_nil] at hgo
  refine hgo.bind fun N' d d' hNN hends => ?_
  obtain ⟨d₁, hd₁, hd'⟩ := hends
  refine (Action.LinkedBy.before (closeRun_shelves h.arranged h.nodup hd₁)
    (Action.LinkedBy.closeRun hcall.toCallsLinked (hA.mono (Link.le_trans hLN hNN)) hd')).mono
      fun M' v v' _ hv => ?_
  obtain ⟨v₁, hv₁, hv'⟩ := hv
  exact hv₁.varied hv'

end EffectHandlers
