/-
EffectHandlers/Proofs/StandIn.lean

One handler in the place of another one.

A combination is run twice, with one handler in one of its slots and with
another handler in the same slot, everything else being the same.  The two
handlers interpret one kind of request; they answer alike, but they keep
their books in different ways: one of them in its state, the other one in a
stream that it reads from and in events that it adds (`StandIn`).

Then the runs go in step.  Their worlds differ in what is left to read from
the stream and in events; the second run has added the events of the first
one, woven with one record for each request that the handler in the slot had
to do with.  The last one of them may be the one that the run failed on.

Nothing but the second handler may have to do with the stream.  So this is a
hypothesis on the calls that the first run makes (`callsInRun`).

Main result: two runs in step (`StandIn.run_inStep`).
-/
import EffectHandlers.Proofs.Offerings
import EffectHandlers.Proofs.Protocol

namespace EffectHandlers

variable {ι : Type} {source : Option Nat} {w u : World}

/-! ### Values that differ at a slot -/

/-- Two families of values that are the same but for a slot. -/
structure Shape.Differ (t : Shape ι) (slot : ι) (a b : Value) (σ τ : ι → Value) : Prop where
  others (i : ι) (hi : i ∈ t.leaves) (hne : i ≠ slot) : τ i = σ i
  first : slot ∈ t.leaves → σ slot = a
  second : slot ∈ t.leaves → τ slot = b

/-! ### Standing in -/

/-- A second handler can stand in for a first one.  Both interpret one kind of request; their
states after some requests are given, and the second one finds in a stream what is left to read
after them.  On another request both resume it with the same answer, the second one after it has
added a record or not; or both fail. -/
structure StandIn (source : Option Nat) (call : Call) (A B : Handler) where
  kind : Kind
  fits : Effect → Prop
  fault : Failure → Failure → Prop
  before : List Effect → Value
  after : List Effect → Value
  left : List Effect → List Char
  record : Effect → Option Event
  result : List Effect → Value
  result' : List Effect → Value
  fault_refl (f : Failure) : fault f f
  capabilities : B.capabilities = A.capabilities
  start : A.start call = pure (before []) ∧ B.start call = pure (after [])
  simple : A.Simple kind ∧ B.Simple kind
  takes (es : List Effect) {e : Effect} (hk : e.request.isA kind = true) (he : fits e)
    {u : World} (hu : u.remaining source = left es) :
    (∃ (x : Action Value) (u' : World), Regular x ∧ u'.core source = u.core source ∧
      u'.remaining source = left (es ++ [e]) ∧ u'.events = (record e).toList ++ u.events ∧
      A.offer call (before es) e
        = (x >>= fun next => pure (.handled (before (es ++ [e])) next)) ∧
      B.offer call (after es) e u
        = (x >>= fun next => pure (.handled (after (es ++ [e])) next)) u') ∨
    ∃ (f f' : Failure) (u' : World), fault f f' ∧ record e = none ∧ u'.events = u.events ∧
      A.offer call (before es) e = Action.fail f ∧
      B.offer call (after es) e u = .failed f' u'
  visible {e : Effect} {r : Event} (hr : record e = some r) : r.isVisible = true
  finish {es : List Effect} (hk : ∀ e ∈ es, e.request.isA kind = true) (he : ∀ e ∈ es, fits e) :
    A.finish call (before es) = pure (result es) ∧ B.finish call (after es) = pure (result' es)

/-- On a request of its kind a simple handler takes a step. -/
theorem Handler.whenKind_of_kind {k : Kind} {e : Effect} (hk : e.request.isA k = true)
    (step : Action (Value × Value)) :
    Handler.whenKind k e step = step >>= fun p => pure (.handled p.1 p.2) := by
  rw [Handler.whenKind, if_pos hk]
  rfl

namespace StandIn

variable {s : Settings} {A B : Handler}
  (D : StandIn source (Callable.meaning s) A B) {hs : ι → Handler} {slot : ι} {t : Shape ι}

/-- The records of some requests, newest first. -/
def records (es : List Effect) : List Event := (es.filterMap D.record).reverse

theorem records_append (es es' : List Effect) :
    D.records (es ++ es') = D.records es' ++ D.records es := by
  simp [records]

theorem records_singleton (e : Effect) : D.records [e] = (D.record e).toList := by
  cases h : D.record e <;> simp [records, h]

theorem filter_record (e : Effect) :
    (D.record e).toList.filter (·.isVisible) = (D.record e).toList := by
  cases h : D.record e with
  | none => rfl
  | some r => simp [D.visible h]

/-- The two runs of a stand-in after some requests have come to the slot. -/
structure Paired (t : Shape ι) (slot : ι) (es : List Effect) (σ τ : ι → Value) (w u : World) :
    Prop where
  states : t.Differ slot (D.before es) (D.after es) σ τ
  parallel : World.Parallel source (D.left es) w u

variable {es : List Effect} {σ τ : ι → Value} {e : Effect}

/-- What happens at the slot. -/
theorem slot_inStep (hp : D.Paired t slot es σ τ w u) (hk : e.request.isA D.kind = true)
    (he : D.fits e) (hclear : Clear source (A.offer (Callable.meaning s) (D.before es) e) w) :
    (A.offer (Callable.meaning s) (D.before es) e w).InStep D.fault (D.records [e]) w u
      (fun v v' w' u' => ∃ next, v = .handled (D.before (es ++ [e])) next ∧
        v' = .handled (D.after (es ++ [e])) next ∧
        World.Parallel source (D.left (es ++ [e])) w' u')
      (B.offer (Callable.meaning s) (D.after es) e u) := by
  rw [D.records_singleton]
  rcases D.takes es hk he hp.parallel.remaining with
    ⟨x, u', hx, hcore, hremaining, hevents, hfirst, hsecond⟩ |
    ⟨f, f', u', hfault, hnone, hevents, hfirst, hsecond⟩
  · rw [hfirst] at hclear
    have hclear : Clear source x w := hclear.of_map fun _ _ h => (Value.handled.inj h).2
    have hwoven : World.Woven (D.record e).toList w u w u' :=
      ⟨[], _, rfl, hevents, by rw [D.filter_record]; exact .to_nil _⟩
    have hstep := hx.parallel hclear
      ⟨hp.parallel.core.trans hcore.symm, hremaining, hp.parallel.provides⟩ D.fault_refl
    rw [hfirst, hsecond, Action.bind_apply, Action.bind_apply]
    refine Outcome.InStep.after ?_ hwoven
    generalize x w = o at hstep
    generalize x u' = o' at hstep
    cases hstep with
    | value related woven =>
      obtain ⟨rfl, h⟩ := related
      exact .value ⟨_, rfl, rfl, h⟩ woven
    | failed fault woven => exact .failed fault woven
    | exhausted => exact .exhausted
  · rw [hfirst, hsecond, hnone]
    exact .failed hfault ⟨[], [], rfl, hevents, .nil⟩

end StandIn

variable [DecidableEq ι]

/-! ### Visits -/

theorem Shape.Differ.nest_eq {t : Shape ι} {slot : ι} {a b : Value} {σ τ : ι → Value}
    (h : t.Differ slot a b σ τ) : t.nest τ = t.nest (Function.update σ slot b) := by
  refine nest_congr fun i hi => ?_
  by_cases hne : i = slot
  · subst hne
    rw [Function.update_self, h.second hi]
  · rw [Function.update_of_ne hne, h.others i hi hne]

/-- Values that differ at a slot, exchanged there. -/
theorem Shape.Differ.update {t : Shape ι} {slot : ι} {a b : Value} {σ τ : ι → Value}
    (h : t.Differ slot a b σ τ) (a' b' : Value) :
    t.Differ slot a' b' (Function.update σ slot a') (Function.update τ slot b') where
  others i hi hne := by
    rw [Function.update_of_ne hne, Function.update_of_ne hne, h.others i hi hne]
  first _ := Function.update_self ..
  second _ := Function.update_self ..

theorem Shape.Differ.parts {t : Shape ι} {slot : ι} {a b : Value}
    {o o' : ι → Value} (hn : t.leaves.Nodup) (h : t.Differ slot a b o o') :
    t.Differ slot a b (t.parts (t.nest o)) (t.parts (t.nest o')) where
  others i hi hne := by rw [parts_nest hn hi, parts_nest hn hi, h.others i hi hne]
  first hi := by rw [parts_nest hn hi, h.first hi]
  second hi := by rw [parts_nest hn hi, h.second hi]

/-- Two sides of a pair. -/
theorem Shape.Differ.pair {left right : Shape ι} {slot : ι} {a b : Value}
    {σ τ σ' τ' : ι → Value} (hn : (Shape.pair left right).leaves.Nodup)
    (hl : left.Differ slot a b σ τ) (hr : right.Differ slot a b σ' τ') :
    ∃ o o', (Shape.pair left right).nest o = .tuple [left.nest σ, right.nest σ'] ∧
      (Shape.pair left right).nest o' = .tuple [left.nest τ, right.nest τ'] ∧
      (Shape.pair left right).Differ slot a b o o' := by
  obtain ⟨-, -, hdisjoint⟩ := List.nodup_append.mp hn
  let join (σ σ' : ι → Value) (i : ι) : Value := if i ∈ left.leaves then σ i else σ' i
  have hleft (σ σ' : ι → Value) (i : ι) (hi : i ∈ left.leaves) : join σ σ' i = σ i := if_pos hi
  have hright (σ σ' : ι → Value) (i : ι) (hi : i ∈ right.leaves) : join σ σ' i = σ' i :=
    if_neg fun hi' => hdisjoint i hi' i hi rfl
  refine ⟨join σ σ', join τ τ', ?_, ?_, fun i hi hne => ?_, fun hi => ?_, fun hi => ?_⟩
  · rw [nest, nest_congr (hleft σ σ'), nest_congr (hright σ σ')]
  · rw [nest, nest_congr (hleft τ τ'), nest_congr (hright τ τ')]
  · rcases List.mem_append.mp hi with hi | hi
    · rw [hleft σ σ' i hi, hleft τ τ' i hi, hl.others i hi hne]
    · rw [hright σ σ' i hi, hright τ τ' i hi, hr.others i hi hne]
  · rcases List.mem_append.mp hi with hi | hi
    · rw [hleft σ σ' slot hi, hl.first hi]
    · rw [hright σ σ' slot hi, hr.first hi]
  · rcases List.mem_append.mp hi with hi | hi
    · rw [hleft τ τ' slot hi, hl.second hi]
    · rw [hright τ τ' slot hi, hr.second hi]

/-- Visits that are the same but for a slot, where each gives a value at once. -/
theorem Shape.visit_inStep {fault : Failure → Failure → Prop} {x y : ι → Action Value}
    {a b : Value} (slot : ι) {t : Shape ι} {text : List Char} (hn : t.leaves.Nodup)
    (hfault : ∀ f, fault f f) (hregular : ∀ i, Regular (x i))
    (hsame : ∀ i ∈ t.leaves, i ≠ slot → y i = x i)
    (hslot : slot ∈ t.leaves → x slot = pure a ∧ y slot = pure b)
    (hclear : ∀ p ∈ t.calls x w, p.Clear source) (h : World.Parallel source text w u) :
    (t.visit x w).InStep fault [] w u (fun v v' w' u' => (∃ o o', v = t.nest o ∧ v' = t.nest o' ∧
      t.Differ slot a b o o') ∧ World.Parallel source text w' u') (t.visit y u) := by
  induction t generalizing w u with
  | leaf i =>
    by_cases hi : i = slot
    · subst hi
      obtain ⟨hx, hy⟩ := hslot (List.mem_singleton.mpr rfl)
      rw [visit, visit, hx, hy]
      refine .value ⟨⟨fun _ => a, fun _ => b, rfl, rfl, fun j hj hne => ?_, fun _ => rfl,
        fun _ => rfl⟩, h⟩ (.refl w u)
      exact absurd (List.mem_singleton.mp hj) hne
    · rw [visit, visit, hsame i (List.mem_singleton.mpr rfl) hi]
      have hclear : Clear source (x i) w := hclear ⟨x i, w⟩ (List.mem_singleton.mpr rfl)
      refine ((hregular i).parallel hclear h hfault).mono fun v v' w' u' h => ?_
      obtain ⟨rfl, h⟩ := h
      have hnot (h : slot ∈ (Shape.leaf i).leaves) : False := hi (List.mem_singleton.mp h).symm
      exact ⟨⟨fun _ => v', fun _ => v', rfl, rfl, fun _ _ _ => rfl, fun h => (hnot h).elim,
        fun h => (hnot h).elim⟩, h⟩
  | pair left right ihl ihr =>
    obtain ⟨hnl, hnr, -⟩ := List.nodup_append.mp hn
    rw [visit_pair, visit_pair]
    refine (ihl hnl (fun i hi => hsame i (List.mem_append_left _ hi))
      (fun hi => hslot (List.mem_append_left _ hi))
      (fun p hp => hclear p (List.mem_append_left _ hp)) h).bind fun v v' w' u' hv h => ?_
    obtain ⟨⟨σ, τ, rfl, rfl, hl⟩, h⟩ := h
    have hright (p : Performed) (hp : p ∈ right.calls x w') : p.Clear source := by
      refine hclear p (List.mem_append_right _ ?_)
      rwa [hv]
    refine (ihr hnr (fun i hi => hsame i (List.mem_append_right _ hi))
      (fun hi => hslot (List.mem_append_right _ hi)) hright h).bind fun v v' w'' u'' _ h => ?_
    obtain ⟨⟨σ', τ', rfl, rfl, hr⟩, h⟩ := h
    obtain ⟨o, o', ho, ho', hdiffer⟩ := hl.pair hn hr
    exact .value ⟨⟨o, o', ho.symm, ho'.symm, hdiffer⟩, h⟩ (.refl _ _)

/-! ### Offers -/

namespace StandIn

variable {s : Settings} {A B : Handler} (D : StandIn source (Callable.meaning s) A B)
  {hs : ι → Handler} {slot : ι} {t : Shape ι} {es : List Effect} {σ τ : ι → Value} {e : Effect}

/-- Claims in the two runs: by the same handler, with the same to come next. -/
def Claimed (t : Shape ι) (slot : ι) (es : List Effect) (σ τ : ι → Value) :
    Claim ι → Claim ι → World → World → Prop
  | some (i, state, next), some (j, state', next'), w, u =>
    j = i ∧ next' = next ∧
      D.Paired t slot es (Function.update σ i state) (Function.update τ i state') w u
  | none, none, _, _ => True
  | _, _, _, _ => False

/-- A handler that takes an effect gets a new state. -/
theorem Paired.update {i : ι} (hp : D.Paired t slot es σ τ w u) (hne : i ≠ slot)
    (state : Value) :
    D.Paired t slot es (Function.update σ i state) (Function.update τ i state) w u where
  states := by
    refine ⟨fun j hj hne' => ?_, fun hslot => ?_, fun hslot => ?_⟩
    · by_cases hji : j = i
      · rw [hji, Function.update_self, Function.update_self]
      · rw [Function.update_of_ne hji, Function.update_of_ne hji, hp.states.others j hj hne']
    · rw [Function.update_of_ne (Ne.symm hne), hp.states.first hslot]
    · rw [Function.update_of_ne (Ne.symm hne), hp.states.second hslot]
  parallel := hp.parallel

/-- The offers of an effect go in step, from a moment on: the same handler takes it, and it comes to
the slot only if it is of its kind. -/
def OffersInStep (hs : ι → Handler) (t : Shape ι) (slot : ι) (es : List Effect) (σ τ : ι → Value)
    (e : Effect) (is : List ι) (w u : World) : Prop :=
  let call := Callable.meaning s
  let hsA := Function.update hs slot A
  let hsB := Function.update hs slot B
  let come := comes slot e (claimant call hsA σ e is w)
  (offerEach call hsA σ e is w).InStep D.fault (D.records come) w u
      (D.Claimed t slot (es ++ come) σ τ) (offerEach call hsB τ e is u) ∧
    claimant call hsB τ e is u = claimant call hsA σ e is w ∧
    ∀ e' ∈ come, e'.request.isA D.kind = true

variable {is : List ι}

/-- At the slot, an effect of another kind goes further. -/
theorem offersInStep_slot_declined (hk : e.request.isA D.kind = false)
    (hrest : D.OffersInStep hs t slot es σ τ e is w u) :
    D.OffersInStep hs t slot es σ τ e (slot :: is) w u := by
  have hA : (Function.update hs slot A slot).offer (Callable.meaning s) (σ slot) e
      = pure .declined := by
    rw [Function.update_self]
    exact D.simple.1.offer_of_other hk _
  have hB : (Function.update hs slot B slot).offer (Callable.meaning s) (τ slot) e
      = pure .declined := by
    rw [Function.update_self]
    exact D.simple.2.offer_of_other hk _
  rw [OffersInStep, claimant_of_declined hA, offerEach_of_declined hA, offerEach_of_declined hB,
    claimant_of_declined hB]
  exact hrest

/-- At the slot, an effect of its kind goes no further. -/
theorem offersInStep_slot (hslot : slot ∈ t.leaves) (hp : D.Paired t slot es σ τ w u)
    (hk : e.request.isA D.kind = true) (he : D.fits e)
    (hclear : Clear source (A.offer (Callable.meaning s) (D.before es) e) w) (is : List ι) :
    D.OffersInStep hs t slot es σ τ e (slot :: is) w u := by
  have hfirst : Function.update hs slot A slot = A := Function.update_self ..
  have hsecond : Function.update hs slot B slot = B := Function.update_self ..
  have hA : (Function.update hs slot A slot).Simple D.kind := hfirst.symm ▸ D.simple.1
  have hB : (Function.update hs slot B slot).Simple D.kind := hsecond.symm ▸ D.simple.2
  have hcome : comes slot e (some slot) = [e] := if_pos rfl
  have hstep := D.slot_inStep hp hk he hclear
  rw [OffersInStep, claimant_of_kind hA hk, hcome]
  refine ⟨?_, claimant_of_kind hB hk .., fun e' he' => List.mem_singleton.mp he' ▸ hk⟩
  rw [offerEach_cons, hfirst, hp.states.first hslot, offerEach_cons, hsecond,
    hp.states.second hslot, Action.bind_apply, Action.bind_apply]
  generalize A.offer (Callable.meaning s) (D.before es) e w = o at hstep ⊢
  generalize B.offer (Callable.meaning s) (D.after es) e u = o' at hstep ⊢
  cases hstep with
  | value related woven =>
    obtain ⟨next, rfl, rfl, hparallel⟩ := related
    exact .value ⟨rfl, rfl, hp.states.update _ _, hparallel⟩ woven
  | failed fault woven => exact .failed fault woven
  | exhausted => exact .exhausted

/-- Elsewhere the same handler is asked in the same state. -/
theorem offersInStep_elsewhere {i : ι} (hi : i ∈ t.leaves) (hne : i ≠ slot)
    (hp : D.Paired t slot es σ τ w u)
    (hclear : ∀ p ∈ offerCalls (Callable.meaning s) (Function.update hs slot A) σ e (i :: is) w,
      p.Clear source)
    (hfits : ∀ e' ∈ comes slot e
      (claimant (Callable.meaning s) (Function.update hs slot A) σ e (i :: is) w), D.fits e')
    (hrest : ∀ {w u : World}, D.Paired t slot es σ τ w u →
      (∀ p ∈ offerCalls (Callable.meaning s) (Function.update hs slot A) σ e is w,
        p.Clear source) →
      (∀ e' ∈ comes slot e
        (claimant (Callable.meaning s) (Function.update hs slot A) σ e is w), D.fits e') →
      D.OffersInStep hs t slot es σ τ e is w u) :
    D.OffersInStep hs t slot es σ τ e (i :: is) w u := by
  have hfirst : Function.update hs slot A i = hs i := Function.update_of_ne hne ..
  have hsecond : Function.update hs slot B i = hs i := Function.update_of_ne hne ..
  have hstate : τ i = σ i := hp.states.others i hi hne
  have hnobody : comes slot e (some i) = [] := if_neg fun h => hne (Option.some.inj h)
  rw [offerCalls, hfirst] at hclear
  have hstep := (regular_offer s (hs i) (σ i) e).parallel (hclear _ List.mem_cons_self)
    hp.parallel D.fault_refl
  rw [claimant, hfirst] at hfits
  rw [OffersInStep, claimant, hfirst, claimant, hsecond, offerEach_cons, hfirst, offerEach_cons,
    hsecond, hstate, Action.bind_apply, Action.bind_apply]
  generalize (hs i).offer (Callable.meaning s) (σ i) e u = o' at hstep ⊢
  cases hv : (hs i).offer (Callable.meaning s) (σ i) e w with
  | value v w' =>
    rw [hv] at hstep hfits
    cases hstep with
    | @value _ v _ u' related woven =>
    obtain ⟨rfl, hparallel⟩ := related
    rcases hclaim : v.claim i with _ | ⟨j, state, next⟩
    · simp only [hv, hclaim, Option.isSome_none, Bool.false_eq_true, if_false]
        at hfits hclear ⊢
      obtain ⟨hlater, hsame, hkind⟩ := hrest ⟨hp.states, hparallel⟩
        (fun p hp => hclear p (List.mem_cons_of_mem _ hp)) hfits
      refine ⟨?_, hsame, hkind⟩
      have h := hlater.trans woven
      rwa [List.append_nil] at h
    · have hj : j = i := by
        cases v <;> cases hclaim
        rfl
      subst hj
      simp only [hclaim, Option.isSome_some, if_true, hnobody, List.append_nil]
      have hp' : D.Paired t slot es σ τ w' u' := ⟨hp.states, hparallel⟩
      exact ⟨.value ⟨rfl, rfl, hp'.update D hne _⟩ woven, trivial, by simp⟩
  | failed f w' =>
    rw [hv] at hstep
    cases hstep with
    | failed fault woven =>
      simp only [hnobody, List.append_nil]
      exact ⟨.failed fault woven, trivial, by simp⟩
  | exhausted =>
    rw [hv] at hstep
    cases hstep with
    | exhausted =>
      simp only [hnobody, List.append_nil]
      exact ⟨.exhausted, trivial, by simp⟩

/-- **Offers in step**, by induction on the handlers that are asked. -/
theorem offerEach_inStep (hsub : ∀ i ∈ is, i ∈ t.leaves)
    (hp : D.Paired t slot es σ τ w u)
    (hclear : ∀ p ∈ offerCalls (Callable.meaning s) (Function.update hs slot A) σ e is w,
      p.Clear source)
    (hfits : ∀ e' ∈ comes slot e
      (claimant (Callable.meaning s) (Function.update hs slot A) σ e is w), D.fits e') :
    D.OffersInStep hs t slot es σ τ e is w u := by
  induction is generalizing w u with
  | nil => exact ⟨.value trivial (.refl w u), rfl, by simp [claimant, comes]⟩
  | cons i is ih =>
    have hi : i ∈ t.leaves := hsub i List.mem_cons_self
    have ih {w u : World} := ih (w := w) (u := u) fun j hj => hsub j (List.mem_cons_of_mem _ hj)
    by_cases hslot : i = slot
    · subst hslot
      cases hk : e.request.isA D.kind with
      | false =>
        have hA : (Function.update hs i A i).offer (Callable.meaning s) (σ i) e
            = pure .declined := by
          rw [Function.update_self]
          exact D.simple.1.offer_of_other hk _
        rw [claimant_of_declined hA] at hfits
        refine D.offersInStep_slot_declined hk
          (ih hp (fun p hp => hclear p (List.mem_cons_of_mem _ ?_)) hfits)
        rwa [hA]
      | true =>
        have hA : (Function.update hs i A i).Simple D.kind := by
          rw [Function.update_self]
          exact D.simple.1
        have hhead : Clear source ((Function.update hs i A i).offer (Callable.meaning s) (σ i) e)
            w := hclear _ List.mem_cons_self
        rw [Function.update_self, hp.states.first hi] at hhead
        rw [claimant_of_kind hA hk] at hfits
        exact D.offersInStep_slot hi hp hk (hfits e (by simp [comes])) hhead is
    · exact D.offersInStep_elsewhere hi hslot hp hclear hfits ih

/-! ### Drives -/

/-- Drives in step: with the same value after as many steps, in paired states. -/
def Driven (t : Shape ι) (slot : ι) (es : List Effect) (d d' : Drive) (w u : World) : Prop :=
  d'.value = d.value ∧ d'.steps = d.steps ∧
    ∃ σ τ, d.state = t.nest σ ∧ d'.state = t.nest τ ∧ D.Paired t slot es σ τ w u

/-- The two drives go in step from a moment on, and handle the same effects. -/
def DrivesInStep (hs : ι → Handler) (t : Shape ι) (slot : ι) (A' B' : Handler) (es : List Effect)
    (fuel steps : Nat) (σ τ : ι → Value) (next : Value) (w u : World) : Prop :=
  let call := Callable.meaning s
  let hsA := Function.update hs slot A
  let hsB := Function.update hs slot B
  let come := claimedOf call hsA t slot (offersBy s call hsA t fuel steps σ next w)
  (drive s (A'.offer call) fuel steps (t.nest σ) next w).InStep D.fault (D.records come) w u
      (D.Driven t slot (es ++ come)) (drive s (B'.offer call) fuel steps (t.nest τ) next u) ∧
    handledBy s (B'.offer call) fuel steps (t.nest τ) next u
      = handledBy s (A'.offer call) fuel steps (t.nest σ) next w ∧
    claimedOf call hsB t slot (offersBy s call hsB t fuel steps τ next u) = come ∧
    ∀ e ∈ come, e.request.isA D.kind = true

variable {A' B' : Handler} {fuel steps : Nat} {next : Value}

/-- What is not suspended ends both drives. -/
theorem drivesInStep_of_ended (hnext : ∀ e r, next ≠ .chain (.suspended e r))
    (hp : D.Paired t slot es σ τ w u) :
    D.DrivesInStep hs t slot A' B' es fuel steps σ τ next w u := by
  rw [DrivesInStep, offersBy_ended hnext, offersBy_ended hnext, handledBy_ended hnext,
    handledBy_ended hnext]
  have hnone (hs : ι → Handler) : claimedOf (Callable.meaning s) hs t slot [] = [] := rfl
  rw [hnone, hnone, List.append_nil]
  refine ⟨?_, rfl, rfl, nofun⟩
  cases next with
  | chain c =>
    cases c with
    | done v r =>
      rw [drive_done, drive_done]
      exact .value ⟨rfl, rfl, σ, τ, rfl, rfl, hp⟩ (.refl w u)
    | suspended e r => exact absurd rfl (hnext e r)
  | _ => cases fuel <;> exact .failed (D.fault_refl _) (.refl w u)

section

variable {r : CapabilitySet} (hA : Arranged (Function.update hs slot A) t A')
  (hB : Arranged (Function.update hs slot B) t B') (hn : t.leaves.Nodup)

include hA hB hn

/-- An effect that is taken is taken in both drives, and they go on. -/
theorem drivesInStep_of_taken (hstep : D.OffersInStep hs t slot es σ τ e t.leaves w u) {i : ι}
    {state : Value} {w' w'' : World}
    (hv : offerEach (Callable.meaning s) (Function.update hs slot A) σ e t.leaves w
      = .value (some (i, state, next)) w')
    (hnote : s.noteStep (steps + 1) e w' = .value () w'')
    (hrest : ∀ {τ' : ι → Value} {u'' : World},
      let come := comes slot e
        (claimant (Callable.meaning s) (Function.update hs slot A) σ e t.leaves w)
      D.Paired t slot (es ++ come) (Function.update σ i state) τ' w'' u'' →
      D.DrivesInStep hs t slot A' B' (es ++ come) fuel (steps + 1) (Function.update σ i state) τ'
        next w'' u'') :
    D.DrivesInStep hs t slot A' B' es (fuel + 1) steps σ τ (.chain (.suspended e r)) w u := by
  obtain ⟨hstep, hsame, hkind⟩ := hstep
  rw [hv] at hstep
  generalize hv' : offerEach (Callable.meaning s) (Function.update hs slot B) τ e t.leaves u = o'
    at hstep
  cases hstep with
  | @value _ claim _ u' related woven =>
  rcases claim with _ | ⟨j, state', next'⟩
  · exact related.elim
  obtain ⟨rfl, rfl, hp'⟩ := related
  have hnoted := World.Parallel.noteStep D.fault_refl hp'.parallel s (steps + 1) e
  generalize hnote' : s.noteStep (steps + 1) e u' = o'' at hnoted
  rw [hnote] at hnoted
  cases hnoted with
  | value hparallel woven' =>
  obtain ⟨hlater, hhandled, hclaimed, hkind'⟩ := hrest ⟨hp'.states, hparallel⟩
  rw [DrivesInStep, offersBy_taken hv hnote, offersBy_taken hv' hnote', claimedOf_cons,
    claimedOf_cons, hA.handledBy_taken hn hv hnote, hB.handledBy_taken hn hv' hnote',
    hhandled, hclaimed, hA.drive_suspended hn, hB.drive_suspended hn, Action.bind_of_value hv,
    Action.bind_of_value hv']
  refine ⟨?_, rfl, ?_, fun e' he' => (List.mem_append.mp he').elim (hkind e') (hkind' e')⟩
  · have h := (hlater.trans woven').trans woven
    rw [List.append_nil, ← D.records_append, List.append_assoc] at h
    show Outcome.InStep _ _ _ _ _ ((s.noteStep (steps + 1) e >>= _) w')
      ((s.noteStep (steps + 1) e >>= _) u')
    rwa [Action.bind_of_value hnote, Action.bind_of_value hnote']
  · rw [Offering.claimant, hsame]
    rfl

/-- An effect that is taken is taken in both drives, and ends them if it cannot be recorded. -/
theorem drivesInStep_of_unrecorded (hstep : D.OffersInStep hs t slot es σ τ e t.leaves w u)
    {i : ι} {state : Value} {w' : World} {f : Failure}
    (hv : offerEach (Callable.meaning s) (Function.update hs slot A) σ e t.leaves w
      = .value (some (i, state, next)) w')
    (hnote : ∀ v, s.noteStep (steps + 1) e v = .failed f v) :
    D.DrivesInStep hs t slot A' B' es (fuel + 1) steps σ τ (.chain (.suspended e r)) w u := by
  obtain ⟨hstep, hsame, hkind⟩ := hstep
  rw [hv] at hstep
  generalize hv' : offerEach (Callable.meaning s) (Function.update hs slot B) τ e t.leaves u = o'
    at hstep
  cases hstep with
  | @value _ claim _ u' related woven =>
  rcases claim with _ | ⟨j, state', next'⟩
  · exact related.elim
  obtain ⟨rfl, rfl, -⟩ := related
  rw [DrivesInStep, offersBy_unrecorded hv (hnote w'), offersBy_unrecorded hv' (hnote u'),
    claimedOf_singleton, claimedOf_singleton, hA.handledBy_unrecorded hn hv (hnote w'),
    hB.handledBy_unrecorded hn hv' (hnote u'), hA.drive_suspended hn, hB.drive_suspended hn,
    Action.bind_of_value hv, Action.bind_of_value hv']
  refine ⟨?_, rfl, by rw [Offering.claimant, hsame]; rfl, hkind⟩
  show Outcome.InStep _ _ _ _ _ ((s.noteStep (steps + 1) e >>= _) w')
    ((s.noteStep (steps + 1) e >>= _) u')
  rw [Action.bind_of_failed (hnote w'), Action.bind_of_failed (hnote u')]
  exact .failed (D.fault_refl f) woven

/-- An effect that nobody takes ends both drives. -/
theorem drivesInStep_of_left (hstep : D.OffersInStep hs t slot es σ τ e t.leaves w u)
    (hleft : ∀ r w', offerEach (Callable.meaning s) (Function.update hs slot A) σ e t.leaves w
      ≠ .value (some r) w') :
    D.DrivesInStep hs t slot A' B' es (fuel + 1) steps σ τ (.chain (.suspended e r)) w u := by
  obtain ⟨hstep, hsame, hkind⟩ := hstep
  have hleft' (r : ι × Value × Value) (u' : World) : offerEach (Callable.meaning s)
      (Function.update hs slot B) τ e t.leaves u ≠ .value (some r) u' := by
    intro hv'
    rw [hv'] at hstep
    generalize hv : offerEach (Callable.meaning s) (Function.update hs slot A) σ e t.leaves w = o
      at hstep
    cases hstep with
    | @value claim _ w' _ related _ =>
    cases claim with
    | none => exact related.elim
    | some r' => exact hleft r' w' hv
  rw [DrivesInStep, offersBy_left hleft, offersBy_left hleft', claimedOf_singleton,
    claimedOf_singleton,
    hA.handledBy_left hn hleft, hB.handledBy_left hn hleft', hA.drive_suspended hn,
    hB.drive_suspended hn, Action.bind_apply, Action.bind_apply]
  refine ⟨?_, rfl, by rw [Offering.claimant, hsame]; rfl, hkind⟩
  generalize offerEach (Callable.meaning s) (Function.update hs slot A) σ e t.leaves w = o
    at hstep hleft ⊢
  generalize offerEach (Callable.meaning s) (Function.update hs slot B) τ e t.leaves u = o'
    at hstep hleft' ⊢
  cases hstep with
  | @value claim claim' w' u' related woven =>
    cases claim with
    | none =>
      cases claim' with
      | none => exact woven.failUnhandled D.fault_refl steps e
      | some r => exact absurd rfl (hleft' r u')
    | some r => exact absurd rfl (hleft r w')
  | failed fault woven => exact .failed fault woven
  | exhausted => exact .exhausted

/-- **Drives in step**, by induction on the fuel. -/
theorem drive_inStep (hp : D.Paired t slot es σ τ w u)
    (hclear : ∀ o ∈ offersBy s (Callable.meaning s) (Function.update hs slot A) t fuel steps σ next
      w, ∀ p ∈ o.calls (Callable.meaning s) (Function.update hs slot A) t, p.Clear source)
    (hfits : ∀ e ∈ claimedOf (Callable.meaning s) (Function.update hs slot A) t slot
      (offersBy s (Callable.meaning s) (Function.update hs slot A) t fuel steps σ next w),
      D.fits e) :
    D.DrivesInStep hs t slot A' B' es fuel steps σ τ next w u := by
  induction fuel generalizing steps es σ τ next w u with
  | zero =>
    by_cases hnext : ∃ e r, next = .chain (.suspended e r)
    · obtain ⟨e, r, rfl⟩ := hnext
      rw [DrivesInStep, offersBy_zero, offersBy_zero]
      exact ⟨.exhausted, rfl, rfl, nofun⟩
    · exact D.drivesInStep_of_ended (fun e r h => hnext ⟨e, r, h⟩) hp
  | succ fuel ih =>
    by_cases hnext : ∃ e r, next = .chain (.suspended e r)
    · obtain ⟨e, r, rfl⟩ := hnext
      by_cases htaken : ∃ r w', offerEach (Callable.meaning s) (Function.update hs slot A) σ e
          t.leaves w = .value (some r) w'
      · obtain ⟨⟨i, state, next⟩, w', hv⟩ := htaken
        obtain hnote | ⟨f, hnote⟩ := plain_noteStep s (steps + 1) e
        · obtain ⟨w'', hnote, -⟩ := hnote w'
          rw [offersBy_taken hv hnote] at hclear
          rw [offersBy_taken hv hnote, claimedOf_cons] at hfits
          have hstep := D.offerEach_inStep (fun i (hi : i ∈ t.leaves) => hi) hp
            (hclear _ List.mem_cons_self) fun e' he' => hfits e' (List.mem_append_left _ he')
          exact D.drivesInStep_of_taken hA hB hn hstep hv hnote fun hp' =>
            ih hp' (fun o ho => hclear o (List.mem_cons_of_mem _ ho))
              fun e' he' => hfits e' (List.mem_append_right _ he')
        · rw [offersBy_unrecorded hv (hnote w')] at hclear
          rw [offersBy_unrecorded hv (hnote w'), claimedOf_singleton] at hfits
          have hstep := D.offerEach_inStep (fun i (hi : i ∈ t.leaves) => hi) hp
            (hclear _ List.mem_cons_self) hfits
          exact D.drivesInStep_of_unrecorded hA hB hn hstep hv hnote
      · have hleft (r : ι × Value × Value) (w' : World) : offerEach (Callable.meaning s)
            (Function.update hs slot A) σ e t.leaves w ≠ .value (some r) w' :=
          fun h => htaken ⟨r, w', h⟩
        rw [offersBy_left hleft] at hclear
        rw [offersBy_left hleft, claimedOf_singleton] at hfits
        have hstep := D.offerEach_inStep (fun i (hi : i ∈ t.leaves) => hi) hp
          (hclear _ List.mem_cons_self) hfits
        exact D.drivesInStep_of_left hA hB hn hstep hleft
    · exact D.drivesInStep_of_ended (fun e r h => hnext ⟨e, r, h⟩) hp

end

/-! ### Runs -/

/-- Combinations that differ in a slot declare the same if the handlers there do. -/
theorem checkProvided_eq (hA : Arranged (Function.update hs slot A) t A')
    (hB : Arranged (Function.update hs slot B) t B') (hAB : B.capabilities = A.capabilities)
    (c : Chain) : checkProvided c B' = checkProvided c A' := by
  have hcapabilities : B'.capabilities = A'.capabilities := by
    refine CapabilitySet.ext fun a => ?_
    rw [hB.mem_capabilities, hA.mem_capabilities]
    have hsame (i : ι) : (Function.update hs slot B i).capabilities
        = (Function.update hs slot A i).capabilities := by
      by_cases hi : i = slot
      · rw [hi, Function.update_self, Function.update_self, hAB]
      · rw [Function.update_of_ne hi, Function.update_of_ne hi]
    simp only [hsame]
  rw [checkProvided, checkProvided, hcapabilities]

/-- The results of two runs: the same value, and outputs that are the same but for the slot. -/
def Ended (t : Shape ι) (slot : ι) (es : List Effect) (v v' : Value) : Prop :=
  ∃ x o o', v = .result x (t.nest o) ∧ v' = .result x (t.nest o') ∧
    t.Differ slot (D.result es) (D.result' es) o o'

/-- **Beginnings in step.** -/
theorem openRun_inStep (hA : Arranged (Function.update hs slot A) t A')
    (hB : Arranged (Function.update hs slot B) t B') (hn : t.leaves.Nodup)
    (hclear : ∀ p ∈ t.calls (fun i => (Function.update hs slot A i).start (Callable.meaning s)) w,
      p.Clear source)
    (h : World.Parallel source (D.left []) w u) :
    (openRun (Callable.meaning s) A' w).InStep D.fault [] w u
      (fun v v' w' u' => v = t.nest (t.parts v) ∧ v' = t.nest (t.parts v') ∧
        D.Paired t slot [] (t.parts v) (t.parts v') w' u')
      (openRun (Callable.meaning s) B' u) := by
  rw [openRun, openRun, hA.start_eq, hB.start_eq]
  have hvisit := Shape.visit_inStep slot (a := D.before []) (b := D.after [])
    (x := fun i => (Function.update hs slot A i).start (Callable.meaning s))
    (y := fun i => (Function.update hs slot B i).start (Callable.meaning s)) hn D.fault_refl
    (fun i => regular_start s _) (fun i _ hi => by simp only [Function.update_of_ne hi])
    (fun _ => by simpa only [Function.update_self] using D.start) hclear h
  refine hvisit.bind fun v v' w' u' _ h => ?_
  obtain ⟨⟨o, o', rfl, rfl, hdiffer⟩, h⟩ := h
  exact .value ⟨Shape.nest_parts hn, Shape.nest_parts hn, hdiffer.parts hn, h.events _ _⟩
    (World.Woven.refl w' u').note

/-- **Ends in step.** -/
theorem closeRun_inStep (hA : Arranged (Function.update hs slot A) t A')
    (hB : Arranged (Function.update hs slot B) t B') (hn : t.leaves.Nodup) {d d' : Drive}
    (hdriven : D.Driven t slot es d d' w u)
    (hclear : ∀ p ∈ t.calls
      (fun i => (Function.update hs slot A i).finish (Callable.meaning s) (t.parts d.state i))
      (d.closed w), p.Clear source)
    (hkind : ∀ e ∈ es, e.request.isA D.kind = true) (hfits : ∀ e ∈ es, D.fits e) :
    (closeRun (Callable.meaning s) A' d w).InStep D.fault [] w u
      (fun v v' _ _ => D.Ended t slot es v v') (closeRun (Callable.meaning s) B' d' u) := by
  obtain ⟨hvalue, -, σ, τ, hσ, hτ, hp⟩ := hdriven
  have hstates : t.Differ slot (D.before es) (D.after es) (t.parts d.state) (t.parts d'.state) := by
    rw [hσ, hτ]
    exact hp.states.parts hn
  have hσ : d.state = t.nest (t.parts d.state) := by
    rw [hσ]
    exact Shape.nest_parts hn
  have hτ : d'.state = t.nest (t.parts d'.state) := by
    rw [hτ]
    exact Shape.nest_parts hn
  have hvisit := Shape.visit_inStep slot (a := D.result es) (b := D.result' es)
    (x := fun i => (Function.update hs slot A i).finish (Callable.meaning s) (t.parts d.state i))
    (y := fun i => (Function.update hs slot B i).finish (Callable.meaning s) (t.parts d'.state i))
    hn D.fault_refl (fun i => regular_finish s _ _)
    (fun i hi hne => by simp only [Function.update_of_ne hne, hstates.others i hi hne])
    (fun hi => by
      simpa only [Function.update_self, hstates.first hi, hstates.second hi]
        using D.finish hkind hfits) hclear
    (hp.parallel.events (d.closed w).events (d'.closed u).events)
  have hnoted : World.Woven [] w u (d.closed w) (d'.closed u) := (World.Woven.refl w u).note
  rw [closeRun_apply, closeRun_apply]
  refine Outcome.InStep.after ?_ hnoted
  rw [hσ, hA.finish_eq, hvalue, hτ, hB.finish_eq]
  refine hvisit.bind fun v v' w'' u'' _ h => ?_
  obtain ⟨⟨o, o', rfl, rfl, hdiffer⟩, -⟩ := h
  exact .value ⟨d.value, o, o', rfl, rfl, hdiffer⟩ (.refl w'' u'')

/-- **Two runs in step**: with the same value and other outputs, or with failures that correspond,
after the same effects; the later events of the second run are those of the first one, woven with
the records of the effects that came to the slot. -/
theorem run_inStep (hA : Arranged (Function.update hs slot A) t A')
    (hB : Arranged (Function.update hs slot B) t B') (hn : t.leaves.Nodup) {c : Chain}
    (hw : w.Provides source) (hremaining : w.remaining source = D.left [])
    (hclear : ∀ p ∈ callsInRun s (Callable.meaning s) c (Function.update hs slot A) t A' w,
      p.Clear source)
    (hfits : ∀ e ∈ claimedInRun s (Callable.meaning s) c (Function.update hs slot A) t slot A' w,
      D.fits e) :
    let come := claimedInRun s (Callable.meaning s) c (Function.update hs slot A) t slot A' w
    (run s (Callable.meaning s) c A' w).InStep D.fault (D.records come) w w
        (fun v v' _ _ => D.Ended t slot come v v') (run s (Callable.meaning s) c B' w) ∧
      handledInRun s (Callable.meaning s) c B' w = handledInRun s (Callable.meaning s) c A' w ∧
      claimedInRun s (Callable.meaning s) c (Function.update hs slot B) t slot B' w = come ∧
      ∀ e ∈ come, e.request.isA D.kind = true := by
  have hrun (C : Handler) : run s (Callable.meaning s) c C = checkProvided c C >>= fun _ =>
      openRun (Callable.meaning s) C >>= fun state =>
        drive s (C.offer (Callable.meaning s)) s.maxSteps 0 state (.chain c) >>=
          closeRun (Callable.meaning s) C := rfl
  rw [callsInRun, offersInRun, untilFinish] at hclear
  rw [claimedInRun, offersInRun] at hfits
  rw [claimedInRun, claimedInRun, offersInRun, offersInRun, handledInRun, handledInRun, hrun, hrun,
    checkProvided_eq hA hB D.capabilities]
  rcases checkProvided_cases c A' with hprovided | ⟨f, hprovided⟩
  · simp only [hprovided, pure_bind, Action.pure_apply] at hclear hfits ⊢
    rw [Action.bind_apply, Action.bind_apply]
    have hstart := D.openRun_inStep hA hB hn
      (fun p hp => hclear p (List.mem_append_left _ (List.mem_append_left _ hp)))
      ⟨rfl, hremaining, hw⟩
    generalize openRun (Callable.meaning s) B' w = o' at hstart ⊢
    cases hv : openRun (Callable.meaning s) A' w with
    | value state w₁ =>
      rw [hv] at hstart hfits
      rw [Action.bind_of_value hv, hv] at hclear
      cases hstart with
      | @value _ state' _ u₁ related woven =>
      obtain ⟨hstate, hstate', hp⟩ := related
      have hdrive := D.drive_inStep hA hB hn hp (fun o ho p hp => hclear p
        (List.mem_append_left _ (List.mem_append_right _ (List.mem_flatMap.mpr ⟨o, ho, hp⟩)))) hfits
      rw [DrivesInStep, ← hstate, ← hstate'] at hdrive
      obtain ⟨hstep, hhandled, hclaimed, hkind⟩ := hdrive
      refine ⟨?_, hhandled, hclaimed, hkind⟩
      have h := hstep.bind fun d d' w' u' hd h => D.closeRun_inStep hA hB hn h (fun p hp => by
        rw [Action.bind_of_value hd] at hclear
        exact hclear p (List.mem_append_right _ hp)) hkind hfits
      have h := h.trans woven
      rwa [List.append_nil] at h
    | failed f w₁ =>
      rw [hv] at hstart
      cases hstart with
      | failed fault woven =>
        exact ⟨.failed fault woven, rfl, rfl, fun _ he => (List.not_mem_nil he).elim⟩
    | exhausted =>
      rw [hv] at hstart
      cases hstart with
      | exhausted => exact ⟨.exhausted, rfl, rfl, fun _ he => (List.not_mem_nil he).elim⟩
  · rw [hprovided]
    exact ⟨.failed (D.fault_refl f) (.refl w w), rfl, rfl, fun _ he => (List.not_mem_nil he).elim⟩

end StandIn

end EffectHandlers
