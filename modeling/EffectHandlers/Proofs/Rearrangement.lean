/-
EffectHandlers/Proofs/Rearrangement.lean

Neither the order nor the grouping of combined handlers matters.

Two combinations of the same handlers, in shapes of their own, are run on
one chain, each from the world in which the chain was built.  If every
effect is claimed by one of the handlers at most, then the others decline
it, and declining changes nothing; so it does not matter how many of them
are asked before the one that claims it (`offerEach_agree`).  From states
with the same parts both combinations therefore go on to states with the
same parts, and with the same chain (`drives_agree`).

Nothing is asked of the handlers beyond the states and the worlds that they
can meet (`Met`): from the start on, whatever effects they take.  The two
runs differ in the diagnostics that name the combination.  What carries the
induction is that the worlds are the same up to diagnostics, which no
computation reads (`Outcome.Agree`).

Main result: `runs_agree`.
-/
import EffectHandlers.Proofs.Abiding
import EffectHandlers.Proofs.Arrangement
import EffectHandlers.Proofs.Sequencing

namespace EffectHandlers

/-! ### Outcomes that agree -/

namespace Outcome.Agree

variable {α β γ δ : Type} {Q : α → β → Prop} {w v : World}

theorem mono {Q' : α → β → Prop} {o : Outcome α} {o' : Outcome β} (h : o.Agree Q o')
    (hQ : ∀ a b, Q a b → Q' a b) : o.Agree Q' o' := by
  cases h with
  | value related worlds => exact .value (hQ _ _ related) worlds
  | failed f worlds => exact .failed f worlds
  | exhausted => exact .exhausted

theorem bind {T : γ → δ → Prop} {x : Action α} {y : Action β} {f : α → Action γ}
    {g : β → Action δ} (h : (x w).Agree Q (y v))
    (hnext : ∀ a b w' v', Q a b → w'.plain = v'.plain → (f a w').Agree T (g b v')) :
    ((x >>= f) w).Agree T ((y >>= g) v) := by
  rw [Action.bind_apply, Action.bind_apply]
  generalize x w = o at h ⊢
  generalize y v = o' at h ⊢
  cases h with
  | value related worlds => exact hnext _ _ _ _ related worlds
  | failed f worlds => exact .failed f worlds
  | exhausted => exact .exhausted

theorem ret {a : α} {b : β} (h : Q a b) (hw : w.plain = v.plain) :
    ((pure a : Action α) w).Agree Q ((pure b : Action β) v) := .value h hw

/-- What agrees with a value is a value. -/
theorem of_value {a : α} {o : Outcome β} (h : (Outcome.value a w).Agree Q o) :
    ∃ b v, o = .value b v ∧ Q a b ∧ w.plain = v.plain := by
  cases h with
  | value related worlds => exact ⟨_, _, rfl, related, worlds⟩

end Outcome.Agree

namespace Handler

variable {s : Settings} {h : Handler} {w v : World}

theorem offer_agree (s : Settings) (h : Handler) (state : Value) (e : Effect)
    (hw : w.plain = v.plain) :
    (h.offer (Callable.meaning s) state e w).Agree Eq (h.offer (Callable.meaning s) state e v) := by
  have hframed := Discipline.offer (frame_meaning (Regime.call_iff fun _ => trivial) s) h
    h.obeys_free state.obeys_free e.obeys_free
  exact hframed.agree w.clean_free hw

theorem start_agree (s : Settings) (h : Handler) (hw : w.plain = v.plain) :
    (h.start (Callable.meaning s) w).Agree Eq (h.start (Callable.meaning s) v) := by
  have hframed := Discipline.start (frame_meaning (Regime.call_iff fun _ => trivial) s) h
    h.obeys_free
  exact hframed.agree w.clean_free hw

theorem finish_agree (s : Settings) (h : Handler) (state : Value) (hw : w.plain = v.plain) :
    (h.finish (Callable.meaning s) state w).Agree Eq
      (h.finish (Callable.meaning s) state v) := by
  have hframed := Discipline.finish (frame_meaning (Regime.call_iff fun _ => trivial) s) h
    h.obeys_free state.obeys_free
  exact hframed.agree w.clean_free hw

end Handler

/-! ### Handlers that do not interfere -/

/-- A handler leaves an effect in a state and a world, without failing and without changing the
world. -/
def Handler.Declines (call : Call) (h : Handler) (state : Value) (e : Effect) (w : World) : Prop :=
  ∃ v, h.offer call state e w = .value v w ∧ v.isHandled = false

variable {ι : Type} [DecidableEq ι]

/-- The states that some handlers can be in together, and the worlds that they can meet then: they
start in one world, and one after the other takes an effect.  Diagnostics do not count. -/
inductive Met (call : Call) (hs : ι → Handler) (is : List ι) (w₀ : World) :
    (ι → Value) → World → Prop
  | start {σ : ι → Value} (starts : ∀ i ∈ is, (hs i).start call w₀ = .value (σ i) w₀) :
      Met call hs is w₀ σ w₀
  | plain {σ : ι → Value} {w v : World} (before : Met call hs is w₀ σ w)
      (same : w.plain = v.plain) : Met call hs is w₀ σ v
  | taken {σ : ι → Value} {i : ι} {e : Effect} {state next : Value} {w w' : World}
      (before : Met call hs is w₀ σ w) (mem : i ∈ is)
      (takes : (hs i).offer call (σ i) e w = .value (.handled state next) w') :
      Met call hs is w₀ (Function.update σ i state) w'

/-- No effect is claimed by two of some handlers, and a handler that does not claim an effect
changes nothing. -/
structure Apart (call : Call) (hs : ι → Handler) (is : List ι) (w₀ : World) : Prop where
  quiet {σ : ι → Value} {w : World} (met : Met call hs is w₀ σ w) {i : ι} (mem : i ∈ is)
    {e : Effect} {v : Value} {w' : World} (answer : (hs i).offer call (σ i) e w = .value v w')
    (isLeft : v.isHandled = false) : w' = w
  declines {σ : ι → Value} {w : World} (met : Met call hs is w₀ σ w) (e : Effect) {i j : ι}
    (first : i ∈ is) (second : j ∈ is) (differ : i ≠ j) :
    (hs i).Declines call (σ i) e w ∨ (hs j).Declines call (σ j) e w

/-- Some handlers start and finish without failing and without changing the world. -/
structure Discreet (call : Call) (hs : ι → Handler) (is : List ι) (w₀ : World) : Prop where
  start {i : ι} (mem : i ∈ is) : ∃ state, (hs i).start call w₀ = .value state w₀
  finish {σ : ι → Value} {w : World} (met : Met call hs is w₀ σ w) {i : ι} (mem : i ∈ is) :
    ∃ o, (hs i).finish call (σ i) w = .value o w

/-! ### One offer -/

section

variable {call : Call} {hs : ι → Handler} {σ : ι → Value} {e : Effect} {is js : List ι} {k : ι}
  {w w₀ : World}

omit [DecidableEq ι] in
theorem Value.claim_of_left {v : Value} (hv : v.isHandled = false) (i : ι) : v.claim i = none := by
  cases v with
  | handled => cases hv
  | _ => rfl

omit [DecidableEq ι] in
/-- A handler that declines passes the effect on as if it were not there. -/
theorem offerEach_of_declines {i : ι} (h : (hs i).Declines call (σ i) e w) :
    offerEach call hs σ e (i :: is) w = offerEach call hs σ e is w := by
  obtain ⟨v, hv, hleft⟩ := h
  rw [offerEach_cons, Action.bind_of_value hv, Value.claim_of_left hleft]
  rfl

omit [DecidableEq ι] in
/-- What all handlers decline nobody claims. -/
theorem offerEach_of_all_decline (h : ∀ i ∈ is, (hs i).Declines call (σ i) e w) :
    offerEach call hs σ e is w = .value none w := by
  induction is with
  | nil => rfl
  | cons i is ih =>
    rw [offerEach_of_declines (h i List.mem_cons_self)]
    exact ih fun j hj => h j (List.mem_cons_of_mem _ hj)

/-- If all others decline, an offer is an offer to one handler, wherever it stands. -/
theorem offerEach_of_others_decline (hapart : Apart call hs js w₀) (hmet : Met call hs js w₀ σ w)
    (hsub : ∀ i ∈ is, i ∈ js) (hk : k ∈ is) (hn : is.Nodup)
    (h : ∀ i ∈ is, i ≠ k → (hs i).Declines call (σ i) e w) :
    offerEach call hs σ e is w
      = ((hs k).offer call (σ k) e >>= fun v => pure (v.claim k)) w := by
  induction is with
  | nil => cases hk
  | cons i is ih =>
    obtain ⟨hi, hn⟩ := List.nodup_cons.mp hn
    have hrest : ∀ j ∈ is, j ≠ k → (hs j).Declines call (σ j) e w :=
      fun j hj => h j (List.mem_cons_of_mem _ hj)
    rcases List.mem_cons.mp hk with rfl | hk
    · rw [offerEach_cons]
      refine Action.bind_congr_of_value fun v w' hv => ?_
      cases hleft : v.isHandled with
      | true =>
        obtain ⟨state, next, rfl⟩ := Flat.eq_handled_of_isHandled hleft
        rfl
      | false =>
        -- The others are asked in the same world.
        rw [hapart.quiet hmet (hsub k List.mem_cons_self) hv hleft, Value.claim_of_left hleft]
        exact offerEach_of_all_decline fun j hj => hrest j hj fun hjk => hi (hjk ▸ hj)
    · have hik : i ≠ k := fun hik => hi (hik ▸ hk)
      rw [offerEach_of_declines (h i List.mem_cons_self hik)]
      exact ih (fun j hj => hsub j (List.mem_cons_of_mem _ hj)) hk hn hrest

/-- An offer to handlers of which one claims the effect at most is an offer to one of them, or
nobody claims the effect. -/
theorem offerEach_apart (hapart : Apart call hs js w₀) (hmet : Met call hs js w₀ σ w)
    (e : Effect) :
    (∀ is, is.Perm js → offerEach call hs σ e is w = .value none w) ∨
    ∃ k ∈ js, ∀ is, is.Perm js → is.Nodup → offerEach call hs σ e is w
      = ((hs k).offer call (σ k) e >>= fun v => pure (v.claim k)) w := by
  by_cases hall : ∀ i ∈ js, (hs i).Declines call (σ i) e w
  · exact .inl fun is hp => offerEach_of_all_decline fun i hi => hall i (hp.mem_iff.mp hi)
  · simp only [not_forall] at hall
    obtain ⟨k, hk, hclaims⟩ := hall
    have hothers : ∀ i ∈ js, i ≠ k → (hs i).Declines call (σ i) e w := fun i hi hik =>
      (hapart.declines hmet e hi hk hik).resolve_right hclaims
    refine .inr ⟨k, hk, fun is hp hn => ?_⟩
    exact offerEach_of_others_decline hapart hmet (fun i => hp.mem_iff.mp) (hp.mem_iff.mpr hk) hn
      fun i hi => hothers i (hp.mem_iff.mp hi)

/-- A handler that takes an effect leads on to states and a world that can be met. -/
theorem Met.of_offerEach (hapart : Apart call hs is w₀) (hmet : Met call hs is w₀ σ w)
    (hn : is.Nodup) {state next : Value} {w' : World}
    (h : offerEach call hs σ e is w = .value (some (k, state, next)) w') :
    Met call hs is w₀ (Function.update σ k state) w' := by
  rcases offerEach_apart hapart hmet e with hnone | ⟨i, hi, hone⟩
  · rw [hnone is (.refl is)] at h
    cases h
  · rw [hone is (.refl is) hn] at h
    obtain ⟨v, w₁, hv, h⟩ := Action.bind_eq_value.mp h
    obtain ⟨h, rfl⟩ := Action.pure_eq_value.mp h
    cases v with
    | handled =>
      cases h
      exact hmet.taken hi hv
    | _ => cases h

omit [DecidableEq ι] in
/-- Diagnostics do not matter for an offer. -/
theorem offerEach_plain (s : Settings) (hs : ι → Handler) (σ : ι → Value) (e : Effect)
    (is : List ι) {w v : World} (hw : w.plain = v.plain) :
    (offerEach (Callable.meaning s) hs σ e is w).Agree Eq
      (offerEach (Callable.meaning s) hs σ e is v) := by
  induction is generalizing w v with
  | nil => exact .value rfl hw
  | cons i is ih =>
    rw [offerEach_cons]
    refine (Handler.offer_agree s (hs i) (σ i) e hw).bind fun a b w' v' hab hw' => ?_
    rw [hab]
    cases b.claim i with
    | none => exact ih hw'
    | some r => exact .ret rfl hw'

/-- **It does not matter in which order handlers are offered an effect** that one of them claims at
most. -/
theorem offerEach_agree {s : Settings} (hp : is.Perm js) (hn : is.Nodup)
    (hapart : Apart (Callable.meaning s) hs is w₀) (hmet : Met (Callable.meaning s) hs is w₀ σ w)
    (e : Effect) {v : World} (hw : w.plain = v.plain) :
    (offerEach (Callable.meaning s) hs σ e is w).Agree Eq
      (offerEach (Callable.meaning s) hs σ e js v) := by
  have hsame : offerEach (Callable.meaning s) hs σ e is w
      = offerEach (Callable.meaning s) hs σ e js w := by
    rcases offerEach_apart hapart hmet e with hnone | ⟨k, -, hone⟩
    · rw [hnone is (.refl is), hnone js hp.symm]
    · rw [hone is (.refl is) hn, hone js hp.symm (hp.nodup_iff.mp hn)]
  rw [hsame]
  exact offerEach_plain s hs σ e js hw

end

/-! ### Drives -/

/-- Notes are diagnostics. -/
theorem exists_note (severity : Severity) (text : String) (w : World) :
    ∃ w', Action.note severity text w = .value () w' ∧ w'.plain = w.plain := ⟨_, rfl, rfl⟩

/-- The record of a step is a diagnostic, unless the effect cannot be shown in any world. -/
theorem plain_noteStep (s : Settings) (step : Nat) (e : Effect) :
    (∀ w, ∃ w', s.noteStep step e w = .value () w' ∧ w'.plain = w.plain) ∨
      ∃ f, ∀ w, s.noteStep step e w = .failed f w := by
  obtain h | ⟨text, h⟩ | ⟨-, f, h⟩ := s.noteStep_cases step e
  · rw [h]
    exact .inl fun w => ⟨w, rfl, rfl⟩
  · rw [h]
    exact .inl fun w => exists_note _ text w
  · rw [h]
    exact .inr ⟨.noText f, fun _ => rfl⟩

/-- An effect that nobody takes fails in the same way whatever diagnostics there are. -/
theorem failUnhandled_agree {α β : Type} {T : α → β → Prop} (p q : Nat) (e : Effect) {w v : World}
    (hw : w.plain = v.plain) : (failUnhandled p e w).Agree T (failUnhandled q e v) := by
  unfold failUnhandled Effect.noted
  cases e.recordText with
  | ok text => exact .failed _ hw
  | error f => exact .failed _ hw

section

variable {s : Settings} {hs : ι → Handler} {t t' : Shape ι} {A B : Handler} {w₀ : World}
  (hA : Arranged hs t A) (hB : Arranged hs t' B) (hn : t.leaves.Nodup)
  (hp : t.leaves.Perm t'.leaves) (hapart : Apart (Callable.meaning s) hs t.leaves w₀)

include hA hB hn hp hapart in
/-- **From states with the same parts, drives against both combinations agree**, if what is done
after them agrees where they end in states with the same parts; and they handle the same effects. -/
theorem drives_agree {γ δ : Type} {T : γ → δ → Prop} {f : Drive → Action γ} {g : Drive → Action δ}
    (hends : ∀ x σ n w v, Met (Callable.meaning s) hs t.leaves w₀ σ w → w.plain = v.plain →
      (f ⟨x, t.nest σ, n⟩ w).Agree T (g ⟨x, t'.nest σ, n⟩ v))
    (fuel steps : Nat) {σ : ι → Value} (next : Value) {w v : World}
    (hmet : Met (Callable.meaning s) hs t.leaves w₀ σ w) (hw : w.plain = v.plain) :
    ((drive s (A.offer (Callable.meaning s)) fuel steps (t.nest σ) next >>= f) w).Agree T
        ((drive s (B.offer (Callable.meaning s)) fuel steps (t'.nest σ) next >>= g) v) ∧
      handledBy s (A.offer (Callable.meaning s)) fuel steps (t.nest σ) next w
        = handledBy s (B.offer (Callable.meaning s)) fuel steps (t'.nest σ) next v := by
  have hn' : t'.leaves.Nodup := hp.nodup_iff.mp hn
  induction fuel generalizing steps σ next w v with
  | zero =>
    cases next with
    | chain c =>
      cases c with
      | done x r => exact ⟨hends x σ steps w v hmet hw, rfl⟩
      | suspended e r => exact ⟨.exhausted, rfl⟩
    | _ => exact ⟨.failed _ hw, rfl⟩
  | succ fuel ih =>
    cases next with
    | chain c =>
      cases c with
      | done x r => exact ⟨hends x σ steps w v hmet hw, rfl⟩
      | suspended e r =>
        have hoffer := offerEach_agree hp hn hapart hmet e hw
        rw [hA.drive_suspended hn, hB.drive_suspended hn', bind_assoc, bind_assoc,
          Action.bind_apply, Action.bind_apply]
        -- Both offers come to the same claim, or to the same failure.
        generalize hx : offerEach (Callable.meaning s) hs σ e t.leaves w = x at hoffer
        generalize hy : offerEach (Callable.meaning s) hs σ e t'.leaves v = y at hoffer
        cases hoffer with
        | exhausted =>
          refine ⟨.exhausted, ?_⟩
          rw [hA.handledBy_left hn (by simp [hx]), hB.handledBy_left hn' (by simp [hy])]
        | failed f worlds =>
          refine ⟨.failed f worlds, ?_⟩
          rw [hA.handledBy_left hn (by simp [hx]), hB.handledBy_left hn' (by simp [hy])]
        | @value a b w₁ v₁ related worlds =>
          subst related
          rcases a with _ | ⟨i, state, next⟩
          · refine ⟨?_, ?_⟩
            · have h := failUnhandled_agree (T := T) steps steps e worlds
              rwa [← failUnhandled_bind steps e f, ← failUnhandled_bind steps e g] at h
            rw [hA.handledBy_left hn (by simp [hx]), hB.handledBy_left hn' (by simp [hy])]
          · show (((s.noteStep (steps + 1) e >>= fun _ => _) >>= f) w₁).Agree T
                (((s.noteStep (steps + 1) e >>= fun _ => _) >>= g) v₁) ∧ _
            rw [bind_assoc, bind_assoc]
            obtain hnote | ⟨f', hnote⟩ := plain_noteStep s (steps + 1) e
            · obtain ⟨w₂, hw₂, hplainW⟩ := hnote w₁
              obtain ⟨v₂, hv₂, hplainV⟩ := hnote v₁
              have hworlds : w₂.plain = v₂.plain := by rw [hplainW, hplainV, worlds]
              have hmet₂ : Met (Callable.meaning s) hs t.leaves w₀ (Function.update σ i state) w₂ :=
                (hmet.of_offerEach hapart hn hx).plain hplainW.symm
              -- The states have the same parts again, and the chain is the same.
              obtain ⟨hdrive, hhandled⟩ := ih (steps + 1) next hmet₂ hworlds
              rw [Action.bind_of_value hw₂, Action.bind_of_value hv₂]
              refine ⟨hdrive, ?_⟩
              rw [hA.handledBy_taken hn hx hw₂, hB.handledBy_taken hn' hy hv₂, hhandled]
            · rw [Action.bind_of_failed (hnote w₁), Action.bind_of_failed (hnote v₁)]
              refine ⟨.failed f' worlds, ?_⟩
              rw [hA.handledBy_unrecorded hn hx (hnote w₁),
                hB.handledBy_unrecorded hn' hy (hnote v₁)]
    | _ => exact ⟨.failed _ hw, rfl⟩

/-! ### Runs -/

omit [DecidableEq ι] in
/-- Leaves that leave the world as it is give the same in both shapes. -/
theorem visit_agree {x : ι → Action Value} (hp : t.leaves.Perm t'.leaves) {w v : World}
    (hstill : ∀ i ∈ t.leaves, ∃ o, x i w = .value o w)
    (hstill' : ∀ i ∈ t.leaves, ∃ o, x i v = .value o v)
    (hagree : ∀ i, (x i w).Agree Eq (x i v)) :
    ∃ o : ι → Value, (∀ i ∈ t.leaves, x i w = .value (o i) w) ∧
      t.visit x w = .value (t.nest o) w ∧ t'.visit x v = .value (t'.nest o) v := by
  have hgives : ∀ i, ∃ o, i ∈ t.leaves → x i w = .value o w := by
    intro i
    by_cases hi : i ∈ t.leaves
    · obtain ⟨o, ho⟩ := hstill i hi
      exact ⟨o, fun _ => ho⟩
    · exact ⟨.null, fun h => absurd h hi⟩
  obtain ⟨o, ho⟩ := Classical.skolem.mp hgives
  -- What a leaf gives is the same on both sides.
  have ho' : ∀ i ∈ t'.leaves, x i v = .value (o i) v := by
    intro i hi
    have hi' : i ∈ t.leaves := hp.mem_iff.mpr hi
    obtain ⟨o', ho'⟩ := hstill' i hi'
    have hsame := hagree i
    rw [ho i hi', ho'] at hsame
    cases hsame with
    | value related _ => rw [ho', related]
  exact ⟨o, ho, Shape.visit_still ho, Shape.visit_still ho'⟩

omit [DecidableEq ι] in
include hA hB hp in
/-- Both combinations provide the same, so both refuse a chain in the same way or let it pass. -/
theorem checkProvided_rearranged (c : Chain) : checkProvided c A = checkProvided c B := by
  have hcapabilities : A.capabilities = B.capabilities := by
    apply CapabilitySet.ext
    intro a
    simp only [hA.mem_capabilities, hB.mem_capabilities, hp.mem_iff]
  rw [checkProvided, checkProvided, hcapabilities]

variable (hdiscreet : Discreet (Callable.meaning s) hs t.leaves w₀)

include hA hB hp hdiscreet in
/-- Both combinations start in states with the same parts. -/
theorem openRun_agree :
    ∃ σ w v, Met (Callable.meaning s) hs t.leaves w₀ σ w ∧ w.plain = v.plain ∧
      openRun (Callable.meaning s) A w₀ = .value (t.nest σ) w ∧
      openRun (Callable.meaning s) B w₀ = .value (t'.nest σ) v := by
  obtain ⟨σ, hσ, hstart, hstart'⟩ := visit_agree hp (fun i hi => hdiscreet.start hi)
    (fun i hi => hdiscreet.start hi) fun i => Handler.start_agree s (hs i) rfl
  rw [← hA.start_eq] at hstart
  rw [← hB.start_eq] at hstart'
  obtain ⟨w, hw, hplain⟩ := exists_note .debug ("Run started with " ++ A.written) w₀
  obtain ⟨v, hv, hplain'⟩ := exists_note .debug ("Run started with " ++ B.written) w₀
  refine ⟨σ, w, v, .plain (.start hσ) hplain.symm, hplain.trans hplain'.symm, ?_, ?_⟩
  · rw [openRun, Action.bind_of_value hstart, Action.bind_of_value hw]
    rfl
  · rw [openRun, Action.bind_of_value hstart', Action.bind_of_value hv]
    rfl

include hA hB hp hdiscreet in
/-- From states with the same parts both combinations finish with results that have the same
parts. -/
theorem closeRun_agree (x : Value) {σ : ι → Value} (n : Nat) {w v : World}
    (hmet : Met (Callable.meaning s) hs t.leaves w₀ σ w) (hw : w.plain = v.plain) :
    (closeRun (Callable.meaning s) A ⟨x, t.nest σ, n⟩ w).Agree
      (fun r q => ∃ o, r = .result x (t.nest o) ∧ q = .result x (t'.nest o))
      (closeRun (Callable.meaning s) B ⟨x, t'.nest σ, n⟩ v) := by
  obtain ⟨w₁, hw₁, hplain⟩ :=
    exists_note .debug ("Run finished after " ++ toString n ++ " step(s)") w
  obtain ⟨v₁, hv₁, hplain'⟩ :=
    exists_note .debug ("Run finished after " ++ toString n ++ " step(s)") v
  have hworlds : w₁.plain = v₁.plain := by rw [hplain, hplain', hw]
  have hmet₁ := hmet.plain hplain.symm
  have hmet₂ := hmet₁.plain hworlds
  rw [closeRun, closeRun, Action.bind_of_value hw₁, Action.bind_of_value hv₁]
  obtain ⟨o, -, hfinish, hfinish'⟩ := visit_agree hp (fun i hi => hdiscreet.finish hmet₁ hi)
    (fun i hi => hdiscreet.finish hmet₂ hi) fun i => Handler.finish_agree s (hs i) (σ i) hworlds
  rw [← hA.finish_eq] at hfinish
  rw [← hB.finish_eq] at hfinish'
  rw [Action.bind_of_value hfinish, Action.bind_of_value hfinish']
  exact .value ⟨o, rfl, rfl⟩ hworlds

include hA hB hn hp hapart hdiscreet in
/-- Runs against both combinations agree, with the states in which their drives end and with the
effects that they handle. -/
theorem runWithEnd_agree (c : Chain) :
    (runWithEnd s (Callable.meaning s) c A w₀).Agree
        (fun p q => ∃ x n σ o, p = (⟨x, t.nest σ, n⟩, .result x (t.nest o)) ∧
          q = (⟨x, t'.nest σ, n⟩, .result x (t'.nest o)))
        (runWithEnd s (Callable.meaning s) c B w₀) ∧
      handledInRun s (Callable.meaning s) c A w₀ = handledInRun s (Callable.meaning s) c B w₀ := by
  rw [runWithEnd, runWithEnd, handledInRun, handledInRun,
    ← checkProvided_rearranged hA hB hp c, checkProvided]
  split
  · obtain ⟨σ, w, v, hmet, hw, hopen, hopen'⟩ := openRun_agree hA hB hp hdiscreet
    rw [pure_bind, pure_bind, pure_bind, pure_bind, Action.bind_of_value hopen,
      Action.bind_of_value hopen', hopen, hopen']
    refine drives_agree hA hB hn hp hapart (fun x σ n w v hmet hw => ?_)
      s.maxSteps 0 (.chain c) hmet hw
    refine (closeRun_agree hA hB hp hdiscreet x n hmet hw).bind ?_
    rintro _ _ w v ⟨o, rfl, rfl⟩ hw
    exact .ret ⟨x, n, σ, o, rfl, rfl⟩ hw
  · exact ⟨.failed _ rfl, rfl⟩

end

/-! ### The handlers of the library -/

namespace Handler

variable {call : Call} {e : Effect} {state v next : Value} {w w' : World}

/-- The states that a handler can be in: it starts in one, and goes on by handling effects. -/
inductive Attains (call : Call) (h : Handler) : Value → Prop
  | start {state : Value} {w w' : World} (starts : h.start call w = .value state w') :
      Attains call h state
  | step {state state' next : Value} {e : Effect} {w w' : World} (before : Attains call h state)
      (steps : h.offer call state e w = .value (.handled state' next) w') :
      Attains call h state'

/-- The entries of a collector can be listed. -/
theorem entries_of_attains {id : Nat} (h : (Handler.collector id).Attains call state) :
    ∃ vs, entries state = .ok vs := by
  induction h with
  | start starts =>
    cases starts
    exact ⟨[], rfl⟩
  | @step log _ _ _ _ _ _ steps ih =>
    obtain ⟨vs, hvs⟩ := ih
    obtain ⟨m, w₁, -, hstep⟩ := Action.bind_eq_value.mp (whenKind_handled steps)
    obtain ⟨next, w₂, -, hstep⟩ := Action.bind_eq_value.mp hstep
    obtain ⟨hstep, -⟩ := Action.pure_eq_value.mp hstep
    cases hstep
    refine ⟨m :: vs, ?_⟩
    rw [addEntry, entries, hvs]
    rfl

/-- A step of a transcript puts a line in front of those that were written, or takes one from those
still to be read. -/
theorem transcriptStep_lines {given : Nat} {pending : Value} {written : List Value}
    (h : transcriptStep call given (.tuple [pending, .tuple written]) e w = .value (v, next) w') :
    ∃ pending written, v = .tuple [pending, .tuple written] := by
  obtain ⟨r, ss⟩ := e
  obtain ⟨_, _, hlines, h⟩ := Action.bind_eq_value.mp h
  cases hlines
  cases r with
  | writeLine line =>
    obtain ⟨_, _, hwritten, h⟩ := Action.bind_eq_value.mp h
    cases hwritten
    obtain ⟨_, _, -, h⟩ := Action.bind_eq_value.mp h
    cases h
    exact ⟨pending, line :: written, rfl⟩
  | readLine =>
    obtain ⟨line, _, -, h⟩ := Action.bind_eq_value.mp h
    rcases line with _ | ⟨line, rest⟩
    · cases h
    · obtain ⟨_, _, -, h⟩ := Action.bind_eq_value.mp h
      cases h
      exact ⟨rest, written, rfl⟩
  | _ => cases h

/-- The lines that were written to a transcript are a tuple. -/
theorem lines_of_attains {id : Nat} {lines : List Value}
    (h : (Handler.transcript id lines).Attains call state) :
    ∃ pending written, state = .tuple [pending, .tuple written] := by
  induction h with
  | start starts =>
    cases starts
    exact ⟨_, _, rfl⟩
  | step _ steps ih =>
    obtain ⟨pending, written, rfl⟩ := ih
    exact transcriptStep_lines (whenKind_handled steps)

/-- The handlers of the library start without failing and without changing the world. -/
theorem Shipped.start_still {h : Handler} (hs : h.Shipped) (w : World) :
    ∃ state, h.start call w = .value state w := by
  cases hs <;> exact ⟨_, rfl⟩

/-- The handlers of the library finish without failing and without changing the world. -/
theorem Shipped.finish_still {h : Handler} (hs : h.Shipped) (hstate : h.Attains call state)
    (w : World) : ∃ o, h.finish call state w = .value o w := by
  cases hs with
  | emitter | stream | store | counter => exact ⟨state, rfl⟩
  | collector id =>
    obtain ⟨vs, hvs⟩ := entries_of_attains hstate
    refine ⟨.list vs.reverse, ?_⟩
    rw [finish, collectorFinish, hvs]
    rfl
  | transcript id lines =>
    obtain ⟨pending, written, rfl⟩ := lines_of_attains hstate
    exact ⟨.list written.reverse, rfl⟩

end Handler

section

variable {call : Call} {hs : ι → Handler} {is : List ι} {w₀ : World}

/-- Each of some handlers is in a state that it can be in. -/
theorem Met.attains {σ : ι → Value} {w : World} (hmet : Met call hs is w₀ σ w) {i : ι}
    (hi : i ∈ is) : (hs i).Attains call (σ i) := by
  induction hmet with
  | start starts => exact .start (starts i hi)
  | plain _ _ ih => exact ih
  | @taken σ j _ state _ _ _ _ _ takes ih =>
    -- Only the handler that took the effect is in a new state.
    by_cases hij : i = j
    · subst hij
      rw [Function.update_self]
      exact ih.step takes
    · rw [Function.update_of_ne hij]
      exact ih

/-- The handlers of the library start and finish without failing and without changing the world. -/
theorem discreet_of_shipped (hshipped : ∀ i ∈ is, (hs i).Shipped) (w₀ : World) :
    Discreet call hs is w₀ where
  start {i} hi := (hshipped i hi).start_still w₀
  finish {_ w} hmet {i} hi := (hshipped i hi).finish_still (hmet.attains hi) w

/-- Handlers of one kind each are apart if no request is of two of the kinds. -/
theorem apart_of_simple {kinds : ι → Kind} (hsimple : ∀ i ∈ is, (hs i).Simple (kinds i))
    (hkinds : ∀ i ∈ is, ∀ j ∈ is, i ≠ j → ∀ r : Request,
      r.isA (kinds i) = false ∨ r.isA (kinds j) = false) (w₀ : World) :
    Apart call hs is w₀ where
  quiet {σ w} _ {i} hi {e v w'} hv hleft := by
    cases hk : e.request.isA (kinds i) with
    | true =>
      obtain ⟨state, next, rfl⟩ := (hsimple i hi).offer_of_kind hk hv
      cases hleft
    | false =>
      rw [(hsimple i hi).offer_of_other hk] at hv
      exact (Action.pure_eq_value.mp hv).2.symm
  declines {σ w} _ e {i j} hi hj hij := by
    have hdeclines {i : ι} (hi : i ∈ is) (hk : e.request.isA (kinds i) = false) :
        (hs i).Declines call (σ i) e w :=
      ⟨.declined, by rw [(hsimple i hi).offer_of_other hk]; rfl, rfl⟩
    exact (hkinds i hi j hj hij e.request).imp (hdeclines hi) (hdeclines hj)

end

/-! ### The theorem -/

/-- **Neither the order nor the grouping of combined handlers matters.**  Handlers are put together
in two shapes that have the same leaves.  If no effect is claimed by two of them, a handler that
does not claim an effect changes nothing, and the handlers start and finish without failing and
without changing the world, then two runs of a chain, each from the world in which it was built,
agree: they handle the same effects in the same order; they fail in the same way or both succeed,
with the same value after the same number of steps, and every handler ends in the same state and
with the same result; only the nesting of states and results is that of the shape, and of the world
only diagnostics differ. -/
theorem runs_agree (s : Settings) (hs : ι → Handler) :
    (∀ (left right : Shape ι) a b c w w', Arranged hs left a → Arranged hs right b →
      Handler.pairOf a b w = .value c w' → Arranged hs (.pair left right) c) ∧
    (∀ (ts : List (Shape ι)) as c w w', List.Forall₂ (Arranged hs) ts as →
      Handler.combine as w = .value c w' →
      ∃ t, t.leaves = ts.flatMap Shape.leaves ∧ Arranged hs t c) ∧
    ∀ (t t' : Shape ι) (A B : Handler), Arranged hs t A → Arranged hs t' B → t.leaves.Nodup →
      t.leaves.Perm t'.leaves → ∀ w : World, Apart (Callable.meaning s) hs t.leaves w →
      Discreet (Callable.meaning s) hs t.leaves w → ∀ c : Chain,
      handledInRun s (Callable.meaning s) c A w = handledInRun s (Callable.meaning s) c B w ∧
      (runWithEnd s (Callable.meaning s) c A w).Agree
        (fun p q => ∃ x n σ o, p = (⟨x, t.nest σ, n⟩, .result x (t.nest o)) ∧
          q = (⟨x, t'.nest σ, n⟩, .result x (t'.nest o)))
        (runWithEnd s (Callable.meaning s) c B w) ∧
      (run s (Callable.meaning s) c A w).Agree
        (fun r q => ∃ x o, r = .result x (t.nest o) ∧ q = .result x (t'.nest o))
        (run s (Callable.meaning s) c B w) := by
  refine ⟨?_, ?_, ?_⟩
  · intro left right a b c w w' ha hb hc
    exact .of_pairOf ha hb hc
  · intro ts as c w w' parts hc
    exact Arranged.of_combine parts hc
  · intro t t' A B hA hB hn hp w hapart hdiscreet c
    obtain ⟨hends, hhandled⟩ := runWithEnd_agree hA hB hn hp hapart hdiscreet c
    refine ⟨hhandled, hends, ?_⟩
    -- The result of a run is a part of what was compared.
    rw [run_eq_runWithEnd, run_eq_runWithEnd]
    refine hends.bind ?_
    rintro _ _ w v ⟨x, n, σ, o, rfl, rfl⟩ hw
    exact .ret ⟨x, o, rfl, rfl⟩ hw

/-- A collector, a store and a counter. -/
def trio : Fin 3 → Handler
  | 0 => .collector 1
  | 1 => .store 2 []
  | 2 => .counter 3

/-- The kinds of request that they interpret. -/
def trioKinds : Fin 3 → Kind
  | 0 => .log
  | 1 => .state
  | 2 => .tick

/-- The three handlers, nested to the right. -/
def trioRight : Shape (Fin 3) := .pair (.leaf 0) (.pair (.leaf 1) (.leaf 2))

/-- The three handlers in another order, nested to the left. -/
def trioLeft : Shape (Fin 3) := .pair (.pair (.leaf 2) (.leaf 0)) (.leaf 1)

/-- A log entry, after which the counter goes up. -/
def entryThenTick : Effect :=
  ((Effect.of (.log (.text "a"))).map .lift).map (.bind (.always (tickBy 2)))

theorem entryThenTick_offer (call : Call) (w : World) :
    (Handler.pair 1 (trio 0) (.pair 0 (trio 1) (trio 2))).offer call
        (.tuple [.null, .tuple [.frozen [], .int 0]]) entryThenTick w
      = .value (.handled (.tuple [.tuple [.text "a", .null], .tuple [.frozen [], .int 0]])
          (.chain (tickBy 2))) w := by
  have hresume : entryThenTick.resume call .null = pure (.chain (tickBy 2)) := by
    rw [entryThenTick, Effect.resume_map, Effect.resume_map, Effect.resume_of]
    rfl
  show (((entryThenTick.resume call .null >>= _) >>= _) >>= _) w = _
  rw [hresume]
  rfl

theorem tickBy_offer (call : Call) (w : World) :
    (Handler.pair 1 (trio 0) (.pair 0 (trio 1) (trio 2))).offer call
        (.tuple [.tuple [.text "a", .null], .tuple [.frozen [], .int 0]])
        ((Effect.of (.tick (.int 2))).map .lift) w
      = .value (.handled (.tuple [.tuple [.text "a", .null], .tuple [.frozen [], .int 2]])
          (.chain (.finished (.int 2)))) w := by
  have hresume : ((Effect.of (.tick (.int 2))).map .lift).resume call (.int 2)
      = pure (.chain (.finished (.int 2))) := by
    rw [Effect.resume_map, Effect.resume_of]
    rfl
  show ((((Effect.resume call _ (.int 2) >>= _) >>= _) >>= _) >>= _) w = _
  rw [hresume]
  rfl

/-- The run of the entry and the tick against the three handlers, nested to the right. -/
theorem run_entryThenTick (call : Call) (w : World) :
    ∃ w', run ⟨false, 5⟩ call (.suspended entryThenTick (.single ⟨"log"⟩))
        (.pair 1 (trio 0) (.pair 0 (trio 1) (trio 2))) w
      = .value (.result (.int 2) (.tuple [.list [.text "a"], .tuple [.frozen [], .int 2]])) w' := by
  have hdrive (w : World) : drive ⟨false, 5⟩
      ((Handler.pair 1 (trio 0) (.pair 0 (trio 1) (trio 2))).offer call) 5 0
      (.tuple [.null, .tuple [.frozen [], .int 0]])
      (.chain (.suspended entryThenTick (.single ⟨"log"⟩))) w
      = .value ⟨.int 2, .tuple [.tuple [.text "a", .null], .tuple [.frozen [], .int 2]], 2⟩ w := by
    rw [drive_suspended, Action.bind_of_value (entryThenTick_offer call w)]
    show drive ⟨false, 5⟩ _ 4 1 _ (.chain (.suspended _ (.single ⟨"counter"⟩))) w = _
    rw [drive_suspended, Action.bind_of_value (tickBy_offer call w)]
    rfl
  have hcheck : checkProvided (.suspended entryThenTick (.single ⟨"log"⟩))
      (.pair 1 (trio 0) (.pair 0 (trio 1) (trio 2))) w = .value () w := rfl
  obtain ⟨w₁, hopen⟩ : ∃ w₁, openRun call (.pair 1 (trio 0) (.pair 0 (trio 1) (trio 2))) w
      = .value (.tuple [.null, .tuple [.frozen [], .int 0]]) w₁ := ⟨_, rfl⟩
  rw [run, runBy, Action.bind_of_value hcheck, Action.bind_of_value hopen,
    Action.bind_of_value (hdrive w₁)]
  exact ⟨_, rfl⟩

/-- The three handlers as they are combined, and put together in another order. -/
theorem runs_agree_trio :
    ∃ w, Handler.combine [trio 0, trio 1, trio 2] (.initial "")
        = .value (.pair 1 (trio 0) (.pair 0 (trio 1) (trio 2))) w ∧
      (∃ t, t.leaves = [0, 1, 2] ∧
        Arranged trio t (.pair 1 (trio 0) (.pair 0 (trio 1) (trio 2)))) ∧
      handledInRun ⟨false, 5⟩ (Callable.meaning ⟨false, 5⟩)
          (.suspended entryThenTick (.single ⟨"log"⟩))
          (.pair 1 (trio 0) (.pair 0 (trio 1) (trio 2))) w
        = handledInRun ⟨false, 5⟩ (Callable.meaning ⟨false, 5⟩)
          (.suspended entryThenTick (.single ⟨"log"⟩))
          (.pair 3 (.pair 2 (trio 2) (trio 0)) (trio 1)) w ∧
      ∃ w', run ⟨false, 5⟩ (Callable.meaning ⟨false, 5⟩)
          (.suspended entryThenTick (.single ⟨"log"⟩))
          (.pair 3 (.pair 2 (trio 2) (trio 0)) (trio 1)) w
        = .value (.result (.int 2) (.tuple [.tuple [.int 2, .list [.text "a"]], .frozen []])) w' := by
  obtain ⟨hpair, hcombine, hruns⟩ := runs_agree ⟨false, 5⟩ trio
  have hinner : Arranged trio (.pair (.leaf 1) (.leaf 2)) (.pair 0 (trio 1) (trio 2)) :=
    hpair (.leaf 1) (.leaf 2) _ _ _ (.initial "") _ (.leaf 1) (.leaf 2) rfl
  have hA : Arranged trio trioRight (.pair 1 (trio 0) (.pair 0 (trio 1) (trio 2))) :=
    hpair (.leaf 0) (.pair (.leaf 1) (.leaf 2)) _ _ _ { World.initial "" with fresh := 1 } _
      (.leaf 0) hinner rfl
  have hB : Arranged trio trioLeft (.pair 3 (.pair 2 (trio 2) (trio 0)) (trio 1)) :=
    .pair 3 (.pair 2 (.leaf 2) (.leaf 0)) (.leaf 1)
  have hshipped (i : Fin 3) : (trio i).Shipped := by
    match i with
    | 0 => exact .collector 1
    | 1 => exact .store 2 []
    | 2 => exact .counter 3
  have hsimple (i : Fin 3) : (trio i).Simple (trioKinds i) := by
    match i with
    | 0 => exact .collector 1
    | 1 => exact .store 2 []
    | 2 => exact .counter 3
  have hkinds (r : Request) (i j : Fin 3) (hij : i ≠ j) :
      r.isA (trioKinds i) = false ∨ r.isA (trioKinds j) = false := by
    match i, j with
    | 0, 0 | 1, 1 | 2, 2 => exact absurd rfl hij
    | 0, 1 | 0, 2 | 1, 0 | 1, 2 | 2, 0 | 2, 1 =>
      cases r <;> first
        | exact .inl rfl
        | exact .inr rfl
  obtain ⟨w, hw⟩ : ∃ w, Handler.combine [trio 0, trio 1, trio 2] (.initial "")
      = .value (.pair 1 (trio 0) (.pair 0 (trio 1) (trio 2))) w := ⟨_, rfl⟩
  have hcombined := hcombine [.leaf 0, .leaf 1, .leaf 2] _ _ _ w
    (.cons (.leaf 0) (.cons (.leaf 1) (.cons (.leaf 2) .nil))) hw
  obtain ⟨hhandled, -, hruns⟩ := hruns trioRight trioLeft _ _ hA hB (by decide) (by decide) w
    (apart_of_simple (fun i _ => hsimple i) (fun i _ j _ hij r => hkinds r i j hij) w)
    (discreet_of_shipped (fun i _ => hshipped i) w) (.suspended entryThenTick (.single ⟨"log"⟩))
  obtain ⟨w₁, hright⟩ := run_entryThenTick (Callable.meaning ⟨false, 5⟩) w
  rw [hright] at hruns
  obtain ⟨q, w', hleft, ⟨x, o, hr, rfl⟩, -⟩ := hruns.of_value
  -- The parts of the one result are those of the other.
  obtain ⟨rfl, ho⟩ := Value.result.inj hr
  obtain ⟨ho₀, ho⟩ := List.cons.inj (Value.tuple.inj ho)
  obtain ⟨ho, -⟩ := List.cons.inj ho
  obtain ⟨ho₁, ho⟩ := List.cons.inj (Value.tuple.inj ho)
  obtain ⟨ho₂, -⟩ := List.cons.inj ho
  rw [Shape.nest] at ho₀ ho₁ ho₂
  refine ⟨w, hw, hcombined, hhandled, w', hleft.trans ?_⟩
  rw [trioLeft, Shape.nest, Shape.nest, Shape.nest, Shape.nest, Shape.nest, ← ho₀, ← ho₁, ← ho₂]

end EffectHandlers
