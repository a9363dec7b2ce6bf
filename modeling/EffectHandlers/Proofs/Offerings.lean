/-
EffectHandlers/Proofs/Offerings.lean

What a run offers, and what comes to one of its handlers.

A drive offers an effect to the leaves of a combination in turn, in their
states and in some world (`Offering`).  The effect comes to the first leaf
that does not decline it, also if that leaf fails on it
(`Offering.claimant`).  The effects that come to one leaf in a run are listed
in order, however the run ends (`claimedInRun`); if the run gives a value,
they are among those that it handles (`claimedInRun_sublist`).

All that a run does, apart from diagnostic records, are calls of the methods
of the leaves: it starts them, offers effects to them and finishes them
(`callsInRun`).  If a run comes to an end and has nothing to do with a stream,
neither has any of these calls.

Main result: the calls of a run that has nothing to do with a stream
(`clear_callsInRun`).
-/
import EffectHandlers.Proofs.InStep

namespace EffectHandlers

variable {ι : Type} {source : Option Nat} {w : World}

/-! ### Where an effect goes -/

/-- The handler that an effect comes to when it is offered along a list: the first one that does
not decline it, also if it fails on it. -/
def claimant (call : Call) (hs : ι → Handler) (σ : ι → Value) (e : Effect) :
    List ι → World → Option ι
  | [], _ => none
  | i :: is, w =>
    match (hs i).offer call (σ i) e w with
    | .value v w' => if (v.claim i).isSome then some i else claimant call hs σ e is w'
    | .failed _ _ | .exhausted => some i

section

variable {call : Call} {hs : ι → Handler} {σ : ι → Value} {e : Effect} {i : ι}

theorem offerEach_of_declined (h : (hs i).offer call (σ i) e = pure .declined) (is : List ι) :
    offerEach call hs σ e (i :: is) = offerEach call hs σ e is := by
  rw [offerEach_cons, h]
  rfl

theorem claimant_of_declined (h : (hs i).offer call (σ i) e = pure .declined) (is : List ι)
    (w : World) : claimant call hs σ e (i :: is) w = claimant call hs σ e is w := by
  rw [claimant, h]
  rfl

/-- An effect of its kind goes no further than a simple handler. -/
theorem claimant_of_kind {k : Kind} (h : (hs i).Simple k) (hk : e.request.isA k = true)
    (is : List ι) (w : World) : claimant call hs σ e (i :: is) w = some i := by
  rw [claimant]
  cases hv : (hs i).offer call (σ i) e w with
  | value v w' =>
    obtain ⟨state, next, rfl⟩ := h.offer_of_kind hk hv
    rfl
  | failed f w' => rfl
  | exhausted => rfl

end

/-! ### Calls of the leaves -/

/-- Something that is done in a world. -/
structure Performed where
  act : Action Value
  world : World

/-- What is done has nothing to do with a stream, if one is named. -/
def Performed.Clear (source : Option Nat) (p : Performed) : Prop :=
  EffectHandlers.Clear source p.act p.world

/-- What is done at the leaves in a visit. -/
def Shape.calls (x : ι → Action Value) : Shape ι → World → List Performed
  | .leaf i, w => [⟨x i, w⟩]
  | .pair left right, w =>
    left.calls x w ++
      match left.visit x w with
      | .value _ w => right.calls x w
      | _ => []

/-- The offers that are made along a list of leaves until one of them takes the effect. -/
def offerCalls (call : Call) (hs : ι → Handler) (σ : ι → Value) (e : Effect) :
    List ι → World → List Performed
  | [], _ => []
  | i :: is, w =>
    ⟨(hs i).offer call (σ i) e, w⟩ ::
      match (hs i).offer call (σ i) e w with
      | .value v w => if (v.claim i).isSome then [] else offerCalls call hs σ e is w
      | _ => []

section

variable (s : Settings)

theorem regular_afterClaim {rest : Action (Claim ι)} (h : Regular rest) (r : Claim ι) :
    Regular (afterClaim rest r) := by
  cases r with
  | none => exact h
  | some r => exact .ret _

theorem regular_offerEach (hs : ι → Handler) (σ : ι → Value) (e : Effect) (is : List ι) :
    Regular (offerEach (Callable.meaning s) hs σ e is) := by
  induction is with
  | nil => exact .ret none
  | cons i is ih =>
    rw [offerEach_cons]
    exact .bind (regular_offer s ..) fun v => regular_afterClaim ih _

end

theorem Shape.regular_visit {x : ι → Action Value} (h : ∀ i, Regular (x i)) (t : Shape ι) :
    Regular (t.visit x) := by
  induction t with
  | leaf i => exact h i
  | pair left right ihl ihr => exact .bind ihl fun _ => .bind ihr fun _ => .ret _

section

variable {s : Settings} {hs : ι → Handler} {t : Shape ι}

theorem clear_calls_of_visit {x : ι → Action Value} (hx : ∀ i, Regular (x i))
    (h : EndsClear source (t.visit x) w) : ∀ p ∈ t.calls x w, p.Clear source := by
  induction t generalizing w with
  | leaf i =>
    intro p hp
    rw [List.mem_singleton.mp hp]
    exact h.clear
  | pair left right ihl ihr =>
    obtain ⟨hleft, hrest⟩ := h.bind (Shape.regular_visit hx left).reads fun k v =>
      ((Shape.regular_visit hx right).bind fun _ => .ret _).reads k
    intro p hp
    rcases List.mem_append.mp hp with hp | hp
    · exact ihl hleft p hp
    · cases hv : left.visit x w with
      | value v u =>
        rw [hv] at hp
        have hright := (hrest v u hv).bind (Shape.regular_visit hx right).reads fun _ _ => .ret _
        exact ihr hright.1 p hp
      | failed | exhausted =>
        rw [hv] at hp
        cases hp

theorem clear_offerCalls {σ : ι → Value} {e : Effect} {is : List ι}
    (h : EndsClear source (offerEach (Callable.meaning s) hs σ e is) w) :
    ∀ p ∈ offerCalls (Callable.meaning s) hs σ e is w, p.Clear source := by
  induction is generalizing w with
  | nil => exact nofun
  | cons i is ih =>
    rw [offerEach_cons] at h
    obtain ⟨hhead, hrest⟩ := h.bind (regular_offer s (hs i) (σ i) e).reads fun k v =>
      (regular_afterClaim (regular_offerEach s hs σ e is) _).reads k
    intro p hp
    rcases List.mem_cons.mp hp with rfl | hp
    · exact hhead.clear
    · cases hv : (hs i).offer (Callable.meaning s) (σ i) e w with
      | value v u =>
        rw [hv] at hp
        have hrest := hrest v u hv
        cases hclaim : v.claim i with
        | none =>
          rw [hclaim] at hrest
          simp only [hclaim] at hp
          exact ih hrest p hp
        | some r =>
          simp only [hclaim] at hp
          cases hp
      | failed | exhausted =>
        rw [hv] at hp
        cases hp

end

section

variable [DecidableEq ι]

/-- The values at the leaves of a nest. -/
def Shape.parts : Shape ι → Value → ι → Value
  | .leaf _, v => fun _ => v
  | .pair left right, .tuple [a, b] => fun i =>
    if i ∈ left.leaves then left.parts a i else right.parts b i
  | .pair _ _, _ => fun _ => .null

theorem Shape.parts_nest {σ : ι → Value} {t : Shape ι} (hn : t.leaves.Nodup) {i : ι}
    (hi : i ∈ t.leaves) : t.parts (t.nest σ) i = σ i := by
  induction t with
  | leaf j => rw [List.mem_singleton.mp hi]; rfl
  | pair left right ihl ihr =>
    obtain ⟨hnl, hnr, -⟩ := List.nodup_append.mp hn
    by_cases hl : i ∈ left.leaves
    · simpa [parts, nest, hl] using ihl hnl hl
    · simpa [parts, nest, hl] using ihr hnr ((List.mem_append.mp hi).resolve_left hl)

theorem Shape.nest_parts {t : Shape ι} (hn : t.leaves.Nodup) {o : ι → Value} :
    t.nest o = t.nest (t.parts (t.nest o)) :=
  nest_congr fun _ hi => (parts_nest hn hi).symm

/-! ### Offerings -/

/-- An effect that is offered to the leaves of a combination: their states, the effect and the
world. -/
structure Offering (ι : Type) where
  states : ι → Value
  effect : Effect
  world : World

/-- The leaf that an effect comes to when it is offered. -/
def Offering.claimant (call : Call) (hs : ι → Handler) (t : Shape ι) (o : Offering ι) : Option ι :=
  EffectHandlers.claimant call hs o.states o.effect t.leaves o.world

/-- What a drive offers, in order, however the drive ends. -/
def offersBy (s : Settings) (call : Call) (hs : ι → Handler) (t : Shape ι) :
    Nat → Nat → (ι → Value) → Value → World → List (Offering ι) :=
  fun fuel steps σ next w =>
    match next with
    | .chain (.suspended e _) =>
      match fuel with
      | 0 => []
      | fuel + 1 =>
        ⟨σ, e, w⟩ ::
          match offerEach call hs σ e t.leaves w with
          | .value (some (i, state, next)) w =>
            match s.noteStep (steps + 1) e w with
            | .value _ w =>
              offersBy s call hs t fuel (steps + 1) (Function.update σ i state) next w
            | _ => []
          | _ => []
    | _ => []
termination_by structural fuel => fuel

/-- What a run offers, in order, however the run ends. -/
def offersInRun (s : Settings) (call : Call) (c : Chain) (hs : ι → Handler) (t : Shape ι)
    (A : Handler) (w : World) : List (Offering ι) :=
  match (checkProvided c A >>= fun _ => openRun call A) w with
  | .value state w => offersBy s call hs t s.maxSteps 0 (t.parts state) (.chain c) w
  | _ => []

section

variable {s : Settings} {call : Call} {hs : ι → Handler} {t : Shape ι} {fuel steps : Nat}
  {σ : ι → Value} {next : Value} {e : Effect} {r : CapabilitySet} {w₁ w₂ : World}

theorem offersBy_zero (next : Value) : offersBy s call hs t 0 steps σ next w = [] := by
  cases next with
  | chain c => cases c <;> rfl
  | _ => rfl

theorem offersBy_ended (h : ∀ e r, next ≠ .chain (.suspended e r)) :
    offersBy s call hs t fuel steps σ next w = [] := by
  cases next with
  | chain c =>
    cases c with
    | done v r => cases fuel <;> rfl
    | suspended e r => exact absurd rfl (h e r)
  | _ => cases fuel <;> rfl

theorem offersBy_taken {i : ι} {state : Value}
    (htaken : offerEach call hs σ e t.leaves w = .value (some (i, state, next)) w₁)
    (hnote : s.noteStep (steps + 1) e w₁ = .value () w₂) :
    offersBy s call hs t (fuel + 1) steps σ (.chain (.suspended e r)) w
      = ⟨σ, e, w⟩ :: offersBy s call hs t fuel (steps + 1) (Function.update σ i state) next w₂ := by
  simp only [offersBy, htaken, hnote]

/-- An effect that is taken and cannot be recorded is the last one that is offered. -/
theorem offersBy_unrecorded {i : ι} {state : Value} {f : Failure}
    (htaken : offerEach call hs σ e t.leaves w = .value (some (i, state, next)) w₁)
    (hnote : s.noteStep (steps + 1) e w₁ = .failed f w₂) :
    offersBy s call hs t (fuel + 1) steps σ (.chain (.suspended e r)) w = [⟨σ, e, w⟩] := by
  simp only [offersBy, htaken, hnote]

theorem offersBy_left
    (h : ∀ r w', offerEach call hs σ e t.leaves w ≠ .value (some r) w') :
    offersBy s call hs t (fuel + 1) steps σ (.chain (.suspended e r)) w = [⟨σ, e, w⟩] := by
  rw [offersBy]
  split
  · rename_i i state next w' hx
    exact absurd hx (h _ w')
  · rfl

end

/-- A drive that has come to its end handles nothing. -/
theorem handledBy_ended {s : Settings} {offer : Offer} {fuel steps : Nat} {state next : Value}
    (h : ∀ e r, next ≠ .chain (.suspended e r)) :
    handledBy s offer fuel steps state next w = [] := by
  cases next with
  | chain c =>
    cases c with
    | done v r => exact handledBy_done ..
    | suspended e r => exact absurd rfl (h e r)
  | _ => cases fuel <;> rfl

theorem handledBy_zero (s : Settings) (offer : Offer) (steps : Nat) (state next : Value)
    (w : World) : handledBy s offer 0 steps state next w = [] := by
  cases next with
  | chain c => cases c <;> rfl
  | _ => rfl

/-- A run begins in a state with one part for each leaf. -/
theorem Arranged.exists_nest_of_openRun {call : Call} {hs : ι → Handler} {t : Shape ι}
    {A : Handler} (hA : Arranged hs t A) (hn : t.leaves.Nodup) {state : Value} {w' : World}
    (h : openRun call A w = .value state w') : ∃ o, state = t.nest o := by
  rw [openRun, hA.start_eq] at h
  obtain ⟨state', w₁, hstart, h⟩ := Action.bind_eq_value.mp h
  obtain ⟨_, w₂, -, h⟩ := Action.bind_eq_value.mp h
  obtain ⟨rfl, -⟩ := Action.pure_eq_value.mp h
  obtain ⟨o, ho, -⟩ := Shape.visit_value hn hstart
  exact ⟨o, ho⟩

/-! ### What comes to a slot -/

/-- The effects that come to a slot, among some that are offered. -/
def claimedOf (call : Call) (hs : ι → Handler) (t : Shape ι) (slot : ι) (os : List (Offering ι)) :
    List Effect :=
  (os.filter fun o => o.claimant call hs t = some slot).map (·.effect)

/-- The effects that come to a slot in a run against a combination, in order, however the run
ends. -/
def claimedInRun (s : Settings) (call : Call) (c : Chain) (hs : ι → Handler) (t : Shape ι)
    (slot : ι) (A : Handler) (w : World) : List Effect :=
  claimedOf call hs t slot (offersInRun s call c hs t A w)

/-- The effect that comes to a slot, if it does. -/
def comes (slot : ι) (e : Effect) (i : Option ι) : List Effect := if i = some slot then [e] else []

section

variable {s : Settings} {call : Call} {hs : ι → Handler} {t : Shape ι} {slot : ι} {A : Handler}

theorem claimedOf_cons (o : Offering ι) (os : List (Offering ι)) :
    claimedOf call hs t slot (o :: os)
      = comes slot o.effect (o.claimant call hs t) ++ claimedOf call hs t slot os := by
  by_cases h : o.claimant call hs t = some slot <;> simp [claimedOf, comes, h]

theorem claimedOf_singleton (o : Offering ι) : claimedOf call hs t slot [o]
    = comes slot o.effect (o.claimant call hs t) :=
  (claimedOf_cons o []).trans (List.append_nil _)

/-- What is offered in a drive that ends is handled, in this order. -/
theorem map_effect_offersBy (hA : Arranged hs t A) (hn : t.leaves.Nodup) {fuel steps : Nat}
    {σ : ι → Value} {next : Value} {d : Drive} {w' : World}
    (h : drive s (A.offer call) fuel steps (t.nest σ) next w = .value d w') :
    (offersBy s call hs t fuel steps σ next w).map (·.effect)
      = handledBy s (A.offer call) fuel steps (t.nest σ) next w := by
  induction fuel generalizing steps σ next w with
  | zero =>
    rw [offersBy_zero, handledBy_zero]
    rfl
  | succ fuel ih =>
    by_cases hnext : ∃ e r, next = .chain (.suspended e r)
    · obtain ⟨e, r, rfl⟩ := hnext
      rw [hA.drive_suspended hn] at h
      obtain ⟨claim, w₁, hv, h⟩ := Action.bind_eq_value.mp h
      rcases claim with _ | ⟨i, state, next⟩
      · exact (failUnhandled_ne_value _ _ _ _ _ h).elim
      · obtain ⟨_, w₂, hnote, h⟩ := Action.bind_eq_value.mp h
        rw [offersBy_taken hv hnote, hA.handledBy_taken hn hv hnote, List.map_cons, ih h]
    · have hnext (e : Effect) (r : CapabilitySet) : next ≠ .chain (.suspended e r) :=
        fun h => hnext ⟨e, r, h⟩
      rw [offersBy_ended hnext, handledBy_ended hnext]
      rfl

/-- What is offered in a run that gives a value is handled, in this order. -/
theorem map_effect_offersInRun (hA : Arranged hs t A) (hn : t.leaves.Nodup) {c : Chain} {v : Value}
    {w' : World} (h : run s call c A w = .value v w') :
    (offersInRun s call c hs t A w).map (·.effect) = handledInRun s call c A w := by
  obtain ⟨_, w₁, hprovided, h⟩ := Action.bind_eq_value.mp h
  obtain ⟨state, w₂, hopen, h⟩ := Action.bind_eq_value.mp h
  obtain ⟨d, w₃, hdrive, -⟩ := Action.bind_eq_value.mp h
  rw [offersInRun, handledInRun, Action.bind_of_value hprovided, hopen]
  obtain ⟨o, rfl⟩ := hA.exists_nest_of_openRun hn hopen
  rw [Shape.nest_parts hn] at hdrive
  have h := map_effect_offersBy hA hn hdrive
  rwa [← Shape.nest_parts hn] at h

/-- What comes to a slot in a run that gives a value is handled, in this order. -/
theorem claimedInRun_sublist (hA : Arranged hs t A) (hn : t.leaves.Nodup) {c : Chain} {v : Value}
    {w' : World} (h : run s call c A w = .value v w') :
    (claimedInRun s call c hs t slot A w).Sublist (handledInRun s call c A w) := by
  rw [← map_effect_offersInRun hA hn h]
  exact List.filter_sublist.map _

end

/-! ### Calls in a run -/

/-- The offers that are made of an effect. -/
def Offering.calls (call : Call) (hs : ι → Handler) (t : Shape ι) (o : Offering ι) :
    List Performed :=
  offerCalls call hs o.states o.effect t.leaves o.world

/-- What a run does before it finishes the handler. -/
def untilFinish (s : Settings) (call : Call) (c : Chain) (A : Handler) : Action Drive := do
  checkProvided c A
  let state ← openRun call A
  let d ← drive s (A.offer call) s.maxSteps 0 state (.chain c)
  Action.note .debug ("Run finished after " ++ toString d.steps ++ " step(s)")
  return d

/-- The calls of the methods of the leaves in a run against a combination: starts, offers and
finishes. -/
def callsInRun (s : Settings) (call : Call) (c : Chain) (hs : ι → Handler) (t : Shape ι)
    (A : Handler) (w : World) : List Performed :=
  (match checkProvided c A w with
    | .value _ w => t.calls (fun i => (hs i).start call) w
    | _ => []) ++
  (offersInRun s call c hs t A w).flatMap (·.calls call hs t) ++
  match untilFinish s call c A w with
  | .value d w => t.calls (fun i => (hs i).finish call (t.parts d.state i)) w
  | _ => []

/-! ### Runs that have nothing to do with a stream -/

section

variable (s : Settings)

theorem regular_afterOffer (A : Handler) (fuel steps : Nat) (e : Effect)
    (t : Shape ι) (σ : ι → Value) (r : Claim ι) :
    Regular (Arranged.afterOffer s (A.offer (Callable.meaning s)) fuel steps e t σ r) := by
  rcases r with _ | ⟨i, state, next⟩
  · exact regular_failUnhandled ..
  · exact .bind (regular_noteStep ..) fun _ => regular_drive ..

end

section

variable {s : Settings} {hs : ι → Handler} {t : Shape ι} {A : Handler}

/-- What is offered in a drive that has nothing to do with a stream. -/
theorem clear_calls_of_drive (hA : Arranged hs t A) (hn : t.leaves.Nodup) {fuel steps : Nat}
    {σ : ι → Value} {next : Value}
    (h : EndsClear source
      (drive s (A.offer (Callable.meaning s)) fuel steps (t.nest σ) next) w) :
    ∀ o ∈ offersBy s (Callable.meaning s) hs t fuel steps σ next w,
      ∀ p ∈ o.calls (Callable.meaning s) hs t, p.Clear source := by
  induction fuel generalizing steps σ next w with
  | zero =>
    rw [offersBy_zero]
    exact nofun
  | succ fuel ih =>
    by_cases hnext : ∃ e r, next = .chain (.suspended e r)
    · obtain ⟨e, r, rfl⟩ := hnext
      rw [hA.drive_suspended hn] at h
      obtain ⟨hhead, hrest⟩ := h.bind (regular_offerEach s hs σ e t.leaves).reads fun k v =>
        (regular_afterOffer s A fuel steps e t σ v).reads k
      by_cases htaken : ∃ r w',
          offerEach (Callable.meaning s) hs σ e t.leaves w = .value (some r) w'
      · obtain ⟨⟨i, state, next⟩, w₁, hv⟩ := htaken
        obtain hnote | ⟨f, hnote⟩ := plain_noteStep s (steps + 1) e
        · obtain ⟨w₂, hnote, -⟩ := hnote w₁
          have hlater := ((hrest _ w₁ hv).bind (regular_noteStep ..).reads fun k _ =>
            (regular_drive s A ..).reads k).2 () w₂ hnote
          rw [offersBy_taken hv hnote]
          intro o ho
          rcases List.mem_cons.mp ho with rfl | ho
          · exact clear_offerCalls hhead
          · exact ih hlater o ho
        · rw [offersBy_unrecorded hv (hnote w₁)]
          intro o ho
          rw [List.mem_singleton.mp ho]
          exact clear_offerCalls hhead
      · rw [offersBy_left fun r w' h => htaken ⟨r, w', h⟩]
        intro o ho
        rw [List.mem_singleton.mp ho]
        exact clear_offerCalls hhead
    · rw [offersBy_ended fun e r h => hnext ⟨e, r, h⟩]
      exact nofun

theorem state_of_drive_ended {offer : Offer} {fuel steps : Nat} {state next : Value} {d : Drive}
    {w' : World} (hnext : ∀ e r, next ≠ .chain (.suspended e r))
    (h : drive s offer fuel steps state next w = .value d w') : d.state = state := by
  cases next with
  | chain c =>
    cases c with
    | done v r =>
      rw [drive_done] at h
      obtain ⟨rfl, -⟩ := Action.pure_eq_value.mp h
      rfl
    | suspended e r => exact absurd rfl (hnext e r)
  | _ => cases fuel <;> cases h

/-- The state in which a drive ends has one part for each leaf. -/
theorem exists_nest_of_drive (hA : Arranged hs t A) (hn : t.leaves.Nodup) {fuel steps : Nat}
    {σ : ι → Value} {next : Value} {call : Call} {d : Drive} {w' : World}
    (h : drive s (A.offer call) fuel steps (t.nest σ) next w = .value d w') :
    ∃ σ', d.state = t.nest σ' := by
  induction fuel generalizing steps σ next w with
  | zero =>
    by_cases hnext : ∃ e r, next = .chain (.suspended e r)
    · obtain ⟨e, r, rfl⟩ := hnext
      cases h
    · exact ⟨σ, state_of_drive_ended (fun e r h => hnext ⟨e, r, h⟩) h⟩
  | succ fuel ih =>
    by_cases hnext : ∃ e r, next = .chain (.suspended e r)
    · obtain ⟨e, r, rfl⟩ := hnext
      rw [hA.drive_suspended hn] at h
      obtain ⟨claim, w₁, -, h⟩ := Action.bind_eq_value.mp h
      rcases claim with _ | ⟨i, state, next⟩
      · exact (failUnhandled_ne_value _ _ _ _ _ h).elim
      · obtain ⟨_, w₂, -, h⟩ := Action.bind_eq_value.mp h
        exact ih h
    · exact ⟨σ, state_of_drive_ended (fun e r h => hnext ⟨e, r, h⟩) h⟩

theorem checkProvided_cases (c : Chain) (h : Handler) :
    checkProvided c h = pure () ∨ ∃ f, checkProvided c h = Action.fail f := by
  by_cases hempty : (c.requires \ h.capabilities).isEmpty = true
  · exact .inl (if_pos hempty)
  · exact .inr ⟨_, if_neg hempty⟩

theorem regular_checkProvided (c : Chain) (h : Handler) : Regular (checkProvided c h) := by
  rcases checkProvided_cases c h with hc | ⟨f, hc⟩
  · rw [hc]
    exact .ret ()
  · rw [hc]
    exact .fail f

/-- A run that ends and has nothing to do with a stream has nothing to do with it in any of its
stages. -/
theorem EndsClear.stages {c : Chain} (h : EndsClear source (run s (Callable.meaning s) c A) w)
    {u : Unit} {w₁ : World} (hc : checkProvided c A w = .value u w₁) :
    EndsClear source (openRun (Callable.meaning s) A) w₁ ∧
    ∀ {state : Value} {w₂ : World}, openRun (Callable.meaning s) A w₁ = .value state w₂ →
      EndsClear source (drive s (A.offer (Callable.meaning s)) s.maxSteps 0 state (.chain c)) w₂ ∧
      ∀ {d : Drive} {w₃ : World}, drive s (A.offer (Callable.meaning s)) s.maxSteps 0 state
        (.chain c) w₂ = .value d w₃ → EndsClear source (closeRun (Callable.meaning s) A d) w₃ := by
  have hregular (state : Value) : Regular (drive s (A.offer (Callable.meaning s)) s.maxSteps 0 state
      (.chain c) >>= closeRun (Callable.meaning s) A) :=
    (regular_drive s A ..).bind fun d => regular_closeRun s A d
  obtain ⟨-, hopen⟩ := h.bind (regular_checkProvided c A).reads fun k _ =>
    ((regular_openRun s A).bind hregular).reads k
  obtain ⟨hstart, hrest⟩ := (hopen u w₁ hc).bind (regular_openRun s A).reads fun k state =>
    (hregular state).reads k
  refine ⟨hstart, fun {state w₂} hv => ?_⟩
  obtain ⟨hdrive, hclose⟩ := (hrest state w₂ hv).bind (regular_drive s A ..).reads fun k d =>
    (regular_closeRun s A d).reads k
  exact ⟨hdrive, fun {d w₃} hd => hclose d w₃ hd⟩

/-- **The calls of a run that comes to an end and has nothing to do with a stream** have nothing
to do with it either. -/
theorem clear_callsInRun (hA : Arranged hs t A) (hn : t.leaves.Nodup) {c : Chain}
    (h : EndsClear source (run s (Callable.meaning s) c A) w) :
    ∀ p ∈ callsInRun s (Callable.meaning s) c hs t A w, p.Clear source := by
  intro p hp
  rw [callsInRun, List.mem_append, List.mem_append] at hp
  rcases hp with (hp | hp) | hp
  · cases hc : checkProvided c A w with
    | value u w₁ =>
      rw [hc] at hp
      have hstart := (h.stages hc).1
      rw [openRun, hA.start_eq] at hstart
      have hleaf (i : ι) := regular_start s (hs i)
      exact clear_calls_of_visit hleaf (hstart.bind (Shape.regular_visit hleaf t).reads
        fun k _ => ((regular_note ..).bind fun _ => .ret _).reads k).1 p hp
    | failed | exhausted =>
      rw [hc] at hp
      cases hp
  · obtain ⟨o, ho, hp⟩ := List.mem_flatMap.mp hp
    cases hbegin : (checkProvided c A >>= fun _ => openRun (Callable.meaning s) A) w with
    | value state w₂ =>
      rw [offersInRun, hbegin] at ho
      obtain ⟨u, w₁, hc, hstart⟩ := Action.bind_eq_value.mp hbegin
      obtain ⟨σ, rfl⟩ := hA.exists_nest_of_openRun hn hstart
      have hdrive := ((h.stages hc).2 hstart).1
      rw [Shape.nest_parts hn] at hdrive
      exact clear_calls_of_drive hA hn hdrive o ho p hp
    | failed | exhausted =>
      rw [offersInRun, hbegin] at ho
      cases ho
  · cases hend : untilFinish s (Callable.meaning s) c A w with
    | value d w₄ =>
      rw [hend] at hp
      obtain ⟨u, w₁, hc, hend⟩ := Action.bind_eq_value.mp hend
      obtain ⟨state, w₂, hstart, hend⟩ := Action.bind_eq_value.mp hend
      obtain ⟨d', w₃, hd, hend⟩ := Action.bind_eq_value.mp hend
      obtain ⟨u', w₅, hnote, hend⟩ := Action.bind_eq_value.mp hend
      obtain ⟨rfl, rfl⟩ := Action.pure_eq_value.mp hend
      have hclose := ((h.stages hc).2 hstart).2 hd
      have hfinish := (hclose.bind (regular_note ..).reads fun k _ =>
        ((regular_finish s A d'.state).bind fun _ => .ret _).reads k).2 u' w₅ hnote
      have hfinish := (hfinish.bind (regular_finish s A d'.state).reads fun k _ => .ret _).1
      obtain ⟨σ, rfl⟩ := hA.exists_nest_of_openRun hn hstart
      obtain ⟨σ', hσ'⟩ := exists_nest_of_drive hA hn hd
      rw [hσ', Shape.nest_parts hn, hA.finish_eq] at hfinish
      simp only [hσ'] at hp
      exact clear_calls_of_visit (fun i => regular_finish s (hs i) _) hfinish p hp
    | failed | exhausted =>
      rw [hend] at hp
      cases hp

end

end

end EffectHandlers
