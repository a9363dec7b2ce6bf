/-
EffectHandlers/Proofs/Twin.lean

Two computations that differ in the record of one call.

Resumable execution keeps books: the record of the call and diagnostics.
Nobody else looks at either.  `outline` forgets both, and also the pipeline
of an effect that nobody handled, which shows only how the program went on.

`Twin R id i w v` says that two worlds have the same outline and that the
record of the call in the first one is `i`.  The two sides are compared step
by step: a framed action does the same on both (`Twin.bind`), and what is
done to the record on the first side is done to `i` (`Twin.changeCall`).

Where steps are recorded, the record of a step that cannot be shown fails.
The two sides make their records at different times, so they are compared
only if this does not happen (`Outcome.Tallies`).
-/
import EffectHandlers.Proofs.DirectStyle
import EffectHandlers.Proofs.Frame
import EffectHandlers.Proofs.Records

namespace EffectHandlers

/-! ### Outlines -/

/-- Whether an event is more than a diagnostic record. -/
def Event.isVisible : Event → Bool
  | .noted _ _ => false
  | .traced _ _ | .wrote _ | .emitted _ _ _ => true

/-- The record of a call that says nothing. -/
def Invocation.blank : Invocation := ⟨[], [], #[], #[], none⟩

/-- The world without the record of a call and without diagnostics. -/
def World.outline (id : Nat) (w : World) : World :=
  { w with
    invocations := w.invocations.setIfInBounds id .blank
    events := w.events.filter (·.isVisible) }

/-- The failure without the pipeline of an effect that nobody handled. -/
def Failure.outline : Failure → Failure
  | .refused (.unhandledEffect e) => .refused (.unhandledEffect (.of e.request))
  | other => other

/-- Class and wording of a failure stay. -/
theorem Failure.message_outline (f : Failure) :
    f.outline.className = f.className ∧ f.outline.message = f.message := by
  unfold Failure.outline
  split
  · exact ⟨rfl, rfl⟩
  · exact ⟨rfl, rfl⟩

/-- The outcome is no failure because a record could not be made, if steps are recorded. -/
def Outcome.Recorded {α : Type} (s : Settings) (o : Outcome α) : Prop :=
  s.logSteps = true → ∀ f w, o ≠ .failed (.noText f) w

/-- The outcome in outline. -/
def Outcome.outline {α : Type} (id : Nat) : Outcome α → Outcome α
  | .value a w => .value a (w.outline id)
  | .failed f w => .failed f.outline (w.outline id)
  | .exhausted => .exhausted

/-- Two outcomes have one outline, unless the second one is the failure of a record. -/
def Outcome.Tallies {α : Type} (s : Settings) (id : Nat) (o o' : Outcome α) : Prop :=
  o'.Recorded s → o.outline id = o'.outline id

/-- The world with nothing in the record of a call and without a past. -/
def World.bare (id : Nat) (w : World) : World :=
  { w with
    invocations := w.invocations.setIfInBounds id .blank
    events := [] }

theorem World.beside_bare {id : Nat} {w : World} {i : Invocation}
    (hi : w.invocations[id]? = some i) : (w.bare id).beside id i w.events = w := by
  have hset : w.invocations.setIfInBounds id i = w.invocations := by
    apply Array.ext_getElem?
    intro j
    by_cases hj : id = j
    · subst hj
      have hlt := (Array.getElem?_eq_some_iff.mp hi).1
      rw [Array.getElem?_setIfInBounds_self_of_lt hlt, hi]
    · rw [Array.getElem?_setIfInBounds_ne hj]
  simp [World.beside, World.bare, hset]

/-- Beside a world, the outline shows neither the record nor diagnostics of the past. -/
theorem World.outline_beside (id : Nat) (i : Invocation) (es : List Event) (w : World) :
    (w.beside id i es).outline id =
      { w.outline id with
        events := w.events.filter (·.isVisible) ++ es.filter (·.isVisible) } := by
  simp [World.outline, World.beside]

theorem World.outline_changeCall (id : Nat) (f : Invocation → Invocation) (w : World) :
    (w.changeCall id f).outline id = w.outline id := by
  have hset : (w.invocations.modify id f).setIfInBounds id .blank
      = w.invocations.setIfInBounds id .blank := by
    apply Array.ext_getElem?
    intro j
    by_cases hj : id = j
    · subst hj
      simp [Array.getElem?_setIfInBounds]
    · simp [Array.getElem?_modify, hj]
  simp only [World.outline, World.changeCall, hset]

/-! ### Twins -/

/-- Worlds with the same outline, the first of which is clean with `i` as the record of the
call. -/
structure Twin (R : Regime) (id : Nat) (i : Invocation) (w v : World) : Prop where
  clean : w.Clean R id
  record : w.invocations[id]? = some i
  outline : w.outline id = v.outline id

namespace Twin

variable {s : Settings} {R : Regime} {id : Nat} {i : Invocation} {w v : World}

/-- Twins are one world beside two records and two pasts. -/
theorem exists_beside (ht : Twin R id i w v) : ∃ b j es fs, World.Clean R id b ∧
    w = b.beside id i es ∧ v = b.beside id j fs ∧
    es.filter (·.isVisible) = fs.filter (·.isVisible) := by
  have hbare : v.bare id = w.bare id :=
    congrArg (fun u : World => { u with events := [] }) ht.outline.symm
  have hsize : w.invocations.size = v.invocations.size := by
    have h := congrArg (fun u : World => u.invocations.size) ht.outline
    simpa [World.outline] using h
  have hv : id < v.invocations.size := hsize ▸ ht.clean.made id rfl
  refine ⟨w.bare id, v.invocations[id], w.events, v.events, ?_, ?_, ?_, ?_⟩
  · refine { ht.clean with made := fun k hk => ?_, records := fun k j hk hj => ?_ }
    · simpa [World.bare] using ht.clean.made k hk
    · have hne : id ≠ k := fun h => hk (congrArg some h.symm)
      refine ht.clean.records k j hk ?_
      simpa [World.bare, Array.getElem?_setIfInBounds_ne hne] using hj
  · exact (World.beside_bare ht.record).symm
  · rw [← hbare]
    exact (World.beside_bare (Array.getElem?_eq_getElem hv)).symm
  · exact congrArg World.events ht.outline

theorem of_beside {b : World} {j : Invocation} {es fs : List Event} (hb : b.Clean R id)
    (h : es.filter (·.isVisible) = fs.filter (·.isVisible)) :
    Twin R id i (b.beside id i es) (b.beside id j fs) where
  clean :=
    { hb with
      made := fun k hk => by simpa [World.beside] using hb.made k hk
      records := fun k j hk hj => hb.records k j hk (by
        rwa [World.invocations_beside hk] at hj) }
  record := Array.getElem?_setIfInBounds_self_of_lt (hb.made id rfl)
  outline := by rw [World.outline_beside, World.outline_beside, h]

/-! ### Steps that both sides take -/

/-- A framed action does the same on both sides. -/
theorem bind {α β : Type} {P : α → Prop} {x : Action α} {f g : α → Action β}
    (ht : Twin R id i w v) (hx : Framed R id P x)
    (h : ∀ a w' v', P a → Twin R id i w' v' → (f a w').Tallies s id (g a v')) :
    ((x >>= f) w).Tallies s id ((x >>= g) v) := by
  obtain ⟨b, j, es, fs, hb, rfl, rfl, hes⟩ := ht.exists_beside
  obtain ⟨hcomm, hclean⟩ := hx b hb
  rw [Action.bind_apply, Action.bind_apply, hcomm, hcomm]
  cases hxb : x b with
  | value a b' =>
    obtain ⟨ha, hb'⟩ := hclean a b' hxb
    exact h a _ _ ha (of_beside hb' hes)
  | failed e b' =>
    intro _
    simp only [Outcome.inWorld, Outcome.outline, World.outline_beside, hes]
  | exhausted => exact fun _ => rfl

theorem pure {α : Type} (ht : Twin R id i w v) (a : α) :
    ((Pure.pure a : Action α) w).Tallies s id ((Pure.pure a : Action α) v) :=
  fun _ => congrArg (Outcome.value a) ht.outline

theorem fail {α : Type} (ht : Twin R id i w v) {e e' : Failure} (he : e.outline = e'.outline) :
    ((Action.fail e : Action α) w).Tallies s id ((Action.fail e' : Action α) v) := by
  intro _
  show Outcome.failed e.outline _ = Outcome.failed e'.outline _
  rw [he, ht.outline]

/-- A framed action at the end. -/
theorem last {α : Type} {P : α → Prop} {x : Action α} (ht : Twin R id i w v)
    (hx : Framed R id P x) : (x w).Tallies s id (x v) := by
  have h : ((x >>= Pure.pure) w).Tallies s id ((x >>= Pure.pure) v) :=
    ht.bind hx fun a _ _ _ ht => ht.pure a
  simpa only [bind_pure] using h

/-! ### Steps that one side takes -/

/-- A diagnostic record on one side is not seen. -/
theorem note (ht : Twin R id i w v) (severity : Severity) (text : String) :
    Twin R id i { w with events := .noted severity text :: w.events } v where
  clean := { ht.clean with }
  record := ht.record
  outline := ht.outline

theorem note_right (ht : Twin R id i w v) (severity : Severity) (text : String) :
    Twin R id i w { v with events := .noted severity text :: v.events } where
  clean := ht.clean
  record := ht.record
  outline := ht.outline

/-- A change of the record. -/
theorem changeCall (ht : Twin R id i w v) (f : Invocation → Invocation) :
    Twin R id (f i) (w.changeCall id f) v where
  clean :=
    { ht.clean with
      made := fun k hk => by simpa [World.changeCall] using ht.clean.made k hk
      records := fun k j hk hj => ht.clean.records k j hk (by
        rwa [World.record_changeCall_ne w fun h => hk (congrArg some h)] at hj) }
  record := World.record_changeCall ht.record f
  outline := by rw [World.outline_changeCall, ht.outline]

/-- A slice of the routine is executed with books on one side and without on the other one. -/
theorem execute {β : Type} {gen : Nat} {part : Action Exit} {f : Advance → Action β}
    {g : Exit → Action β} (ht : Twin R id i w v) (hpart : Framed R id (Exit.Obeys R) part)
    (h : ∀ exit w' v', exit.Obeys R → Twin R id (i.setPosition gen exit.position) w' v' →
      (f exit.advance w').Tallies s id (g exit v')) :
    ((Coroutine.execute id gen part >>= f) w).Tallies s id ((part.outward >>= g) v) := by
  have hrun := ht.changeCall (·.setPosition gen .running)
  obtain ⟨b, j, es, fs, hb, hw, rfl, hes⟩ := hrun.exists_beside
  obtain ⟨hcomm, hclean⟩ := hpart b hb
  rw [Action.bind_apply, Action.bind_apply, Coroutine.execute, World.setPosition_eq, hw, hcomm,
    Action.outward, hcomm]
  cases hpb : part b with
  | value exit b' =>
    obtain ⟨hexit, hb'⟩ := hclean exit b' hpb
    refine h exit _ (b'.beside id j fs) hexit ?_
    have ht' := (of_beside (i := i.setPosition gen .running) (j := j) hb' hes).changeCall
      (·.setPosition gen exit.position)
    rwa [Invocation.setPosition_setPosition] at ht'
  | failed e b' =>
    intro _
    simp only [Outcome.inWorld, Outcome.outline, World.setPosition_eq, World.outline_changeCall,
      World.outline_beside, hes]
  | exhausted => exact fun _ => rfl

end Twin

end EffectHandlers
