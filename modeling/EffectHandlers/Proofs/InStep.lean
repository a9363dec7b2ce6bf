/-
EffectHandlers/Proofs/InStep.lean

Two computations that go in step.

Two worlds are parallel if they differ in events and in what is left to read
from one stream at most (`World.Parallel`).  Two outcomes are in step if
their values are related, or their failures correspond, or both are
exhausted, and the events that the second one has added are those of the
first one, woven with some records (`Outcome.InStep`).  Diagnostic records do
not count.

Whatever the interpreter comes to pays no attention to earlier events and at
most reads from streams (`Regular`).  So it does the same in parallel worlds
if it has nothing to do with the stream in which they differ.

Main result: one computation in parallel worlds (`Regular.parallel`).
-/
import EffectHandlers.Proofs.Blindness
import EffectHandlers.Proofs.Rearrangement

namespace EffectHandlers

variable {α β : Type} {source : Option Nat} {w u : World}

/-! ### Interleavings -/

/-- A list is an interleaving of two lists. -/
inductive Interleaved : List α → List α → List α → Prop
  | nil : Interleaved [] [] []
  | left (x : α) {xs ys zs : List α} (rest : Interleaved xs ys zs) :
      Interleaved (x :: xs) ys (x :: zs)
  | right (y : α) {xs ys zs : List α} (rest : Interleaved xs ys zs) :
      Interleaved xs (y :: ys) (y :: zs)

namespace Interleaved

theorem of_nil (ys : List α) : Interleaved [] ys ys := by
  induction ys with
  | nil => exact .nil
  | cons y ys ih => exact .right y ih

theorem to_nil (xs : List α) : Interleaved xs [] xs := by
  induction xs with
  | nil => exact .nil
  | cons x xs ih => exact .left x ih

theorem append {xs ys zs xs' ys' zs' : List α} (h : Interleaved xs ys zs)
    (h' : Interleaved xs' ys' zs') : Interleaved (xs ++ xs') (ys ++ ys') (zs ++ zs') := by
  induction h with
  | nil => exact h'
  | left x _ ih => exact .left x ih
  | right y _ ih => exact .right y ih

end Interleaved

/-! ### Worlds that differ in a stream and in events -/

/-- What is left to read from a stream, if one is named. -/
def World.remaining (source : Option Nat) (w : World) : List Char :=
  match source with
  | some k => w.contents k
  | none => []

/-- The world with something else to read from a stream, if one is named. -/
def World.withRemaining (source : Option Nat) (text : List Char) (w : World) : World :=
  match source with
  | some k => w.withSource k text
  | none => w

/-- The world without events and with nothing to read from a stream, if one is named. -/
def World.core (source : Option Nat) (w : World) : World :=
  { w.withRemaining source [] with events := [] }

theorem World.core_withRemaining (text : List Char) (w : World) :
    (w.withRemaining source text).core source = w.core source := by
  cases source with
  | none => rfl
  | some k => simp [core, withRemaining, withSource]

@[simp] theorem World.core_events (es : List Event) (w : World) :
    World.core source { w with events := es } = w.core source := by
  cases source <;> rfl

@[simp] theorem World.remaining_events (es : List Event) (w : World) :
    World.remaining source { w with events := es } = w.remaining source := by
  cases source <;> rfl

/-- Of two worlds that differ in a stream and in events, one is the other one with these
exchanged. -/
theorem World.eq_of_core (h : w.core source = u.core source) :
    ({ u with events := [] } : World)
      = ({ w with events := [] } : World).withRemaining source (u.remaining source) := by
  cases source with
  | none => exact h.symm
  | some k =>
    have hu : ({ u with events := [] } : World)
        = (World.withSource k (u.contents k) (u.core (some k))) := by
      show _ = World.withSource k (u.contents k) { u.withSource k [] with events := [] }
      have hback := World.withSource_withSource (k := k) [] (u.contents k) { u with events := [] }
      have hsame : ({ u with events := [] } : World).withSource k (u.contents k)
          = { u with events := [] } := World.withSource_contents { u with events := [] }
      rw [← hsame, ← hback]
      rfl
    rw [hu, ← h]
    exact World.withSource_withSource (k := k) [] (u.contents k) { w with events := [] }

/-- Two worlds that are the same but for events and what is left to read from a stream, if one is
named; a text is left in the second one. -/
structure World.Parallel (source : Option Nat) (text : List Char) (w u : World) : Prop where
  core : w.core source = u.core source
  remaining : u.remaining source = text
  provides : w.Provides source

theorem World.Parallel.events {text : List Char} (h : World.Parallel source text w u)
    (es es' : List Event) :
    World.Parallel source text { w with events := es } { u with events := es' } where
  core := (core_events es w).trans (h.core.trans (core_events es' u).symm)
  remaining := (remaining_events es' u).trans h.remaining
  provides := h.provides

/-- The later events of a second world are those of a first one, woven with some records. -/
def World.Woven (records : List Event) (w u w' u' : World) : Prop :=
  ∃ new new', w'.events = new ++ w.events ∧ u'.events = new' ++ u.events ∧
    Interleaved records (new.filter (·.isVisible)) (new'.filter (·.isVisible))

theorem World.Woven.trans {records records' : List Event} {w' u' w'' u'' : World}
    (h : Woven records w u w' u') (h' : Woven records' w' u' w'' u'') :
    Woven (records' ++ records) w u w'' u'' := by
  obtain ⟨new, new', hw, hu, hnew⟩ := h
  obtain ⟨later, later', hw', hu', hlater⟩ := h'
  refine ⟨later ++ new, later' ++ new', by rw [hw', hw, List.append_assoc],
    by rw [hu', hu, List.append_assoc], ?_⟩
  rw [List.filter_append, List.filter_append]
  exact hlater.append hnew

theorem World.Woven.refl (w u : World) : Woven [] w u w u := ⟨[], [], rfl, rfl, .nil⟩

/-- Diagnostic records are not visible. -/
theorem World.Woven.note {records : List Event} {w' u' : World} {severity severity' : Severity}
    {text text' : String} (h : Woven records w u w' u') :
    Woven records w u { w' with events := .noted severity text :: w'.events }
      { u' with events := .noted severity' text' :: u'.events } := by
  obtain ⟨new, new', hw, hu, hnew⟩ := h
  exact ⟨.noted severity text :: new, .noted severity' text' :: new', congrArg _ hw,
    congrArg _ hu, hnew⟩

/-- Two outcomes in step: values that are related, failures that correspond, or both are
exhausted; the events of the second one are those of the first one, woven with some records. -/
inductive Outcome.InStep (fault : Failure → Failure → Prop) (records : List Event) (w u : World)
    (Q : α → β → World → World → Prop) : Outcome α → Outcome β → Prop
  | value {a : α} {b : β} {w' u' : World} (related : Q a b w' u')
      (woven : World.Woven records w u w' u') :
      InStep fault records w u Q (.value a w') (.value b u')
  | failed {f f' : Failure} {w' u' : World} (fault : fault f f')
      (woven : World.Woven records w u w' u') :
      InStep _ records w u Q (.failed f w') (.failed f' u')
  | exhausted : InStep fault records w u Q .exhausted .exhausted

namespace Outcome.InStep

variable {fault : Failure → Failure → Prop} {records records' : List Event}
  {Q Q' : α → β → World → World → Prop} {o : Outcome α} {o' : Outcome β}

theorem mono (h : o.InStep fault records w u Q o') (hQ : ∀ a b w' u', Q a b w' u' → Q' a b w' u') :
    o.InStep fault records w u Q' o' := by
  cases h with
  | value related woven => exact .value (hQ _ _ _ _ related) woven
  | failed fault woven => exact .failed fault woven
  | exhausted => exact .exhausted

theorem trans {w' u' : World} (h : o.InStep fault records' w' u' Q o')
    (hwu : World.Woven records w u w' u') : o.InStep fault (records' ++ records) w u Q o' := by
  cases h with
  | value related woven => exact .value related (hwu.trans woven)
  | failed fault woven => exact .failed fault (hwu.trans woven)
  | exhausted => exact .exhausted

/-- Nothing more is recorded on one side. -/
theorem after {w' u' : World} (h : o.InStep fault [] w' u' Q o')
    (hwu : World.Woven records w u w' u') : o.InStep fault records w u Q o' :=
  h.trans hwu

theorem bind {γ δ : Type} {x : Action α} {y : Action β} {f : α → Action γ} {g : β → Action δ}
    {Q' : γ → δ → World → World → Prop} (h : (x w).InStep fault records w u Q (y u))
    (hf : ∀ a b w' u', x w = .value a w' → Q a b w' u' →
      (f a w').InStep fault [] w' u' Q' (g b u')) :
    ((x >>= f) w).InStep fault records w u Q' ((y >>= g) u) := by
  rw [Action.bind_apply, Action.bind_apply]
  generalize hx : x w = o at h hf ⊢
  generalize y u = o' at h ⊢
  cases h with
  | value related woven => exact (hf _ _ _ _ rfl related).after woven
  | failed fault woven => exact .failed fault woven
  | exhausted => exact .exhausted

end Outcome.InStep

/-- Recording a step in parallel worlds. -/
theorem World.Parallel.noteStep {fault : Failure → Failure → Prop} (hfault : ∀ f, fault f f)
    {text : List Char} (h : World.Parallel source text w u) (s : Settings) (step : Nat)
    (e : Effect) :
    (s.noteStep step e w).InStep fault [] w u (fun _ _ w' u' => World.Parallel source text w' u')
      (s.noteStep step e u) := by
  obtain hnote | ⟨text', hnote⟩ | ⟨-, f, hnote⟩ := s.noteStep_cases step e
  · rw [hnote]
    exact .value h (.refl w u)
  · rw [hnote]
    exact .value (h.events _ _) (World.Woven.refl w u).note
  · rw [hnote]
    exact .failed (hfault _) (.refl w u)

/-- An effect that nobody takes ends both sides. -/
theorem World.Woven.failUnhandled {fault : Failure → Failure → Prop} (hfault : ∀ f, fault f f)
    {Q : α → β → World → World → Prop} {records : List Event} {w' u' : World}
    (h : World.Woven records w u w' u') (steps : Nat) (e : Effect) :
    (EffectHandlers.failUnhandled steps e w').InStep fault records w u Q
      (EffectHandlers.failUnhandled steps e u') := by
  unfold EffectHandlers.failUnhandled Effect.noted
  cases e.recordText with
  | ok text => exact .failed (hfault _) h.note
  | error f => exact .failed (hfault _) h

/-! ### What is done alike -/

/-- An action that the interpreter may come to: earlier events make no difference to it, and it at
most reads from streams. -/
structure Regular (x : Action α) : Prop where
  framed : Framed .free none (fun _ => True) x
  reads (k : Nat) : AtMostReads k x

/-- What respects every discipline that calls respect is regular. -/
theorem Regular.of_discipline {s : Settings} {P : α → Prop} {x : Action α}
    (h : ∀ D : CallDiscipline Unit .free, D.Calls (fun _ => Callable.meaning s) →
      D.holds P fun _ => x) : Regular x where
  framed :=
    let D := frame .free none (Regime.call_iff fun _ => trivial)
    Discipline.mono (D := D.toDiscipline) (h D (frame_meaning _ s)) fun _ _ => trivial
  reads k := (h (reading k) (reading_meaning k s)).1

theorem Regular.ret (a : α) : Regular (pure a) := ⟨Framed.ret trivial, fun _ => .ret a⟩

theorem Regular.fail (f : Failure) : Regular (Action.fail f : Action α) :=
  ⟨.fail _ f, fun _ => .fail f⟩

theorem Regular.bind {x : Action α} {f : α → Action β} (hx : Regular x) (hf : ∀ a, Regular (f a)) :
    Regular (x >>= f) where
  framed := Framed.bind hx.framed fun a _ => (hf a).framed
  reads k := AtMostReads.bind (P := fun _ => True) (hx.reads k) (fun _ _ _ _ => trivial)
    fun a _ => (hf a).reads k

theorem regular_note (severity : Severity) (text : String) :
    Regular (Action.note severity text) :=
  .of_discipline (s := ⟨false, 0⟩) fun D _ => D.toDiscipline.note severity text

theorem regular_noteStep (s : Settings) (step : Nat) (e : Effect) :
    Regular (s.noteStep step e) := by
  obtain hnote | ⟨text, hnote⟩ | ⟨-, f, hnote⟩ := s.noteStep_cases step e
  · exact hnote ▸ .ret ()
  · exact hnote ▸ regular_note ..
  · exact hnote ▸ .fail _

theorem regular_failUnhandled (steps : Nat) (e : Effect) :
    Regular (failUnhandled steps e : Action α) := by
  obtain ⟨text, h⟩ | ⟨f, h⟩ := failUnhandled_cases (α := α) steps e
  · exact h ▸ .bind (regular_note ..) fun _ => .fail _
  · exact h ▸ .fail _

section

variable (s : Settings)

theorem regular_resume (e : Effect) (answer : Value) :
    Regular (e.resume (Callable.meaning s) answer) :=
  .of_discipline fun _ hcall => Discipline.resume hcall e.obeys_free answer.obeys_free

variable (h : Handler)

theorem regular_start : Regular (h.start (Callable.meaning s)) :=
  .of_discipline fun _ hcall => Discipline.start hcall h h.obeys_free

theorem regular_offer (state : Value) (e : Effect) :
    Regular (h.offer (Callable.meaning s) state e) :=
  .of_discipline fun _ hcall => Discipline.offer hcall h h.obeys_free state.obeys_free e.obeys_free

theorem regular_finish (state : Value) : Regular (h.finish (Callable.meaning s) state) :=
  .of_discipline fun _ hcall => Discipline.finish hcall h h.obeys_free state.obeys_free

theorem regular_openRun : Regular (openRun (Callable.meaning s) h) :=
  .bind (regular_start s h) fun _ => .bind (regular_note ..) fun _ => .ret _

theorem regular_closeRun (d : Drive) : Regular (closeRun (Callable.meaning s) h d) :=
  .bind (regular_note ..) fun _ => .bind (regular_finish s h _) fun _ => .ret _

theorem regular_drive (fuel steps : Nat) (state next : Value) :
    Regular (drive s (h.offer (Callable.meaning s)) fuel steps state next) :=
  .of_discipline fun _ hcall => Discipline.drive s
    (fun _ _ hs he => Discipline.offer hcall h h.obeys_free hs he) fuel steps state.obeys_free
    next.obeys_free

end

theorem World.beside_injective (es : List Event) :
    Function.Injective (World.beside none .blank es) := by
  rintro ⟨cells, invocations, sources, journals, fresh, events⟩
    ⟨cells', invocations', sources', journals', fresh', events'⟩ h
  simpa [World.beside, recordsBeside] using h

theorem Outcome.inWorld_injective {g : World → World} (hg : Function.Injective g) :
    Function.Injective (Outcome.inWorld g : Outcome α → Outcome α) := by
  rintro (⟨a, w⟩ | ⟨f, w⟩ | _) (⟨b, u⟩ | ⟨e, u⟩ | _) h <;> simp_all [Outcome.inWorld, hg.eq_iff]

/-- What is clear of a stream does the same whatever is left to read from it. -/
theorem Clear.withRemaining {x : Action α} (hclear : Clear source x w) (text : List Char) :
    x (w.withRemaining source text) = (x w).inWorld (World.withRemaining source text) := by
  cases source with
  | none =>
    show x w = (x w).inWorld id
    cases x w <;> rfl
  | some k => exact hclear k rfl text

/-- Earlier events make no difference. -/
theorem Regular.past {x : Action α} (hx : Regular x) (w : World) :
    x w = (x { w with events := [] }).inWorld (World.beside none .blank w.events) :=
  (hx.framed { w with events := [] } (World.clean_free _)).1 .blank w.events

theorem World.withRemaining_past (source : Option Nat) (text : List Char) (w : World) :
    ({ w.withRemaining source text with events := [] } : World)
        = ({ w with events := [] } : World).withRemaining source text ∧
      (w.withRemaining source text).events = w.events := by
  cases source <;> exact ⟨rfl, rfl⟩

/-- Without the earlier events, the streams can be exchanged. -/
theorem Regular.withRemaining {x : Action α} (hx : Regular x) (hclear : Clear source x w)
    (text : List Char) : x (({ w with events := [] } : World).withRemaining source text)
      = (x { w with events := [] }).inWorld (World.withRemaining source text) := by
  obtain ⟨hpast, hevents⟩ := World.withRemaining_past source text w
  have h := hclear.withRemaining text
  rw [hx.past w, hx.past (w.withRemaining _ _), hpast, hevents] at h
  refine Outcome.inWorld_injective (World.beside_injective w.events) (h.trans ?_)
  cases x { w with events := [] } <;> cases source <;> rfl

/-- A stream that is there stays there. -/
theorem Regular.provides {x : Action α} (hx : Regular x) (hw : w.Provides source)
    {v : World} (hv : (x w).world? = some v) : v.Provides source := by
  rintro k rfl
  have hspends := (hx.reads k).spends (w := w) (hw k rfl)
  cases hxw : x w with
  | value a v' | failed f v' =>
    rw [hxw] at hv hspends
    cases hv
    exact hspends.1
  | exhausted =>
    rw [hxw] at hv
    cases hv

theorem World.remaining_withRemaining {v : World} (hv : v.Provides source) (u : World) :
    (v.withRemaining source (u.remaining source)).remaining source = u.remaining source := by
  cases source with
  | none => rfl
  | some k => exact World.contents_withSource (hv k rfl) _

/-- What one computation leaves is parallel again after the two pasts. -/
theorem World.parallel_past {v : World} (hv : v.Provides source) (w u : World) :
    let w' := v.beside none .blank w.events
    let u' := (v.withRemaining source (u.remaining source)).beside none .blank u.events
    World.Parallel source (u.remaining source) w' u' ∧ World.Woven [] w u w' u' := by
  have hsame := (World.withRemaining_past source (u.remaining source) v).2
  have hleft := World.remaining_withRemaining hv u
  refine ⟨⟨?_, ?_, hv⟩, v.events, v.events, rfl, by rw [World.beside, hsame], .of_nil _⟩
  · have hcore : (v.withRemaining source (u.remaining source)).core source = v.core source :=
      World.core_withRemaining (u.remaining source) v
    cases source <;> exact hcore.symm
  · cases source <;> exact hleft

/-- **One computation in parallel worlds** comes to the same and adds the same events, if it has
nothing to do with the stream in which they differ. -/
theorem Regular.parallel {fault : Failure → Failure → Prop} {x : Action α} {text : List Char}
    (hx : Regular x) (hclear : Clear source x w) (h : World.Parallel source text w u)
    (hfault : ∀ f, fault f f) :
    (x w).InStep fault [] w u (fun a b w' u' => b = a ∧ World.Parallel source text w' u')
      (x u) := by
  obtain ⟨hcore, rfl, hprovides⟩ := h
  let w₀ : World := { w with events := [] }
  let u₀ : World := { u with events := [] }
  have hu₀ : u₀ = w₀.withRemaining source (u.remaining source) := World.eq_of_core hcore
  have hprovides : w₀.Provides source := hprovides
  have hafter (v : World) (hv : (x w₀).world? = some v) :=
    World.parallel_past (hx.provides hprovides hv) w u
  rw [hx.past w, hx.past u]
  show Outcome.InStep _ _ _ _ _ ((x w₀).inWorld _) ((x u₀).inWorld _)
  rw [hu₀, hx.withRemaining hclear]
  cases hxw : x w₀ with
  | value a v =>
    obtain ⟨hparallel, hwoven⟩ := hafter v (by rw [hxw]; rfl)
    exact .value ⟨rfl, hparallel⟩ hwoven
  | failed f v => exact .failed (hfault f) (hafter v (by rw [hxw]; rfl)).2
  | exhausted => exact .exhausted

end EffectHandlers
