/-
EffectHandlers/Proofs/RunLog.lean

What a run leaves in the log.

A run makes diagnostic records: one when the handler has started, one for
every handled step if the settings ask for it, and one at the end, unless a
step fails or gives something that is not a chain.  What is recorded in a
run, and when, is told by its dialogue alone (`account`): after a handled
offer comes the record of a step, with the number of offers that have been
handled; after an offer that was declined, that the effect is unhandled; and
before the handler finishes, that the run has finished.

What happens in an exchange is what it adds to the events of the world that
it begins in (`Exchange.happened`).  That it only adds to them is not
obvious, because a handler may do anything to the world; it is so if the
world and the handler keep to a regime (`Exchange.adds_of_framed`).

The record of a step and that of an unhandled effect show the effect, and an
effect that cannot be shown has neither: the run fails where the record would
be made, and so the record of a step can only be missing after the last one.

Main results: the log of a run is the account of its dialogue
(`Dialogue.log_eq`); and the records in it are numbered without a gap and
closed by the count (`Dialogue.records_eq`).
-/
import EffectHandlers.Proofs.Abiding
import EffectHandlers.Proofs.Protocol

namespace EffectHandlers

variable {α : Type} {R : Regime} {w w' u : World}

/-! ### Worlds and what has happened in them -/

/-- The events of a world in the order in which they happened. -/
def World.log (w : World) : List Event := w.events.reverse

/-- The world without its events. -/
def World.silent (w : World) : World := { w with events := [] }

/-- The world with those of its events only that came after the first `n`. -/
def World.since (n : Nat) (w : World) : World :=
  { w with events := w.events.take (w.events.length - n) }

/-- The outcome in a world without events. -/
def Outcome.silent (o : Outcome α) : Outcome α := o.inWorld World.silent

theorem World.log_noted (w : World) (severity : Severity) (text : String) :
    (w.noted severity text).log = w.log ++ [.noted severity text] := by
  simp [log, noted]

theorem World.silent_beside (i : Invocation) (w : World) :
    w.silent.beside none i w.events = w := rfl

theorem World.since_beside (i : Invocation) (es : List Event) (w : World) :
    (w.beside none i es).since es.length = w := by
  have htake : (w.events ++ es).take ((w.events ++ es).length - es.length) = w.events := by simp
  rw [beside, since, htake]
  rfl

/-! ### Exchanges -/

/-- An exchange without what happened before it. -/
def Exchange.told (x : Exchange) : Exchange :=
  ⟨x.asked, x.world.silent, x.outcome.inWorld (World.since x.world.events.length)⟩

/-- What happens in an exchange, in order. -/
def Exchange.happened (x : Exchange) : List Event :=
  match x.told.outcome.world? with
  | some u => u.log
  | none => []

/-- What happens in an exchange adds to the events of its world. -/
def Exchange.Adds (x : Exchange) : Prop :=
  ∀ u, x.outcome.world? = some u → u.log = x.world.log ++ x.happened

/-- The effect that is handled in an exchange, if one is. -/
def Exchange.handled? : Exchange → Option Effect
  | ⟨.offer _ e, _, .value (.handled _ _) _⟩ => some e
  | _ => none

/-- The effect that is declined in an exchange, if one is. -/
def Exchange.declined? : Exchange → Option Effect
  | ⟨.offer _ _, _, .value (.handled _ _) _⟩ => none
  | ⟨.offer _ e, _, .value _ _⟩ => some e
  | _ => none

/-- An exchange in which the chain comes to its end, in a run of a chain. -/
def Exchange.Ends (c : Chain) (x : Exchange) : Prop :=
  ∃ state v r, x.carried c = some (state, .chain (.done v r))

/-- An exchange that breaks a run of a chain off: a step fails, or something is carried that is
not a chain. -/
def Exchange.Breaks (c : Chain) (x : Exchange) : Prop :=
  (∃ state e w f u, x = ⟨.offer state e, w, .failed f u⟩) ∨
    ∃ state next, x.carried c = some (state, next) ∧ ∀ d, next ≠ .chain d

/-! ### Records -/

/-- The record of a handler that has started. -/
def Handler.startRecord (h : Handler) : Event := .noted .debug ("Run started with " ++ h.written)

/-- A record that shows an effect, or none if the effect cannot be shown. -/
def Effect.shownIn (e : Effect) (severity : Severity) (before : String) : List Event :=
  match e.recordText with
  | .ok text => [.noted severity (before ++ text)]
  | .error _ => []

/-- The record of a handled step. -/
def stepRecord (step : Nat) (e : Effect) : List Event :=
  e.shownIn .debug ("Step " ++ toString step ++ " handled ")

/-- The record of an effect that nobody took after some steps. -/
def unhandledRecord (steps : Nat) (e : Effect) : List Event :=
  e.shownIn .error ("Unhandled effect after " ++ toString steps ++ " step(s): ")

/-- The records of handled steps, numbered from one. -/
def stepRecords (es : List Effect) : List Event :=
  (es.mapIdx fun i e => stepRecord (i + 1) e).flatten

/-- The record of a run that has come to a finished chain. -/
def finishRecord (steps : Nat) : Event :=
  .noted .debug ("Run finished after " ++ toString steps ++ " step(s)")

/-- What is recorded before an exchange, after some steps. -/
def Exchange.recordsBefore (steps : Nat) : Exchange → List Event
  | ⟨.finish _, _, _⟩ => [finishRecord steps]
  | _ => []

/-- What is recorded after an exchange, which came after some steps. -/
def Exchange.recordsAfter (logSteps : Bool) (h : Handler) (steps : Nat) : Exchange → List Event
  | ⟨.start, _, .value _ _⟩ => [h.startRecord]
  | ⟨.offer _ e, _, .value (.handled _ _) _⟩ =>
    if logSteps then stepRecord (steps + 1) e else []
  | ⟨.offer _ e, _, .value _ _⟩ => unhandledRecord steps e
  | _ => []

/-- The account of a dialogue, after some steps: what is recorded before each exchange, what is to
be told of the exchange, and what is recorded after it. -/
def account (logSteps : Bool) (h : Handler) (tell : Exchange → List Event) :
    Nat → List Exchange → List Event
  | _, [] => []
  | steps, x :: xs =>
    x.recordsBefore steps ++ tell x ++ x.recordsAfter logSteps h steps ++
      account logSteps h tell (steps + x.handled?.toList.length) xs

section

variable {logSteps : Bool} {h : Handler} {tell : Exchange → List Event} {steps : Nat}
  {xs ys : List Exchange}

theorem account_append : account logSteps h tell steps (xs ++ ys)
    = account logSteps h tell steps xs ++
      account logSteps h tell (steps + (xs.filterMap Exchange.handled?).length) ys := by
  induction xs generalizing steps with
  | nil => rfl
  | cons x xs ih =>
    have hlength : steps + x.handled?.toList.length + (xs.filterMap Exchange.handled?).length
        = steps + ((x :: xs).filterMap Exchange.handled?).length := by
      cases hx : x.handled? with
      | none => simp [hx]
      | some e => simp [hx]; omega
    rw [List.cons_append, account, account, ih, hlength]
    simp only [List.append_assoc]

/-- The account of an exchange does not tell what happened before it. -/
theorem Exchange.recordsAfter_told (x : Exchange) :
    x.told.recordsAfter logSteps h steps = x.recordsAfter logSteps h steps := by
  obtain ⟨k, w, o⟩ := x
  cases k with
  | start => cases o <;> rfl
  | offer state e =>
    cases o with
    | value v u => cases v <;> rfl
    | failed f u => rfl
    | exhausted => rfl
  | finish state => rfl

theorem Exchange.recordsBefore_told (x : Exchange) :
    x.told.recordsBefore steps = x.recordsBefore steps := by
  obtain ⟨k, w, o⟩ := x
  cases k <;> rfl

theorem Exchange.handled?_told (x : Exchange) : x.told.handled? = x.handled? := by
  obtain ⟨k, w, o⟩ := x
  cases k with
  | start => rfl
  | offer state e =>
    cases o with
    | value v u => cases v <;> rfl
    | failed f u => rfl
    | exhausted => rfl
  | finish state => rfl

/-- Dialogues that are told in the same way have one account. -/
theorem account_congr (h : Handler) (htold : ys.map Exchange.told = xs.map Exchange.told)
    (htell : ∀ x y : Exchange, y.told = x.told → tell y = tell x) :
    account logSteps h tell steps ys = account logSteps h tell steps xs := by
  induction xs generalizing ys steps with
  | nil =>
    rw [List.map_nil, List.map_eq_nil_iff] at htold
    rw [htold]
  | cons x xs ih =>
    obtain ⟨y, ys, rfl, hy, hys⟩ := List.map_eq_cons_iff.mp htold
    rw [account, account, ih hys, htell x y hy, ← y.recordsBefore_told, ← y.recordsAfter_told,
      ← y.handled?_told, hy, x.recordsBefore_told, x.recordsAfter_told, x.handled?_told]

theorem Exchange.happened_congr {x y : Exchange} (h : y.told = x.told) :
    y.happened = x.happened := by
  rw [happened, happened, h]

end

/-! ### The log of one run -/

section

variable {P : α → Prop} {x : Action α}

/-- What a framed action comes to, without what happened before it. -/
theorem Framed.since (hx : Framed R none P x) (hw : w.Obeys R) :
    (x w).inWorld (World.since w.events.length) = x w.silent := by
  obtain ⟨hcomm, -⟩ := hx w.silent { hw.clean with }
  have hlate := hcomm ⟨[], [], #[], #[], none⟩ w.events
  rw [World.silent_beside] at hlate
  rw [hlate]
  cases x w.silent with
  | value a u => exact congrArg (Outcome.value a) (World.since_beside _ _ u)
  | failed f u => exact congrArg (Outcome.failed f) (World.since_beside _ _ u)
  | exhausted => rfl

/-- A framed action adds to the events of the world that it is begun in. -/
theorem Framed.adds (hx : Framed R none P x) (hw : w.Obeys R) (hu : (x w).world? = some u) :
    u.log = w.log ++ (u.since w.events.length).log := by
  obtain ⟨hcomm, -⟩ := hx w.silent { hw.clean with }
  have hlate := hcomm ⟨[], [], #[], #[], none⟩ w.events
  rw [World.silent_beside] at hlate
  rw [hlate] at hu
  have hbeside (v : World) : (v.beside none ⟨[], [], #[], #[], none⟩ w.events).log
      = w.log ++ v.log := List.reverse_append
  cases hx : x w.silent with
  | value a v | failed f v =>
    rw [hx] at hu
    cases hu
    rw [World.since_beside, hbeside]
  | exhausted =>
    rw [hx] at hu
    cases hu

end

theorem Exchange.adds_of_framed {P : Value → Prop} {x : Action Value} (k : Question)
    (hx : Framed R none P x) (hw : w.Obeys R) : Exchange.Adds ⟨k, w, x w⟩ := by
  intro u hu
  rw [hx.adds hw hu, happened]
  have hu' : (x w).world? = some u := hu
  cases hxw : x w with
  | value a v | failed f v =>
    rw [hxw] at hu'
    cases hu'
    simp [told, Outcome.inWorld, Outcome.world?]
  | exhausted =>
    rw [hxw] at hu'
    cases hu'

section

variable {s : Settings} {offer : Offer} {call : Call} {c : Chain} {h : Handler} {p q : Standing}
  {xs ys t : List Exchange}

theorem Effect.shownIn_of_text {e : Effect} {text : String} (h : e.recordText = .ok text)
    (severity : Severity) (before : String) :
    e.shownIn severity before = [.noted severity (before ++ text)] := by
  rw [shownIn, h]

theorem Effect.shownIn_of_fault {e : Effect} {f : TextFault} (h : e.recordText = .error f)
    (severity : Severity) (before : String) : e.shownIn severity before = [] := by
  rw [shownIn, h]

theorem Settings.log_recorded {step : Nat} {e : Effect}
    (h : s.recorded step e w = .ok u) :
    u.log = w.log ++ if s.logSteps then stepRecord step e else [] := by
  obtain ⟨hlog, rfl⟩ | ⟨hlog, text, htext, rfl⟩ := Settings.recorded_eq_ok.mp h
  · rw [hlog, if_neg Bool.false_ne_true, List.append_nil]
  · rw [if_pos hlog, stepRecord, Effect.shownIn_of_text htext]
    exact World.log_noted w _ _

theorem Effect.log_reported {steps : Nat} {e : Effect} (h : e.reported steps w = .ok u) :
    u.log = w.log ++ unhandledRecord steps e := by
  obtain ⟨text, htext, rfl⟩ := Effect.reported_eq_ok.mp h
  rw [unhandledRecord, Effect.shownIn_of_text htext]
  exact World.log_noted w _ _

theorem Outcome.Lost.world?_eq {β : Type} {x : Outcome α} {o : Outcome β} (hx : x.Lost o) :
    o.world? = x.world? := by
  cases hx <;> rfl

theorem Outcome.Concludes.world?_eq {v : Value} {x o : Outcome Value} (hx : x.Concludes v o) :
    o.world? = x.world? := by
  cases hx with
  | value output w => rfl
  | lost hlost => exact hlost.world?_eq

/-- After a call that gave no value nothing is recorded. -/
theorem Exchange.recordsAfter_of_lost {β : Type} {k : Question} {x : Outcome Value} {o : Outcome β}
    {logSteps : Bool} {steps : Nat} (hx : x.Lost o) :
    Exchange.recordsAfter logSteps h steps ⟨k, w, x⟩ = [] := by
  cases hx <;> cases k <;> rfl

/-- After an effect that was declined, this is recorded. -/
theorem Exchange.recordsAfter_of_declined {logSteps : Bool} {steps : Nat} {state v : Value}
    {e : Effect} (hv : ∀ state' next, v ≠ .handled state' next) :
    Exchange.recordsAfter logSteps h steps ⟨.offer state e, w, .value v u⟩
      = unhandledRecord steps e := by
  cases v <;> first | rfl | exact absurd rfl (hv _ _)

/-- Every exchange of steps that were handled handles an effect. -/
theorem Advances.length_handled (hsteps : Advances s offer p xs q) :
    q.steps = p.steps + (xs.filterMap Exchange.handled?).length := by
  induction hsteps with
  | nil p => rfl
  | @cons n state state' next e r w w' u xs q within handled recorded rest ih =>
    have hhandled : Exchange.handled? ⟨.offer state e, w, .value (.handled state' next) w'⟩
        = some e := rfl
    rw [ih, List.filterMap_cons_some hhandled, List.length_cons]
    show n + 1 + _ = n + (_ + 1)
    omega

/-- The log of steps that were handled. -/
theorem Advances.log_eq (h : Handler) (hsteps : Advances s offer p xs q)
    (hadds : ∀ x ∈ xs, x.Adds) :
    q.world.log = p.world.log ++ account s.logSteps h Exchange.happened p.steps xs := by
  induction hsteps with
  | nil p => exact (List.append_nil _).symm
  | @cons n state state' next e r w w' u xs q within handled recorded rest ih =>
    obtain ⟨hadd, hadds⟩ := List.forall_mem_cons.mp hadds
    rw [ih hadds, Settings.log_recorded recorded, hadd w' rfl]
    simp only [account, Exchange.recordsBefore, Exchange.recordsAfter, Exchange.handled?,
      Option.toList_some, List.length_singleton, List.nil_append, List.append_assoc]

/-- The log of a drive that stops. -/
theorem Halts.log_eq {o : Outcome Drive} (h : Handler) (hhalt : Halts s offer p ys o)
    (hadds : ∀ y ∈ ys, y.Adds) (hu : o.world? = some u) :
    u.log = p.world.log ++ account s.logSteps h Exchange.happened p.steps ys := by
  cases hhalt with
  | finished | notChain =>
    cases hu
    exact (List.append_nil _).symm
  | @declined n state v e r w w' u' within answer hv reported =>
    cases hu
    rw [Effect.log_reported reported, List.forall_mem_singleton.mp hadds w' rfl]
    simp only [account, Exchange.recordsAfter_of_declined hv, Exchange.recordsBefore,
      List.nil_append, List.append_nil, List.append_assoc]
  | @unreported n state v e r w w' f within answer hv reported =>
    cases hu
    have hrecord : unhandledRecord n e = [] :=
      Effect.shownIn_of_fault (Effect.reported_eq_error.mp reported) _ _
    rw [List.forall_mem_singleton.mp hadds u rfl]
    simp only [account, Exchange.recordsAfter_of_declined hv, hrecord, Exchange.recordsBefore,
      List.nil_append, List.append_nil]
  | @unrecorded n state state' next e r w w' f within handled recorded =>
    cases hu
    obtain ⟨-, htext⟩ := Settings.recorded_eq_error.mp recorded
    have hrecord : stepRecord (n + 1) e = [] := Effect.shownIn_of_fault htext _ _
    rw [List.forall_mem_singleton.mp hadds u rfl]
    simp only [account, Exchange.recordsAfter, hrecord, Exchange.recordsBefore, ite_self,
      List.nil_append, List.append_nil]
  | @lost n state e r w d within answer =>
    have hadd := List.forall_mem_singleton.mp hadds u (answer.world?_eq ▸ hu)
    rw [hadd, account, account, Exchange.recordsAfter_of_lost answer, List.append_nil,
      List.append_nil]
    rfl
  | spent => cases hu

/-- **The log of a run is the account of its dialogue.** -/
theorem Dialogue.log_eq {o : Outcome Value} (hd : Dialogue s call c h w t o)
    (hadds : ∀ x ∈ t, x.Adds) (hu : o.world? = some u) :
    u.log = w.log ++ account s.logSteps h Exchange.happened 0 t := by
  cases hd with
  | refused =>
    cases hu
    exact (List.append_nil _).symm
  | notStarted provided start =>
    have hadd := List.forall_mem_singleton.mp hadds u (start.world?_eq ▸ hu)
    rw [hadd, account, account, Exchange.recordsAfter_of_lost start, List.append_nil,
      List.append_nil]
    rfl
  | @halted state v xs ys p d o provided start steps halt lost =>
    obtain ⟨hadd, hadds⟩ := List.forall_mem_cons.mp hadds
    obtain ⟨haddxs, haddys⟩ := List.forall_mem_append.mp hadds
    have hsteps := steps.log_eq h haddxs
    have hcount := steps.length_handled
    rw [halt.log_eq h haddys (lost.world?_eq ▸ hu), hsteps, Handler.opened, World.log_noted,
      hadd v rfl, account, account_append, hcount]
    simp only [List.append_assoc]
    rfl
  | @finished state v v' xs p d o provided start steps halt finish =>
    obtain ⟨-, r, rfl⟩ := halt.of_value
    obtain ⟨hadd, hadds⟩ := List.forall_mem_cons.mp hadds
    obtain ⟨haddxs, hlast⟩ := List.forall_mem_append.mp hadds
    have hcount : d.steps = 0 + (xs.filterMap Exchange.handled?).length := steps.length_handled
    have hsteps : v'.log = _ := steps.log_eq h haddxs
    rw [List.forall_mem_singleton.mp hlast u (finish.world?_eq ▸ hu), Drive.closed,
      World.log_noted, hsteps, Handler.opened, World.log_noted, hadd v rfl, account,
      account_append, hcount]
    simp only [account, Exchange.recordsBefore, Exchange.recordsAfter, Exchange.handled?,
      List.append_assoc, List.nil_append, List.append_nil]
    rfl

/-! ### The records of one run -/

/-- No record, or one when the handler has started, before the records of the steps. -/
inductive Opening (h : Handler) : List Event → Prop
  | unstarted : Opening h []
  | started : Opening h [h.startRecord]

/-- What is recorded at the end of a run with a dialogue, after the records of the steps.

* `finished`: if the chain has come to its end, then the number of steps, unless the last one cannot
  be recorded;
* `unhandled`: if an effect was declined, then the number of steps and that effect;
* `broken`: if the run was broken off, then nothing;
* `absent`: if the chain has not come to its end, or the last step cannot be recorded, and nothing
  was declined, then nothing. -/
structure Closing (s : Settings) (c : Chain) (t : List Exchange) (o : Outcome Value)
    (closing : List Event) : Prop where
  finished : (∃ x ∈ t, x.Ends c) → ¬ Unrecorded s t o →
    closing = [finishRecord (t.filterMap Exchange.handled?).length]
  unhandled : ∀ e ∈ t.filterMap Exchange.declined?,
    closing = unhandledRecord (t.filterMap Exchange.handled?).length e
  broken : (∃ x ∈ t, x.Breaks c) → closing = []
  absent : ((¬ ∃ x ∈ t, x.Ends c) ∨ Unrecorded s t o) → t.filterMap Exchange.declined? = [] →
    closing = []

namespace Closing

variable {n : Nat} {o : Outcome Value}

theorem of_nothing (hends : (¬ ∃ x ∈ t, x.Ends c) ∨ Unrecorded s t o)
    (hdeclined : t.filterMap Exchange.declined? = []) : Closing s c t o [] where
  finished h hrecorded := absurd h (hends.resolve_right hrecorded)
  unhandled e he := by simp [hdeclined] at he
  broken _ := rfl
  absent _ _ := rfl

theorem of_ended (hends : ∃ x ∈ t, x.Ends c) (hrecorded : ¬ Unrecorded s t o)
    (hdeclined : t.filterMap Exchange.declined? = [])
    (hbreaks : ∀ x ∈ t, ¬ x.Breaks c) (hn : (t.filterMap Exchange.handled?).length = n) :
    Closing s c t o [finishRecord n] where
  finished _ _ := by rw [hn]
  unhandled e he := by simp [hdeclined] at he
  broken := fun ⟨x, hx, hx'⟩ => absurd hx' (hbreaks x hx)
  absent h := absurd hends (h.resolve_right hrecorded)

theorem of_declined {e : Effect} (hends : ¬ ∃ x ∈ t, x.Ends c)
    (hdeclined : t.filterMap Exchange.declined? = [e]) (hbreaks : ∀ x ∈ t, ¬ x.Breaks c)
    (hn : (t.filterMap Exchange.handled?).length = n) :
    Closing s c t o (unhandledRecord n e) where
  finished h := absurd h hends
  unhandled := by simp [hdeclined, hn]
  broken := fun ⟨x, hx, hx'⟩ => absurd hx' (hbreaks x hx)
  absent _ h := by simp [hdeclined] at h

end Closing

/-- The records of steps that were handled are numbered from the first one on. -/
theorem Advances.records_eq (h : Handler) (logSteps : Bool) (hsteps : Advances s offer p xs q) :
    account logSteps h (fun _ => []) p.steps xs = if logSteps then
      ((xs.filterMap Exchange.handled?).mapIdx fun i e => stepRecord (p.steps + i + 1) e).flatten
    else [] := by
  induction hsteps with
  | nil p => cases logSteps <;> rfl
  | @cons n state state' next e r w w' u xs q within handled recorded rest ih =>
    have hhandled : Exchange.handled? ⟨.offer state e, w, .value (.handled state' next) w'⟩
        = some e := rfl
    have hshift : (fun i e => stepRecord (n + (i + 1) + 1) e)
        = fun i e => stepRecord (n + 1 + i + 1) e := by
      funext i e
      rw [Nat.add_right_comm n 1 i]
      rfl
    rw [List.filterMap_cons_some hhandled, List.mapIdx_cons, hshift, account, hhandled,
      List.flatten_cons]
    cases logSteps with
    | false => exact ih
    | true => exact congrArg (stepRecord (n + 1) e ++ ·) ih

theorem Advances.declined_eq_nil (hsteps : Advances s offer p xs q) :
    xs.filterMap Exchange.declined? = [] := by
  induction hsteps with
  | nil p => rfl
  | cons within handled recorded rest ih => exact ih

/-- Effects that cannot be shown have no records. -/
theorem stepRecords_append {es fs : List Effect} (hfs : ∀ e ∈ fs, ∃ f, e.recordText = .error f) :
    stepRecords (es ++ fs) = stepRecords es := by
  have hnothing : (fs.mapIdx fun i e => stepRecord (i + es.length + 1) e).flatten = [] := by
    refine List.flatten_eq_nil_iff.mpr fun l hl => ?_
    obtain ⟨i, hi, rfl⟩ := List.mem_mapIdx.mp hl
    obtain ⟨f, hf⟩ := hfs _ (List.getElem_mem hi)
    exact Effect.shownIn_of_fault hf _ _
  rw [stepRecords, List.mapIdx_append, List.flatten_append, hnothing, List.append_nil, stepRecords]

/-- The records of a handler that has started and of steps that were handled, when no steps follow
that are recorded. -/
theorem Advances.records_from_start {state : Value} {z : World} {closing : List Event}
    (hsteps : Advances s offer ⟨0, state, .chain c, z⟩ xs q) (w : World) (v : Value) (u : World)
    (hhandled : ∀ e ∈ ys.filterMap Exchange.handled?, ∃ f, e.recordText = .error f)
    (hclosing : ∀ logSteps, account logSteps h (fun _ => []) q.steps ys = closing) :
    let t : List Exchange := ⟨.start, w, .value v u⟩ :: (xs ++ ys)
    t.filterMap Exchange.declined? = ys.filterMap Exchange.declined? ∧
      (t.filterMap Exchange.handled?).length
        = q.steps + (ys.filterMap Exchange.handled?).length ∧
      ∀ logSteps, account logSteps h (fun _ => []) 0 t = [h.startRecord] ++ (if logSteps then
        stepRecords (t.filterMap Exchange.handled?) else []) ++ closing := by
  intro t
  have hall : t.filterMap Exchange.handled?
      = xs.filterMap Exchange.handled? ++ ys.filterMap Exchange.handled? := by
    rw [List.filterMap_cons_none rfl, List.filterMap_append]
  have hcount : q.steps = 0 + (xs.filterMap Exchange.handled?).length := hsteps.length_handled
  refine ⟨?_, ?_, fun logSteps => ?_⟩
  · rw [List.filterMap_cons_none rfl, List.filterMap_append, hsteps.declined_eq_nil,
      List.nil_append]
  · rw [hall, hcount, Nat.zero_add, List.length_append]
  · have hrecords := hsteps.records_eq h logSteps
    simp only [Nat.zero_add] at hrecords
    rw [account, account_append, hall, stepRecords_append hhandled, stepRecords, ← hrecords,
      ← hclosing logSteps, hcount]
    simp only [List.append_assoc]
    rfl

theorem Exchange.not_breaks {x : Exchange}
    (hvalue : ∀ state e w f u, x ≠ ⟨.offer state e, w, .failed f u⟩)
    (hcarried : ∀ state next, x.carried c = some (state, next) → ∃ d, next = .chain d) :
    ¬ x.Breaks c := by
  rintro (⟨_, _, _, _, _, hfails⟩ | ⟨state, next, hx, hnext⟩)
  · exact hvalue _ _ _ _ _ hfails
  · obtain ⟨d, rfl⟩ := hcarried state next hx
    exact hnext d rfl

/-- Where a handler starts, the run of a chain is not broken off. -/
theorem Exchange.start_not_breaks (c : Chain) (w : World) (v : Value) (u : World) :
    ¬ Exchange.Breaks c ⟨.start, w, .value v u⟩ :=
  not_breaks nofun fun _ _ h => ⟨c, by cases h; rfl⟩

/-- Where a handler finishes, the run is not broken off. -/
theorem Exchange.finish_not_breaks (c : Chain) (state : Value) (w : World) (o : Outcome Value) :
    ¬ Exchange.Breaks c ⟨.finish state, w, o⟩ :=
  not_breaks nofun fun _ _ h => by
    rw [carried_of_finish] at h
    cases h

/-- No step before a chain breaks a run off. -/
theorem Advances.not_breaks {d : Chain} (hsteps : Advances s offer p xs q)
    (hq : q.next = .chain d) : (∃ d', p.next = .chain d') ∧ ∀ x ∈ xs, ¬ x.Breaks c := by
  induction hsteps with
  | nil p => exact ⟨⟨d, hq⟩, List.forall_mem_nil _⟩
  | @cons n state state' next e r w w' u xs q within handled recorded rest ih =>
    obtain ⟨⟨d', hnext⟩, hrest⟩ := ih hq
    refine ⟨⟨_, rfl⟩, List.forall_mem_cons.mpr ⟨Exchange.not_breaks nofun ?_, hrest⟩⟩
    intro _ _ hcarried
    cases hcarried
    exact ⟨d', hnext⟩

/-- Up to a chain nothing breaks a run off. -/
theorem Advances.not_breaks_from_start {state : Value} {z : World} {d : Chain}
    (hsteps : Advances s offer ⟨0, state, .chain c, z⟩ xs q) (w : World) (v : Value) (u : World)
    (hq : q.next = .chain d) (hys : ∀ y ∈ ys, ¬ y.Breaks c) :
    ∀ x ∈ (⟨.start, w, .value v u⟩ : Exchange) :: (xs ++ ys), ¬ x.Breaks c :=
  List.forall_mem_cons.mpr ⟨Exchange.start_not_breaks c w v u,
    List.forall_mem_append.mpr ⟨(hsteps.not_breaks hq).2, hys⟩⟩

/-- The records at the end of a drive that gives no value: the last step cannot be recorded; or
an effect was declined and is recorded, and then nothing has broken the run off; or there are
none. -/
inductive Halts.Records (s : Settings) (c : Chain) (h : Handler) (p : Standing)
    (ys : List Exchange) (o : Outcome Value) : Prop
  | unrecorded (steps : Unrecorded s ys o)
    (handled : ∀ e ∈ ys.filterMap Exchange.handled?, ∃ f, e.recordText = .error f)
    (declined : ys.filterMap Exchange.declined? = [])
    (records : ∀ logSteps, account logSteps h (fun _ => []) p.steps ys = [])
  | declined (e : Effect) (handled : ys.filterMap Exchange.handled? = [])
    (declined : ys.filterMap Exchange.declined? = [e])
    (records : ∀ logSteps, account logSteps h (fun _ => []) p.steps ys = unhandledRecord p.steps e)
    (next : ∃ d, p.next = .chain d) (whole : ∀ y ∈ ys, ¬ y.Breaks c)
  | nothing (handled : ys.filterMap Exchange.handled? = [])
    (declined : ys.filterMap Exchange.declined? = [])
    (records : ∀ logSteps, account logSteps h (fun _ => []) p.steps ys = [])

/-- Where an effect was declined, this is recorded. -/
theorem Halts.Records.of_declined {n : Nat} {state v : Value} {e : Effect} {r : CapabilitySet}
    {z : World} {o : Outcome Value} (c : Chain) (h : Handler)
    (hv : ∀ state' next, v ≠ .handled state' next) :
    Records s c h ⟨n, state, .chain (.suspended e r), z⟩ [⟨.offer state e, w, .value v u⟩] o := by
  have hbreaks : ¬ Exchange.Breaks c ⟨.offer state e, w, .value v u⟩ :=
    Exchange.not_breaks nofun fun _ _ hx => by
      rw [Exchange.carried_of_declined hv] at hx
      cases hx
  cases v with
  | handled state' next => exact absurd rfl (hv state' next)
  | _ =>
    exact .declined e rfl rfl (fun _ => List.append_nil _) ⟨_, rfl⟩
      (List.forall_mem_singleton.mpr hbreaks)

theorem Halts.records {d : Outcome Drive} {o : Outcome Value} (c : Chain) (h : Handler)
    (hhalt : Halts s offer p ys d) (hlost : d.Lost o) : Halts.Records s c h p ys o := by
  cases hhalt with
  | finished => exact absurd hlost (Outcome.Lost.not_value rfl)
  | notChain | spent => exact .nothing rfl rfl fun _ => rfl
  | declined within answer hv | unreported within answer hv => exact .of_declined c h hv
  | @unrecorded n state state' next e r w w' f within handled recorded =>
    obtain ⟨hlog, htext⟩ := Settings.recorded_eq_error.mp recorded
    have hrecord : stepRecord (n + 1) e = [] := Effect.shownIn_of_fault htext _ _
    cases hlost
    refine .unrecorded ⟨[], state, state', next, e, w, w', f, rfl, hlog, htext, rfl⟩ ?_ rfl
      fun logSteps => ?_
    · exact List.forall_mem_singleton.mpr ⟨f, htext⟩
    · simp only [account, Exchange.recordsAfter, hrecord, Exchange.recordsBefore, ite_self,
        List.append_nil]
  | @lost n state e r w d within answer =>
    generalize offer state e w = x at answer
    cases answer <;> exact .nothing rfl rfl fun _ => rfl

/-- A chain has not come to its end in a dialogue that is left with offers: the handler would have
been asked to finish, unless the last step cannot be recorded. -/
theorem Dialogue.not_ends {x : Exchange} {o : Outcome Value}
    (hd : Dialogue s call c h w (x :: xs) o)
    (provided : ∀ a, a ∈ c.requires → a ∈ h.capabilities) (hx : x.asked = .start)
    (hxs : ∀ y ∈ xs, ∃ state e, y.asked = .offer state e) :
    (¬ ∃ y ∈ x :: xs, y.Ends c) ∨ Unrecorded s (x :: xs) o := by
  refine Classical.or_iff_not_imp_right.mpr fun hrecorded hends => ?_
  obtain ⟨y, hy, state, hasked⟩ := (hd.inOrder provided).finishes.mpr ⟨hends, hrecorded⟩
  rcases List.mem_cons.mp hy with rfl | hy
  · cases hx.symm.trans hasked
  · obtain ⟨_, _, hoffer⟩ := hxs y hy
    cases hoffer.symm.trans hasked

/-- A step that cannot be recorded was handled in the last exchange. -/
theorem Unrecorded.handles {o : Outcome Value} (h : Unrecorded s (xs ++ ys) o) (hys : ys ≠ []) :
    ys.filterMap Exchange.handled? ≠ [] := by
  obtain ⟨zs, state, state', next, e, w, u, f, ht, -⟩ := h
  have hlast := congrArg List.getLast? ht
  rw [List.getLast?_append, List.getLast?_concat, List.getLast?_eq_some_getLast hys] at hlast
  have hmem := List.getLast_mem hys
  rw [Option.some.inj hlast] at hmem
  exact List.ne_nil_of_mem (List.mem_filterMap.mpr ⟨_, hmem, rfl⟩)

/-- **The records of a run**: the steps are numbered without a gap, each with the effect that was
handled, and their number is the one that is recorded at the end. -/
theorem Dialogue.records_eq {o : Outcome Value} (hd : Dialogue s call c h w t o) :
    ∃ opening closing, Opening h opening ∧ Closing s c t o closing ∧ ∀ logSteps,
      account logSteps h (fun _ => []) 0 t = opening ++ (if logSteps then
        stepRecords (t.filterMap Exchange.handled?) else []) ++ closing := by
  have hd' := hd
  cases hd with
  | refused =>
    exact ⟨[], [], .unstarted, .of_nothing (.inl (by simp)) rfl, fun b => by cases b <;> rfl⟩
  | notStarted provided start =>
    have hcarried : Exchange.carried c ⟨.start, w, h.start call w⟩ = none :=
      Exchange.carried_of_lost start
    refine ⟨[], [], .unstarted, .of_nothing (.inl (by simp [Exchange.Ends, hcarried])) rfl,
      fun b => ?_⟩
    rw [account, Exchange.recordsAfter_of_lost start]
    cases b <;> rfl
  | @halted state u xs ys p d o provided start steps halt lost =>
    have hends := hd'.not_ends provided rfl
      (List.forall_mem_append.mpr ⟨steps.offers, halt.offers⟩)
    cases halt.records c h lost with
    | unrecorded hlast hhandled hdeclined hrecords =>
      obtain ⟨hall, -, hrecords⟩ := steps.records_from_start w state u hhandled hrecords
      exact ⟨_, [], .started, .of_nothing (.inr (hlast.append (⟨.start, w, .value state u⟩ :: xs)))
        (hall.trans hdeclined), hrecords⟩
    | declined e hhandled hdeclined hrecords hnext hwhole =>
      have hnone : ∀ e ∈ ys.filterMap Exchange.handled?, ∃ f, e.recordText = .error f := by
        simp [hhandled]
      obtain ⟨hall, hcount, hrecords⟩ := steps.records_from_start w state u hnone hrecords
      obtain ⟨d', hp⟩ := hnext
      have hbreaks := steps.not_breaks_from_start w state u hp hwhole
      have hys : ys ≠ [] := by
        rintro rfl
        cases hdeclined
      have hrecorded (hlast : Unrecorded s (⟨.start, w, .value state u⟩ :: xs ++ ys) o) : False :=
        hlast.handles hys hhandled
      rw [hhandled, List.length_nil, Nat.add_zero] at hcount
      exact ⟨_, _, .started,
        .of_declined (hends.resolve_right hrecorded) (hall.trans hdeclined) hbreaks hcount, hrecords⟩
    | nothing hhandled hdeclined hrecords =>
      have hnone : ∀ e ∈ ys.filterMap Exchange.handled?, ∃ f, e.recordText = .error f := by
        simp [hhandled]
      obtain ⟨hall, -, hrecords⟩ := steps.records_from_start w state u hnone hrecords
      exact ⟨_, [], .started, .of_nothing hends (hall.trans hdeclined), hrecords⟩
  | @finished state u u' xs p d o provided start steps halt finish =>
    obtain ⟨-, r, rfl⟩ := halt.of_value
    let last : Exchange := ⟨.finish d.state, d.closed u', h.finish call d.state (d.closed u')⟩
    obtain ⟨hends, hrecorded⟩ := (hd'.inOrder provided).finishes.mp
      ⟨last, by simp [last], d.state, rfl⟩
    have hclosing (b : Bool) :
        account b h (fun _ => []) d.steps [last] = [finishRecord d.steps] := rfl
    have hnone : ∀ e ∈ [last].filterMap Exchange.handled?, ∃ f, e.recordText = .error f := by
      simp [last, Exchange.handled?]
    obtain ⟨hdeclined, hcount, hrecords⟩ := steps.records_from_start w state u hnone hclosing
    have hlast : ¬ last.Breaks c := Exchange.finish_not_breaks c d.state (d.closed u') _
    have hbreaks := steps.not_breaks_from_start w state u rfl (List.forall_mem_singleton.mpr hlast)
    exact ⟨_, _, .started, .of_ended hends hrecorded hdeclined hbreaks hcount, hrecords⟩

end

end EffectHandlers
