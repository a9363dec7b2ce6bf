/-
EffectHandlers/Proofs/Sequencing.lean

Driving a chain that is continued.

Against a tail-resumptive handler, driving `c.bind b` is driving `c` to its
value, applying the binder to it, and driving the chain that this gives from
where the first drive ended:

    drive (c.bind b)  =  drive c  >>=  fun d => b d.value  >>=  drive from d

The two sides make the diagnostic record of the last step at different
times, after and before the binder is applied, so they are compared without
diagnostics (`World.plain`).  That the record of a step makes no difference
to what follows is the frame property, without a call that is left out.

A record that cannot be made does make a difference, if it is that of the
last step of the chain: the binder is applied on the left side only.  So the
binder has to do nothing where a drive would have ended but for its records
(`Binder.Waits`).

The induction is on the number of steps that are left.  A step of the two
sides takes the same offer and resumes the same pipeline; what the left side
has more, the stage at the end, is the continuation of the chain that the
right side goes on with.

The chain that is driven has to end its pipelines in chains, as what is made
with the operations of the library does.  Nothing is asked of the binder and
of the chains that it gives.

Main results: `bind_drive`, for every binder, and `drive_bind_in_sequence`,
for a function.
-/
import EffectHandlers.Proofs.DirectProgram

namespace EffectHandlers

/-! ### Worlds without diagnostics -/

/-- The world without diagnostics. -/
def World.plain (w : World) : World := { w with events := w.events.filter (·.isVisible) }

/-- The outcome without diagnostics, and without the pipeline of an effect that nobody handled,
which shows only how the program went on. -/
def Outcome.plain {α : Type} : Outcome α → Outcome α
  | .value a w => .value a w.plain
  | .failed f w => .failed f.outline w.plain
  | .exhausted => .exhausted

theorem Outcome.plain_eq_exhausted {α : Type} {o : Outcome α} :
    o.plain = .exhausted ↔ o = .exhausted := by
  cases o <;> simp [Outcome.plain]

/-- Without diagnostics, the failure for the want of a text stays what it is. -/
theorem Outcome.eq_noText_of_plain {α : Type} {o : Outcome α} {f : TextFault} {w : World}
    (h : o.plain = .failed (.noText f) w) : ∃ u, o = .failed (.noText f) u := by
  cases o with
  | failed e u =>
    obtain ⟨he, -⟩ := Outcome.failed.inj h
    unfold Failure.outline at he
    split at he
    · cases he
    · exact ⟨u, congrArg (Outcome.failed · u) he⟩
  | _ => cases h

/-- Two values that are related, the same failure, or nothing on either side, in worlds that differ
in diagnostics only. -/
inductive Outcome.Agree {α β : Type} (Q : α → β → Prop) : Outcome α → Outcome β → Prop
  | value {a : α} {b : β} {w v : World} (related : Q a b) (worlds : w.plain = v.plain) :
      Agree Q (.value a w) (.value b v)
  | failed {w v : World} (f : Failure) (worlds : w.plain = v.plain) :
      Agree Q (.failed f w) (.failed f v)
  | exhausted : Agree Q .exhausted .exhausted

section

variable {R : Regime} {w v : World} {α β : Type}

theorem Outcome.Agree.plain_eq {o o' : Outcome α} (h : o.Agree Eq o') : o.plain = o'.plain := by
  cases h with
  | value related worlds => rw [Outcome.plain, Outcome.plain, related, worlds]
  | failed f worlds => rw [Outcome.plain, Outcome.plain, worlds]
  | exhausted => rfl

/-- A framed action comes to the same value or failure in worlds that differ in diagnostics. -/
theorem Framed.agree {P : α → Prop} {x : Action α} (hx : Framed R none P x)
    (hw : w.Clean R none) (h : w.plain = v.plain) : (x w).Agree Eq (x v) := by
  have hevents : w.events.filter (·.isVisible) = v.events.filter (·.isVisible) :=
    congrArg World.events h
  have hbase : ({ w with events := [] } : World) = { v with events := [] } :=
    congrArg (fun u : World => { u with events := [] }) h
  have hbeside (u : World) : ({ u with events := [] } : World).beside none .blank u.events = u :=
    rfl
  have hplain (u : World) :
      (u.beside none .blank w.events).plain = (u.beside none .blank v.events).plain := by
    simp only [World.plain, World.beside, List.filter_append, hevents, recordsBeside]
  obtain ⟨hcomm, -⟩ := hx { w with events := [] } { hw with }
  have hcomm' := hcomm .blank
  have hleft := hcomm' w.events
  have hright := hcomm' v.events
  rw [hbeside] at hleft
  rw [hbase, hbeside] at hright
  rw [hleft, hright, ← hbase]
  cases x { w with events := [] } with
  | value a u => exact .value rfl (hplain u)
  | failed f u => exact .failed f (hplain u)
  | exhausted => exact .exhausted

/-- A framed action comes to the same in worlds that differ in diagnostics. -/
theorem Framed.plain_congr {P : α → Prop} {x : Action α} (hx : Framed R none P x)
    (hw : w.Clean R none) (h : w.plain = v.plain) : (x w).plain = (x v).plain :=
  (hx.agree hw h).plain_eq

/-- After a framed action both sides go on from a clean world. -/
theorem Framed.plain_bind {P : α → Prop} {x : Action α} (hx : Framed R none P x)
    (hw : w.Clean R none) {f g : α → Action β}
    (h : ∀ a w', x w = .value a w' → P a → w'.Clean R none → (f a w').plain = (g a w').plain) :
    ((x >>= f) w).plain = ((x >>= g) w).plain := by
  rw [Action.bind_apply, Action.bind_apply]
  cases hxw : x w with
  | value a w' =>
    obtain ⟨ha, hw'⟩ := (hx w hw).2 a w' hxw
    exact h a w' hxw ha hw'
  | failed e w' => rfl
  | exhausted => rfl

/-- A diagnostic record makes no difference to what follows. -/
theorem Action.Quiet.plain {before : Action Unit} (hbefore : before.Quiet) {P : α → Prop}
    {x : Action α} (hx : Framed R none P x) (hw : w.Clean R none) :
    ((before >>= fun _ => x) w).plain = (x w).plain := by
  cases hbefore with
  | nothing => rfl
  | note severity text =>
    have hnoted : World.Clean R none { w with events := .noted severity text :: w.events } :=
      { hw with }
    exact hx.plain_congr hnoted rfl

/-- Failures because of one request are the same, whatever the pipelines are. -/
theorem failUnhandled_plain (steps : Nat) {e e' : Effect} (he : e.request = e'.request) :
    (failUnhandled steps e w : Outcome α).plain = (failUnhandled steps e' w : Outcome α).plain := by
  unfold failUnhandled Effect.noted
  rw [Effect.recordText_congr he]
  cases e'.recordText with
  | ok text =>
    show Outcome.failed (Failure.outline _) _ = Outcome.failed (Failure.outline _) _
    rw [Failure.outline, Failure.outline, he]
  | error f => rfl

end

/-! ### Driving what is continued -/

/-- The settings with which no steps are recorded. -/
def Settings.silent (s : Settings) : Settings := { s with logSteps := false }

/-- Where a drive fails for the want of a text, and would have ended without its records, a binder
does nothing but give a chain. -/
def Binder.Waits (s : Settings) (b : Binder) (recorded silent : Outcome Drive) : Prop :=
  s.logSteps = true → ∀ f u d v, recorded = .failed (.noText f) u → silent = .value d v →
    ∃ c, b.apply (Callable.meaning s) d.value v = .value c v

section

variable {s : Settings} {offer : Offer} {R : Regime} {w : World}

/-- A step of a drive whose effect is handled, as its bare request, and goes on with a chain. -/
theorem drive_step {call : Call} (htail : TailResumptive call offer) (fuel steps : Nat)
    {state state' a : Value} {e : Effect} {r : CapabilitySet} {c : Chain} {w w₁ w₂ : World}
    (hoffered : offer state (.of e.request) w = .value (.handled state' a) w₁)
    (hresumed : e.resume call a w₁ = .value (.chain c) w₂) :
    drive s offer (fuel + 1) steps state (.chain (.suspended e r)) w
      = (s.noteStep (steps + 1) e >>= fun _ =>
          drive s offer fuel (steps + 1) state' (.chain c)) w₂ := by
  rw [drive_suspended, htail state e, bind_assoc, Action.bind_of_value hoffered, Effect.goOn,
    bind_assoc, Action.bind_of_value hresumed, pure_bind]

/-- Apply a binder where a drive has ended, and drive the chain that this gives. -/
noncomputable def driveAfter (s : Settings) (offer : Offer) (b : Binder) (total : Nat)
    (d : Drive) : Action Drive :=
  b.apply (Callable.meaning s) d.value >>= fun c =>
    drive s offer (total - d.steps) d.steps d.state (.chain c)

/-- A finished chain is continued at once. -/
theorem bind_drive_done (b : Binder) (fuel steps : Nat) (state v : Value) (r : CapabilitySet) :
    (Chain.done v r).bind (Callable.meaning s) b >>= (fun c' =>
        drive s offer fuel steps state (.chain c'))
    = drive s offer fuel steps state (.chain (.done v r)) >>=
        driveAfter s offer b (fuel + steps) := by
  rw [drive_done, pure_bind, driveAfter, Chain.bind_done, bind_assoc]
  simp only [pure_bind, drive_declare, Nat.add_sub_cancel]

-- That diagnostics make no difference is so for all values, so nothing is asked of the binder.
variable (hany : Discipline.Offers
  (frame .free none (Regime.call_iff fun _ => trivial)).toDiscipline fun _ => offer)

include hany in
theorem framed_drive (fuel steps : Nat) (state program : Value) :
    Framed .free none (Drive.Obeys .free) (drive s offer fuel steps state program) :=
  Discipline.drive s hany fuel steps state.obeys_free program.obeys_free

include hany in
theorem framed_driveAfter (b : Binder) (total : Nat) (d : Drive) :
    Framed .free none (Drive.Obeys .free) (driveAfter s offer b total d) :=
  Framed.bind (Discipline.binderApply (frame_meaning (Regime.call_iff fun _ => trivial) s)
    b.obeys_free d.value.obeys_free) fun _ _ => framed_drive hany _ _ _ _

include hany in
/-- The last step of a chain is recorded before its continuation is made, or after it. -/
theorem bind_drive_noted (b : Binder) {before after : Action Unit} (hbefore : before.Quiet)
    (hafter : after.Quiet) (fuel steps : Nat) (state : Value) (c : Chain)
    (h : ((c.bind (Callable.meaning s) b >>= fun c' =>
          drive s offer fuel steps state (.chain c')) w).plain
      = ((drive s offer fuel steps state (.chain c) >>=
          driveAfter s offer b (fuel + steps)) w).plain) :
    ((c.bind (Callable.meaning s) b >>= fun c' => after >>= fun _ =>
        drive s offer fuel steps state (.chain c')) w).plain
    = ((before >>= fun _ => drive s offer fuel steps state (.chain c) >>=
        driveAfter s offer b (fuel + steps)) w).plain := by
  have hbind : Framed .free none _ (c.bind (Callable.meaning s) b) :=
    Discipline.chainBind_collects (frame_meaning (Regime.call_iff fun _ => trivial) s)
      c.obeys_free b.obeys_free nofun
  have hrest : Framed .free none (Drive.Obeys .free)
      (drive s offer fuel steps state (.chain c) >>= driveAfter s offer b (fuel + steps)) :=
    Framed.bind (framed_drive hany _ _ _ _) fun d _ => framed_driveAfter hany b _ d
  calc ((c.bind (Callable.meaning s) b >>= fun c' => after >>= fun _ =>
        drive s offer fuel steps state (.chain c')) w).plain
      = ((c.bind (Callable.meaning s) b >>= fun c' =>
          drive s offer fuel steps state (.chain c')) w).plain :=
        hbind.plain_bind w.clean_free fun c' w' _ _ hw' =>
          hafter.plain (framed_drive hany _ _ _ _) hw'
    _ = ((drive s offer fuel steps state (.chain c) >>=
          driveAfter s offer b (fuel + steps)) w).plain := h
    _ = ((before >>= fun _ => drive s offer fuel steps state (.chain c) >>=
          driveAfter s offer b (fuel + steps)) w).plain := (hbefore.plain hrest w.clean_free).symm

/-- A record that cannot be made, after the continuation of a chain. -/
theorem bind_drive_unrecorded {α : Type} {b : Binder} {c : Chain} {f : TextFault}
    {g : Chain → Action α} (hg : ∀ d, g d = Action.fail (.noText f))
    (hdone : ∀ v r, c = .done v r → ∃ d, b.apply (Callable.meaning s) v w = .value d w) :
    (c.bind (Callable.meaning s) b >>= g) w = .failed (.noText f) w := by
  obtain rfl : g = fun _ => Action.fail (.noText f) := funext hg
  cases c with
  | done v r =>
    obtain ⟨d, hd⟩ := hdone v r rfl
    rw [Chain.bind_done, bind_assoc, Action.bind_of_value hd]
    rfl
  | suspended e r => rfl

include hany in
/-- The record of a step makes no difference to whether a binder waits. -/
theorem Binder.Waits.of_noted {b : Binder} {before : Action Unit} (hbefore : before.Quiet)
    {fuel steps : Nat} {state : Value} {c : Chain} {silent : Outcome Drive}
    (hwaits : b.Waits s ((before >>= fun _ => drive s offer fuel steps state (.chain c)) w) silent) :
    b.Waits s (drive s offer fuel steps state (.chain c) w) silent := by
  intro hlog f u d v hfailed
  have hplain := hbefore.plain (framed_drive (s := s) hany fuel steps state (.chain c)) w.clean_free
  rw [hfailed] at hplain
  obtain ⟨u', hfailed'⟩ := Outcome.eq_noText_of_plain hplain
  exact hwaits hlog f u' d v hfailed'

variable (hid : ∀ k, R.call k ↔ some k ≠ none)
  (hoffer : Discipline.Offers (frame R none hid).toDiscipline fun _ => offer)

include hany hid hoffer in
/-- **Driving a continued chain is driving the chain, and then its continuation.** -/
theorem bind_drive (htail : TailResumptive (Callable.meaning s) offer)
    (hnode : ∀ e r, R.node e r → e.EndsInChain) (b : Binder) (fuel steps : Nat) {state : Value}
    (hstate : state.Obeys R) {c : Chain} (hc : c.Obeys R) (hw : w.Clean R none)
    (hwaits : b.Waits s (drive s offer fuel steps state (.chain c) w)
      (drive s.silent offer fuel steps state (.chain c) w)) :
    ((c.bind (Callable.meaning s) b >>= fun c' =>
        drive s offer fuel steps state (.chain c')) w).plain
    = ((drive s offer fuel steps state (.chain c) >>=
        driveAfter s offer b (fuel + steps)) w).plain := by
  induction fuel generalizing steps state c w with
  | zero =>
    cases c with
    | done v r => rw [bind_drive_done]
    | suspended e r => rfl
  | succ fuel ih =>
    cases c with
    | done v r => rw [bind_drive_done]
    | suspended e r =>
      have hsum : fuel + 1 + steps = fuel + (steps + 1) := by omega
      have hbare : (Effect.of e.request).Obeys R := Effect.obeys_of (Effect.obeys_request hc.2)
      have hoffered : Framed R none (Value.Obeys R) (offer state (.of e.request)) :=
        hoffer state (.of e.request) hstate hbare
      rw [Chain.bind_suspended, pure_bind, drive_suspended, drive_suspended,
        htail state (e.map _), htail state e, Effect.request_map, hsum]
      simp only [bind_assoc]
      refine hoffered.plain_bind hw fun u w₁ hu₁ hu hw₁ => ?_
      cases u
      case handled state' a =>
        have hresume : Framed R none (fun u => u.Obeys R ∧ ∃ c, u = .chain c)
            (e.resume (Callable.meaning s) a) :=
          (Discipline.resume (frame_meaning hid s) hc.2 hu.2).and
            fun _ _ _ => (hnode e r hc.1).resume
        simp only [Effect.goOn, bind_assoc, pure_bind, Effect.resume_map]
        refine hresume.plain_bind hw₁ fun u w₂ hresumed hchain hw₂ => ?_
        obtain ⟨hc₂, c, rfl⟩ := hchain
        rw [drive_step htail fuel steps hu₁ hresumed, drive_step htail fuel steps hu₁ hresumed]
          at hwaits
        simp only [Stage.apply, bind_assoc, pure_bind]
        rw [s.noteStep_congr (steps + 1) (Effect.request_map e (.bind b))]
        obtain hquiet | ⟨hlog, f, hnote⟩ := s.quiet_noteStep (steps + 1) e
        · exact bind_drive_noted hany b hquiet hquiet fuel (steps + 1) _ c
            (ih (steps + 1) hu.1 hc₂ hw₂ (hwaits.of_noted hany hquiet))
        · rw [hnote] at hwaits ⊢
          refine congrArg Outcome.plain (bind_drive_unrecorded (fun _ => rfl) ?_)
          rintro v q rfl
          -- Without the record, this would have been the end of the drive.
          rw [drive_done, drive_done] at hwaits
          exact hwaits hlog f w₂ ⟨v, state', steps + 1⟩ w₂ rfl rfl
      all_goals
        show (failUnhandled steps (e.map (.bind b)) w₁).plain
          = ((failUnhandled steps e >>= driveAfter s offer b (fuel + (steps + 1))) w₁).plain
        rw [failUnhandled_bind]
        exact failUnhandled_plain steps (Effect.request_map e (.bind b))

end

/-! ### The theorem -/

/-- **Running a chain that is continued is running its parts in sequence.**  Against a
tail-resumptive handler, and up to diagnostics: if the drive of a chain ends, the drive of its
continuation calls the function once, with the value, and has the outcome of the drive of the
chain that the function gives, from the state in which the first drive ended and with the steps
that it left.  If the drive of the chain fails, so does the drive of the continuation, in the
same world, and the function is not called.  Requests may be watched, so the same requests are
offered in the same order.  The handlers of the library are tail-resumptive, and combinations of
such handlers.

A drive that would have ended but for the record of a step has failed neither in the handler nor
in a continuation, and nothing is said of it. -/
theorem drive_bind_in_sequence (s : Settings) :
    (∀ call (h : Handler), h.Shipped → TailResumptive call (h.offer call)) ∧
    (∀ call (hs : List Handler) c w w', (∀ h ∈ hs, TailResumptive call (Handler.offer call h)) →
      Handler.combine hs w = .value c w' → TailResumptive call (c.offer call)) ∧
    ∀ (h : Handler) (watch : Request → Option Event) (c : Chain) (f : Callable) (state : Value)
      (fuel steps : Nat) (w : World),
      TailResumptive (Callable.meaning s) (h.offer (Callable.meaning s)) →
      w.Obeys (.constructed fun _ => True) → h.Obeys (.constructed fun _ => True) →
      c.Obeys (.constructed fun _ => True) → state.Obeys (.constructed fun _ => True) →
      let offer := h.watched watch (Callable.meaning s)
      let continued := c.bind (Callable.meaning s) (.call f) >>= fun c' =>
        drive s offer fuel steps state (.chain c')
      match drive s offer fuel steps state (.chain c) w with
      | .value d w' =>
        (continued w).plain = ((Callable.meaning s f [d.value] >>= Chain.ofValue "binder" >>=
          fun c' => drive s offer (fuel + steps - d.steps) d.steps d.state (.chain c')) w').plain
      | .failed e w' =>
        (s.logSteps = true → ∀ f, e = .noText f →
          ∀ d u, drive s.silent offer fuel steps state (.chain c) w ≠ .value d u) →
        (continued w).plain = .failed e.outline w'.plain
      | .exhausted => continued w = .exhausted := by
  refine ⟨fun _ _ hs => hs.tailResumptive,
    fun _ _ _ _ _ h hc => Handler.tailResumptive_combine h hc, ?_⟩
  intro h watch c f state fuel steps w htail hw hh hc hstate
  have hcalls (R : Regime) (hcall : ∀ k, R.call k) := frame_meaning (Regime.call_iff hcall) s
  have hany := Discipline.watched (hcalls .free fun _ => trivial) h.obeys_free watch
  have hoffer := Discipline.watched (hcalls (.constructed _) fun _ => trivial) hh watch
  have heq := bind_drive hany _ hoffer (htail.watched watch) (fun _ _ he => he) (.call f)
    fuel steps hstate hc hw.clean
  dsimp only
  rw [Action.bind_apply (drive _ _ _ _ _ _)] at heq
  split
  · rename_i d w' hd
    rw [hd] at heq
    exact heq fun _ _ _ _ _ => nofun
  · rename_i e w' hd
    intro hfails
    rw [hd] at heq
    refine heq fun hlog f u d v hfailed hended => ?_
    obtain ⟨rfl, -⟩ := Outcome.failed.inj hfailed
    exact absurd hended (hfails hlog f rfl d v)
  · rename_i hd
    rw [hd] at heq
    exact Outcome.plain_eq_exhausted.mp (heq fun _ _ _ _ _ => nofun)

/-- The chain that adds to the counter. -/
def tickBy (n : Int) : Chain := .perform (.of (.tick (.int n)))

/-- The function that adds its argument to the counter. -/
def tickArgument : Callable := .closure 0 ["x"] (.op (.chain .tick) [.var "x"]) []

/-- A counter, every request of which is watched. -/
def watchedCounter (call : Call) : Offer :=
  Handler.watched (fun r => some (.traced (.effect (.of r)) #[])) call (.counter 0)

theorem drive_tickBy (call : Call) (fuel steps : Nat) (m n : Int) (w : World) :
    drive ⟨false, 10⟩ (watchedCounter call) (fuel + 1) steps (.int m) (.chain (tickBy n)) w
    = .value ⟨.int (m + n), .int (m + n), steps + 1⟩
        { w with events := .traced (.effect (.of (.tick (.int n)))) #[] :: w.events } := by
  have hresume : (Effect.map (.of (.tick (.int n))) .lift).resume call (.int (m + n))
      = pure (.chain (.finished (.int (m + n)))) := by
    rw [Effect.resume_map, Effect.resume_of]
    rfl
  have hstep : Handler.counterStep call (.int m) (Effect.map (.of (.tick (.int n))) .lift)
      = pure (.int (m + n), .chain (.finished (.int (m + n)))) := by
    show (Effect.map (.of (.tick (.int n))) .lift).resume call (.int (m + n)) >>= _ = _
    rw [hresume]
    rfl
  have hoffer : watchedCounter call (.int m) (Effect.map (.of (.tick (.int n))) .lift) w
      = .value (.handled (.int (m + n)) (.chain (.finished (.int (m + n)))))
          { w with events := .traced (.effect (.of (.tick (.int n)))) #[] :: w.events } := by
    show (Handler.counterStep call (.int m) (Effect.map (.of (.tick (.int n))) .lift) >>= _) _ = _
    rw [hstep]
    rfl
  rw [tickBy, Chain.perform, drive_suspended, Action.bind_of_value hoffer]
  simp only [Chain.finished, drive_done]
  rfl

/-- A chain that adds two to a counter, continued by adding what the counter then shows. -/
theorem drive_tickBy_in_sequence :
    (((tickBy 2).bind (Callable.meaning ⟨false, 10⟩) (.call tickArgument) >>= fun c =>
      drive ⟨false, 10⟩ (watchedCounter (Callable.meaning ⟨false, 10⟩)) 2 0 (.int 1) (.chain c))
        (.initial "")).plain
    = .value ⟨.int 6, .int 6, 2⟩
      { World.initial "" with
        events := [.traced (.effect (.of (.tick (.int 3)))) #[],
          .traced (.effect (.of (.tick (.int 2)))) #[]] } := by
  have htail : TailResumptive (Callable.meaning ⟨false, 10⟩)
      (Handler.offer (Callable.meaning ⟨false, 10⟩) (.counter 0)) :=
    (Handler.Shipped.counter 0).tailResumptive
  have hworld := World.obeys_initial (.constructed fun _ => True) ""
  have hc : (tickBy 2).Obeys (.constructed fun _ => True) :=
    Chain.obeys_perform (Effect.obeys_of trivial)
  have hmade (w : World) : (Callable.meaning ⟨false, 10⟩ tickArgument [.int 3] >>=
      Chain.ofValue "binder") w = .value (tickBy 3) w := by
    rw [Callable.meaning_unfold]
    rfl
  have h := (drive_bind_in_sequence ⟨false, 10⟩).2.2 (.counter 0)
    (fun r => some (.traced (.effect (.of r)) #[])) (tickBy 2) tickArgument (.int 1) 2 0
    (.initial "") htail hworld trivial hc trivial
  have hfirst := drive_tickBy (Callable.meaning ⟨false, 10⟩) 1 0 1 2 (.initial "")
  rw [watchedCounter] at hfirst ⊢
  dsimp only at h
  rw [hfirst] at h
  have hrest (w : World) := Action.bind_of_value (hmade w) (f := fun c' => drive ⟨false, 10⟩
    (watchedCounter (Callable.meaning ⟨false, 10⟩)) 1 1 (.int 3) (.chain c'))
  exact h.trans (congrArg Outcome.plain ((hrest _).trans (drive_tickBy _ 0 1 3 3 _)))

end EffectHandlers
