/-
EffectHandlers/Proofs/Protocol.lean

Which methods of a handler a run calls, and on what.

A run is a dialogue between the driver and the handler.  An exchange is one
call of a method: what was asked, in which world, and what it came to.  The
driver asks for a start first; after that, what the handler answered decides
what it is asked next:

    start        ↦ state          the chain that is run, in that state
    offer        ↦ state, next    that chain, in that state
    a suspended chain             its effect is offered in the state
    a finished chain              the handler finishes with the state
    anything else                 nothing more is asked

Design.  The dialogue is a relation of its own (`Advances`, `Halts`,
`Dialogue`), with one rule for each way in which a run goes on or stops, and
a run is compared with it.  The functions that programs call are arbitrary,
and they may change the world in any way; the worlds of the exchanges are
threaded, and only diagnostic records are made between two of them.  So a
call that is left out, made twice or made in another order would be seen.

The steps of a run are bounded.  A dialogue that is stopped by the bound
comes to nothing, and the last thing asked for in it was one more offer.

Main result: a run is the dialogue that the rules allow, and there is only
one (`run_protocol`).
-/
import EffectHandlers.Run
import EffectHandlers.Proofs.Resumption

namespace EffectHandlers

/-! ### Exchanges -/

/-- What a handler is asked. -/
inductive Question
  | start
  | offer (state : Value) (e : Effect)
  | finish (state : Value)

/-- What a handler does when it is asked. -/
def Handler.reply (call : Call) (h : Handler) : Question → Action Value
  | .start => h.start call
  | .offer state e => h.offer call state e
  | .finish state => h.finish call state

/-- One call of a method of a handler: what was asked, in which world, and what it came to. -/
structure Exchange where
  asked : Question
  world : World
  outcome : Outcome Value

/-- The state and the next value that an answer carries, in a run of a chain. -/
def Exchange.carried (c : Chain) : Exchange → Option (Value × Value)
  | ⟨.start, _, .value state _⟩ => some (state, .chain c)
  | ⟨.offer _ _, _, .value (.handled state next) _⟩ => some (state, next)
  | _ => none

/-- What a handler is asked in a state, when there is a next value. -/
def Question.about (state : Value) : Value → Option Question
  | .chain (.suspended e _) => some (.offer state e)
  | .chain (.done _ _) => some (.finish state)
  | _ => none

/-- What an answer leads the driver to ask, in a run of a chain. -/
def Exchange.calls (c : Chain) (x : Exchange) : Option Question :=
  (x.carried c).bind fun (state, next) => Question.about state next

/-! ### Diagnostic records -/

/-- The world with one more diagnostic record. -/
def World.noted (w : World) (severity : Severity) (text : String) : World :=
  { w with events := .noted severity text :: w.events }

/-- The world after the record of a step, if the settings ask for one and the effect can be
shown. -/
def Settings.recorded (s : Settings) (step : Nat) (e : Effect) (w : World) :
    Except TextFault World :=
  if s.logSteps then e.recordText.map fun text =>
    w.noted .debug ("Step " ++ toString step ++ " handled " ++ text)
  else .ok w

/-- The world after the record of an effect that nobody took, if the effect can be shown. -/
def Effect.reported (e : Effect) (steps : Nat) (w : World) : Except TextFault World :=
  e.recordText.map fun text =>
    w.noted .error ("Unhandled effect after " ++ toString steps ++ " step(s): " ++ text)

/-- The world after the record of a run that has begun. -/
def Handler.opened (h : Handler) (w : World) : World :=
  w.noted .debug ("Run started with " ++ h.written)

/-- The world after the record of a drive that has ended. -/
def Drive.closed (d : Drive) (w : World) : World :=
  w.noted .debug ("Run finished after " ++ toString d.steps ++ " step(s)")

section

variable {s : Settings} {step : Nat} {e : Effect} {w w' : World} {f : TextFault}

/-- What the record of something comes to. -/
def Outcome.ofRecord (w : World) : Except TextFault World → Outcome Unit
  | .ok w' => .value () w'
  | .error f => .failed (.noText f) w

theorem Settings.noteStep_apply (s : Settings) (step : Nat) (e : Effect) (w : World) :
    s.noteStep step e w = .ofRecord w (s.recorded step e w) := by
  unfold Settings.noteStep Settings.recorded Effect.noted
  split
  · cases e.recordText <;> rfl
  · rfl

/-- The record of an effect that nobody took is made if the effect can be shown. -/
theorem Effect.reported_eq_ok : e.reported step w = .ok w' ↔ ∃ text, e.recordText = .ok text ∧
    w' = w.noted .error ("Unhandled effect after " ++ toString step ++ " step(s): " ++ text) := by
  unfold Effect.reported
  cases e.recordText <;> simp [Except.map, eq_comm]

/-- The record of an effect that nobody took fails if the effect cannot be shown. -/
theorem Effect.reported_eq_error : e.reported step w = .error f ↔ e.recordText = .error f := by
  unfold Effect.reported
  cases e.recordText <;> simp [Except.map]

/-- Either no record of a step is asked for, or it is made and the effect can be shown. -/
theorem Settings.recorded_eq_ok : s.recorded step e w = .ok w' ↔
    (s.logSteps = false ∧ w' = w) ∨ (s.logSteps = true ∧ ∃ text, e.recordText = .ok text ∧
      w' = w.noted .debug ("Step " ++ toString step ++ " handled " ++ text)) := by
  unfold Settings.recorded
  split
  · rename_i hlog
    cases e.recordText <;> simp [hlog, Except.map, eq_comm]
  · rename_i hlog
    simp [hlog, eq_comm]

/-- A step goes unrecorded if records of steps are asked for and the effect cannot be shown. -/
theorem Settings.recorded_eq_error :
    s.recorded step e w = .error f ↔ s.logSteps = true ∧ e.recordText = .error f := by
  unfold Settings.recorded
  split
  · rename_i hlog
    cases e.recordText <;> simp [hlog, Except.map]
  · rename_i hlog
    simp [hlog]

theorem failUnhandled_of_reported {α : Type} (h : e.reported step w = .ok w') :
    (failUnhandled step e : Action α) w = .failed (.refused (.unhandledEffect e)) w' := by
  obtain ⟨text, htext, rfl⟩ := Effect.reported_eq_ok.mp h
  rw [failUnhandled, Effect.noted, htext]
  rfl

theorem failUnhandled_of_unreported {α : Type} (h : e.reported step w = .error f) :
    (failUnhandled step e : Action α) w = .failed (.noText f) w := by
  rw [failUnhandled, Effect.noted, Effect.reported_eq_error.mp h]
  rfl

end

/-! ### The rules -/

/-- No value on either side: the same failure in the same world, or nothing. -/
inductive Outcome.Lost {α β : Type} : Outcome α → Outcome β → Prop
  | failed (f : Failure) (w : World) : Lost (.failed f w) (.failed f w)
  | exhausted : Lost .exhausted .exhausted

/-- What a run comes to when the handler has finished: its result beside the value of the run, or
no value. -/
inductive Outcome.Concludes (v : Value) : Outcome Value → Outcome Value → Prop
  | value (output : Value) (w : World) :
    Concludes v (.value output w) (.value (.result v output) w)
  | lost {o o' : Outcome Value} (h : o.Lost o') : Concludes v o o'

/-- Where a drive stands: how many steps were made, the state, the next value and the world. -/
structure Standing where
  steps : Nat
  state : Value
  next : Value
  world : World

variable (s : Settings) (offer : Offer) in
/-- Steps that were handled, and the exchanges that they are.  The effect of a suspended chain is
offered in the state, and the drive goes on with what the answer carries. -/
inductive Advances : Standing → List Exchange → Standing → Prop
  | nil (p : Standing) : Advances p [] p
  | cons {n : Nat} {state state' next : Value} {e : Effect} {r : CapabilitySet} {w w' u : World}
    {xs : List Exchange} {q : Standing} (within : n < s.maxSteps)
    (handled : offer state e w = .value (.handled state' next) w')
    (recorded : s.recorded (n + 1) e w' = .ok u)
    (rest : Advances ⟨n + 1, state', next, u⟩ xs q) :
    Advances ⟨n, state, .chain (.suspended e r), w⟩
      (⟨.offer state e, w, .value (.handled state' next) w'⟩ :: xs) q

variable (s : Settings) (offer : Offer) in
/-- How a drive stops, the exchange that is still made, and what the drive comes to.  An effect that
nobody takes is refused, and a step that was handled is recorded; either fails if the effect cannot
be shown. -/
inductive Halts : Standing → List Exchange → Outcome Drive → Prop
  | finished {n : Nat} {state v : Value} {r : CapabilitySet} {w : World} :
    Halts ⟨n, state, .chain (.done v r), w⟩ [] (.value ⟨v, state, n⟩ w)
  | notChain {n : Nat} {state next : Value} {w : World} (hnext : ∀ c, next ≠ .chain c) :
    Halts ⟨n, state, next, w⟩ [] (.failed (.notChainStep next.typeName) w)
  | declined {n : Nat} {state v : Value} {e : Effect} {r : CapabilitySet} {w w' : World}
    {u : World} (within : n < s.maxSteps) (answer : offer state e w = .value v w')
    (hv : ∀ state' next, v ≠ .handled state' next) (reported : e.reported n w' = .ok u) :
    Halts ⟨n, state, .chain (.suspended e r), w⟩ [⟨.offer state e, w, .value v w'⟩]
      (.failed (.refused (.unhandledEffect e)) u)
  | unreported {n : Nat} {state v : Value} {e : Effect} {r : CapabilitySet} {w w' : World}
    {f : TextFault} (within : n < s.maxSteps) (answer : offer state e w = .value v w')
    (hv : ∀ state' next, v ≠ .handled state' next) (reported : e.reported n w' = .error f) :
    Halts ⟨n, state, .chain (.suspended e r), w⟩ [⟨.offer state e, w, .value v w'⟩]
      (.failed (.noText f) w')
  | unrecorded {n : Nat} {state state' next : Value} {e : Effect} {r : CapabilitySet}
    {w w' : World} {f : TextFault} (within : n < s.maxSteps)
    (handled : offer state e w = .value (.handled state' next) w')
    (recorded : s.recorded (n + 1) e w' = .error f) :
    Halts ⟨n, state, .chain (.suspended e r), w⟩
      [⟨.offer state e, w, .value (.handled state' next) w'⟩] (.failed (.noText f) w')
  | lost {n : Nat} {state : Value} {e : Effect} {r : CapabilitySet} {w : World}
    {o : Outcome Drive} (within : n < s.maxSteps) (answer : (offer state e w).Lost o) :
    Halts ⟨n, state, .chain (.suspended e r), w⟩ [⟨.offer state e, w, offer state e w⟩] o
  | spent {n : Nat} {state : Value} {e : Effect} {r : CapabilitySet} {w : World}
    (beyond : s.maxSteps ≤ n) :
    Halts ⟨n, state, .chain (.suspended e r), w⟩ [] .exhausted

variable (s : Settings) (call : Call) (c : Chain) (h : Handler) in
/-- The dialogue of a run that is begun in a world, and what the run comes to. -/
inductive Dialogue (w : World) : List Exchange → Outcome Value → Prop
  | refused {a : Capability} (required : a ∈ c.requires) (missing : ¬ a ∈ h.capabilities) :
    Dialogue w [] (.failed (.refused (.missingCapability (c.requires \ h.capabilities))) w)
  | notStarted {o : Outcome Value} (provided : ∀ a, a ∈ c.requires → a ∈ h.capabilities)
    (start : (h.start call w).Lost o) :
    Dialogue w [⟨.start, w, h.start call w⟩] o
  | halted {state : Value} {u : World} {xs ys : List Exchange} {p : Standing}
    {d : Outcome Drive} {o : Outcome Value}
    (provided : ∀ a, a ∈ c.requires → a ∈ h.capabilities)
    (start : h.start call w = .value state u)
    (steps : Advances s (h.offer call) ⟨0, state, .chain c, h.opened u⟩ xs p)
    (halt : Halts s (h.offer call) p ys d) (lost : d.Lost o) :
    Dialogue w (⟨.start, w, .value state u⟩ :: (xs ++ ys)) o
  | finished {state : Value} {u u' : World} {xs : List Exchange} {p : Standing} {d : Drive}
    {o : Outcome Value} (provided : ∀ a, a ∈ c.requires → a ∈ h.capabilities)
    (start : h.start call w = .value state u)
    (steps : Advances s (h.offer call) ⟨0, state, .chain c, h.opened u⟩ xs p)
    (halt : Halts s (h.offer call) p [] (.value d u'))
    (finish : (h.finish call d.state (d.closed u')).Concludes d.value o) :
    Dialogue w (⟨.start, w, .value state u⟩ :: (xs ++
      [⟨.finish d.state, d.closed u', h.finish call d.state (d.closed u')⟩])) o

/-! ### Drives follow the rules -/

section

variable {s : Settings} {offer : Offer} {p q : Standing} {xs ys : List Exchange}
  {o : Outcome Drive}

/-- The drive from where it stands. -/
def Standing.drive (s : Settings) (offer : Offer) (p : Standing) : Outcome Drive :=
  EffectHandlers.drive s offer (s.maxSteps - p.steps) p.steps p.state p.next p.world

/-- A drive within its bound offers the effect of a suspended chain. -/
theorem Standing.drive_suspended {n : Nat} {state : Value} {e : Effect} {r : CapabilitySet}
    {w : World} (within : n < s.maxSteps) :
    Standing.drive s offer ⟨n, state, .chain (.suspended e r), w⟩
      = (offer state e >>= fun v =>
        match v with
        | .handled state next =>
          s.noteStep (n + 1) e >>= fun _ =>
            EffectHandlers.drive s offer (s.maxSteps - (n + 1)) (n + 1) state next
        | _ => failUnhandled n e) w := by
  obtain ⟨fuel, hfuel⟩ : ∃ fuel, s.maxSteps - n = fuel + 1 := ⟨s.maxSteps - n - 1, by omega⟩
  have hrest : s.maxSteps - (n + 1) = fuel := by omega
  rw [Standing.drive, hfuel, hrest]
  exact congrFun (EffectHandlers.drive_suspended s offer fuel n state e r) w

/-- A drive goes on from where the steps that were handled lead. -/
theorem Advances.drive_eq (h : Advances s offer p xs q) :
    p.drive s offer = q.drive s offer := by
  induction h with
  | nil p => rfl
  | @cons n state state' next e r w w' u xs q within handled recorded rest ih =>
    have hnote : s.noteStep (n + 1) e w' = .value () u := by
      rw [s.noteStep_apply, recorded]
      rfl
    rw [Standing.drive_suspended within, Action.bind_of_value handled]
    exact (Action.bind_of_value hnote).trans ih

/-- A drive that stops comes to what the rules say. -/
theorem Halts.drive_eq (h : Halts s offer p ys o) : p.drive s offer = o := by
  cases h with
  | finished => exact congrFun (drive_done s offer _ _ _ _ _) _
  | @notChain n state next w hnext =>
    unfold Standing.drive
    cases next <;> first | (cases s.maxSteps - n <;> rfl) | exact absurd rfl (hnext _)
  | @declined n state v e r w w' u within answer hv reported =>
    rw [Standing.drive_suspended within, Action.bind_of_value answer]
    cases v <;> first | exact absurd rfl (hv _ _) | exact failUnhandled_of_reported reported
  | @unreported n state v e r w w' f within answer hv reported =>
    rw [Standing.drive_suspended within, Action.bind_of_value answer]
    cases v <;> first | exact absurd rfl (hv _ _) | exact failUnhandled_of_unreported reported
  | @unrecorded n state state' next e r w w' f within handled recorded =>
    have hnote : s.noteStep (n + 1) e w' = .failed (.noText f) w' := by
      rw [s.noteStep_apply, recorded]
      rfl
    rw [Standing.drive_suspended within, Action.bind_of_value handled]
    exact Action.bind_of_failed hnote
  | @lost n state e r w o within answer =>
    rw [Standing.drive_suspended within, Action.bind_apply]
    generalize offer state e w = o' at answer
    cases answer <;> rfl
  | spent beyond =>
    rw [Standing.drive, Nat.sub_eq_zero_of_le beyond]
    rfl

/-- A drive that goes on where nothing stops it. -/
theorem Advances.append {q' : Standing} (h : Advances s offer p xs q)
    (h' : Advances s offer q ys q') : Advances s offer p (xs ++ ys) q' := by
  induction h with
  | nil p => exact h'
  | cons within handled recorded rest ih => exact .cons within handled recorded (ih h')

/-- Wherever a drive stands, it stops or one more step is handled. -/
theorem exists_halts_or_advances (s : Settings) (offer : Offer) (p : Standing) :
    (∃ ys o, Halts s offer p ys o) ∨
      ∃ x q, Advances s offer p [x] q ∧ p.steps < s.maxSteps ∧ q.steps = p.steps + 1 := by
  obtain ⟨n, state, next, w⟩ := p
  by_cases hnext : ∃ c, next = .chain c
  · obtain ⟨_ | ⟨e, r⟩, rfl⟩ := hnext
    · exact .inl ⟨_, _, .finished⟩
    · by_cases within : n < s.maxSteps
      · have hlost {o : Outcome Drive} (h : (offer state e w).Lost o) :
            ∃ ys o, Halts s offer ⟨n, state, .chain (.suspended e r), w⟩ ys o :=
          ⟨_, o, .lost within h⟩
        cases hanswer : offer state e w with
        | value v w' =>
          by_cases hv : ∃ state' next', v = .handled state' next'
          · obtain ⟨state', next', rfl⟩ := hv
            cases hrecorded : s.recorded (n + 1) e w' with
            | ok u => exact .inr ⟨_, _, .cons within hanswer hrecorded (.nil _), within, rfl⟩
            | error f => exact .inl ⟨_, _, .unrecorded within hanswer hrecorded⟩
          · have hv' (state' next' : Value) (h : v = .handled state' next') : False :=
              hv ⟨state', next', h⟩
            cases hreported : e.reported n w' with
            | ok u => exact .inl ⟨_, _, .declined within hanswer hv' hreported⟩
            | error f => exact .inl ⟨_, _, .unreported within hanswer hv' hreported⟩
        | failed f w' => exact .inl (hlost (by rw [hanswer]; exact .failed f w'))
        | exhausted => exact .inl (hlost (by rw [hanswer]; exact .exhausted))
      · exact .inl ⟨_, _, .spent (Nat.not_lt.mp within)⟩
  · exact .inl ⟨_, _, .notChain fun c hc => hnext ⟨c, hc⟩⟩

/-- From wherever a drive stands, steps are handled until it stops. -/
theorem exists_halts (s : Settings) (offer : Offer) (p : Standing) :
    ∃ xs q ys o, Advances s offer p xs q ∧ Halts s offer q ys o := by
  -- The steps that are left grow fewer.
  induction hleft : s.maxSteps - p.steps generalizing p with
  | zero =>
    obtain ⟨ys, o, hhalt⟩ | ⟨x, q, -, within, -⟩ := exists_halts_or_advances s offer p
    · exact ⟨[], p, ys, o, .nil p, hhalt⟩
    · omega
  | succ left ih =>
    obtain ⟨ys, o, hhalt⟩ | ⟨x, q, hstep, -, hq⟩ := exists_halts_or_advances s offer p
    · exact ⟨[], p, ys, o, .nil p, hhalt⟩
    · obtain ⟨xs, q', ys, o, hsteps, hhalt⟩ := ih q (by omega)
      exact ⟨_, q', ys, o, hstep.append hsteps, hhalt⟩

/-- A drive that stops with a value has come to a finished chain. -/
theorem Halts.of_value {d : Drive} {u : World} (h : Halts s offer p ys (.value d u)) :
    ys = [] ∧ ∃ r, p = ⟨d.steps, d.state, .chain (.done d.value r), u⟩ := by
  cases h with
  | finished => exact ⟨rfl, _, rfl⟩
  | lost within answer =>
    generalize offer _ _ _ = o' at answer
    cases answer

/-- A drive that stops makes no further step. -/
theorem Halts.not_advances {x : Exchange} (h : Halts s offer p ys o) :
    ¬ Advances s offer p (x :: xs) q := by
  intro hsteps
  cases hsteps with
  | cons within handled recorded rest =>
    cases h with
    | notChain hnext => exact hnext _ rfl
    | declined _ answer hv | unreported _ answer hv =>
      cases handled.symm.trans answer
      exact hv _ _ rfl
    | unrecorded _ handled' recorded' =>
      cases handled.symm.trans handled'
      cases recorded.symm.trans recorded'
    | lost _ answer =>
      rw [handled] at answer
      cases answer
    | spent beyond => omega

/-- The offer that is made where a drive stands, if one is. -/
def Standing.offers (s : Settings) (offer : Offer) (p : Standing) : List Exchange :=
  match p.next with
  | .chain (.suspended e _) =>
    if p.steps < s.maxSteps then [⟨.offer p.state e, p.world, offer p.state e p.world⟩] else []
  | _ => []

/-- A drive that stops has made the offer that is made where it stands. -/
theorem Halts.eq_offers (h : Halts s offer p ys o) : ys = p.offers s offer := by
  cases h with
  | finished => rfl
  | @notChain n state next w hnext =>
    unfold Standing.offers
    split
    · exact absurd ‹next = _› (hnext _)
    · rfl
  | declined within answer | unreported within answer =>
    exact (congrArg (fun o => [(⟨_, _, o⟩ : Exchange)]) answer.symm).trans (if_pos within).symm
  | unrecorded within handled =>
    exact (congrArg (fun o => [(⟨_, _, o⟩ : Exchange)]) handled.symm).trans (if_pos within).symm
  | lost within answer => exact (if_pos within).symm
  | spent beyond => exact (if_neg (Nat.not_lt.mpr beyond)).symm

/-- There is one way for a drive to stop. -/
theorem Halts.unique {ys' : List Exchange} {o' : Outcome Drive} (h : Halts s offer p ys o)
    (h' : Halts s offer p ys' o') : ys = ys' := h.eq_offers.trans h'.eq_offers.symm

/-- There is one way for a drive to go on until it stops. -/
theorem Advances.unique {q' : Standing} {xs' ys' : List Exchange} {o' : Outcome Drive}
    (h : Advances s offer p xs q) (hq : Halts s offer q ys o) (h' : Advances s offer p xs' q')
    (hq' : Halts s offer q' ys' o') : xs = xs' ∧ q = q' := by
  induction h generalizing xs' with
  | nil p =>
    cases h' with
    | nil => exact ⟨rfl, rfl⟩
    | cons within handled recorded rest =>
      exact absurd (.cons within handled recorded rest) hq.not_advances
  | cons within handled recorded rest ih =>
    cases h' with
    | nil => exact absurd (.cons within handled recorded rest) hq'.not_advances
    | cons within' handled' recorded' rest' =>
      cases handled.symm.trans handled'
      cases recorded.symm.trans recorded'
      obtain ⟨rfl, rfl⟩ := ih hq rest'
      exact ⟨rfl, rfl⟩

end

/-! ### Runs follow the rules -/

section

variable {s : Settings} {call : Call} {c : Chain} {h : Handler} {w : World} {t : List Exchange}
  {o : Outcome Value}

theorem openRun_of_start {state : Value} {u : World} (start : h.start call w = .value state u) :
    openRun call h w = .value state (h.opened u) := by
  rw [openRun, Action.bind_of_value start]
  rfl

theorem closeRun_apply (d : Drive) (w : World) :
    closeRun call h d w
      = (h.finish call d.state >>= fun output => pure (.result d.value output)) (d.closed w) := rfl

/-- The run of a chain whose declaration is provided. -/
theorem run_apply_of_provided (hc : ∀ a, a ∈ c.requires → a ∈ h.capabilities) :
    run s call c h w = (openRun call h >>= fun state =>
      drive s (h.offer call) s.maxSteps 0 state (.chain c) >>= closeRun call h) w := by
  rw [run, runBy, checkProvided_of_subset hc]
  rfl

/-- The run once the handler has started. -/
theorem run_of_start {state : Value} {u : World}
    (hc : ∀ a, a ∈ c.requires → a ∈ h.capabilities) (start : h.start call w = .value state u) :
    run s call c h w = (drive s (h.offer call) s.maxSteps 0 state (.chain c) >>=
      closeRun call h) (h.opened u) := by
  rw [run_apply_of_provided hc, Action.bind_of_value (openRun_of_start start)]

/-- A run comes to what its dialogue says. -/
theorem Dialogue.run_eq (hd : Dialogue s call c h w t o) : run s call c h w = o := by
  cases hd with
  | refused required missing =>
    rw [run, runBy, checkProvided_of_missing required missing]
    rfl
  | notStarted provided start =>
    rw [run_apply_of_provided provided, openRun, Action.bind_assoc, Action.bind_apply]
    generalize h.start call w = o' at start
    cases start <;> rfl
  | @halted state u xs ys p d o provided start steps halt lost =>
    have hdrive : drive s (h.offer call) s.maxSteps 0 state (.chain c) (h.opened u) = d :=
      steps.drive_eq.trans halt.drive_eq
    rw [run_of_start provided start, Action.bind_apply, hdrive]
    cases lost <;> rfl
  | @finished state u u' xs p d o provided start steps halt finish =>
    have hdrive : drive s (h.offer call) s.maxSteps 0 state (.chain c) (h.opened u) = .value d u' :=
      steps.drive_eq.trans halt.drive_eq
    rw [run_of_start provided start, Action.bind_of_value hdrive, closeRun_apply, Action.bind_apply]
    generalize h.finish call d.state (d.closed u') = o' at finish
    cases finish with
    | value output w => rfl
    | lost hlost => cases hlost <;> rfl

/-- Steps that were handled are the beginning of a dialogue. -/
theorem Advances.exists_dialogue {state : Value} {u : World} {xs : List Exchange} {p : Standing}
    (provided : ∀ a, a ∈ c.requires → a ∈ h.capabilities)
    (start : h.start call w = .value state u)
    (hsteps : Advances s (h.offer call) ⟨0, state, .chain c, h.opened u⟩ xs p) :
    ∃ ys o, Dialogue s call c h w (⟨.start, w, .value state u⟩ :: (xs ++ ys)) o := by
  obtain ⟨xs', q, ys, d, hrest, halt⟩ := exists_halts s (h.offer call) p
  have steps := hsteps.append hrest
  have hhalted {o : Outcome Value} (hlost : d.Lost o) :
      ∃ zs o, Dialogue s call c h w (⟨.start, w, .value state u⟩ :: (xs ++ zs)) o := by
    refine ⟨xs' ++ ys, o, ?_⟩
    rw [← List.append_assoc]
    exact .halted provided start steps halt hlost
  cases d with
  | failed f u' => exact hhalted (.failed f u')
  | exhausted => exact hhalted .exhausted
  | value d u' =>
    obtain ⟨rfl, -⟩ := halt.of_value
    have hfinished {o : Outcome Value} := @Dialogue.finished s call c h w state u u' (xs ++ xs') q d
      o provided start steps halt
    refine ⟨xs' ++ [⟨.finish d.state, d.closed u', h.finish call d.state (d.closed u')⟩], ?_⟩
    rw [← List.append_assoc]
    cases hfinish : h.finish call d.state (d.closed u') with
    | value output v =>
      exact ⟨_, hfinish ▸ hfinished (by rw [hfinish]; exact .value output v)⟩
    | failed f v => exact ⟨_, hfinish ▸ hfinished (by rw [hfinish]; exact .lost (.failed f v))⟩
    | exhausted => exact ⟨_, hfinish ▸ hfinished (by rw [hfinish]; exact .lost .exhausted)⟩

/-- A dialogue is held with every handler that provides what is declared. -/
theorem exists_dialogue_of_provided (s : Settings) (call : Call) (w : World)
    (provided : ∀ a, a ∈ c.requires → a ∈ h.capabilities) : ∃ t o, Dialogue s call c h w t o := by
  cases hstart : h.start call w with
  | failed f u => exact ⟨_, _, .notStarted provided (by rw [hstart]; exact .failed f u)⟩
  | exhausted => exact ⟨_, _, .notStarted provided (by rw [hstart]; exact .exhausted)⟩
  | value state u =>
    obtain ⟨ys, o, hd⟩ := (Advances.nil _).exists_dialogue (s := s) provided hstart
    exact ⟨_, o, hd⟩

/-- Whatever a handler does, there is a dialogue. -/
theorem exists_dialogue (s : Settings) (call : Call) (c : Chain) (h : Handler) (w : World) :
    ∃ t o, Dialogue s call c h w t o := by
  by_cases provided : ∀ a, a ∈ c.requires → a ∈ h.capabilities
  · exact exists_dialogue_of_provided s call w provided
  · obtain ⟨a, hmissing⟩ := Classical.not_forall.mp provided
    obtain ⟨required, missing⟩ := Classical.not_imp.mp hmissing
    exact ⟨_, _, .refused required missing⟩

/-- There is no value on the one side where there is one on the other. -/
theorem Outcome.Lost.not_value {α β : Type} {x : Outcome α} {a : α} {u : World} {o : Outcome β}
    (hx : x = .value a u) : ¬ x.Lost o := by
  rw [hx]
  exact nofun

/-- There is one dialogue in a world. -/
theorem Dialogue.unique {t' : List Exchange} {o' : Outcome Value} (hd : Dialogue s call c h w t o)
    (hd' : Dialogue s call c h w t' o') : t = t' := by
  cases hd with
  | refused required missing =>
    cases hd' with
    | refused => rfl
    | notStarted provided => exact absurd (provided _ required) missing
    | halted provided => exact absurd (provided _ required) missing
    | finished provided => exact absurd (provided _ required) missing
  | notStarted provided start =>
    cases hd' with
    | refused required missing => exact absurd (provided _ required) missing
    | notStarted => rfl
    | halted _ start' => exact absurd start (Outcome.Lost.not_value start')
    | finished _ start' => exact absurd start (Outcome.Lost.not_value start')
  | halted provided start steps halt lost =>
    cases hd' with
    | refused required missing => exact absurd (provided _ required) missing
    | notStarted _ start' => exact absurd start' (Outcome.Lost.not_value start)
    | halted _ start' steps' halt' lost' =>
      cases start.symm.trans start'
      obtain ⟨rfl, rfl⟩ := steps.unique halt steps' halt'
      rw [halt.unique halt']
    | finished _ start' steps' halt' finish' =>
      cases start.symm.trans start'
      obtain ⟨rfl, rfl⟩ := steps.unique halt steps' halt'
      exact absurd lost (Outcome.Lost.not_value (halt.drive_eq.symm.trans halt'.drive_eq))
  | finished provided start steps halt finish =>
    cases hd' with
    | refused required missing => exact absurd (provided _ required) missing
    | notStarted _ start' => exact absurd start' (Outcome.Lost.not_value start)
    | halted _ start' steps' halt' lost' =>
      cases start.symm.trans start'
      obtain ⟨rfl, rfl⟩ := steps.unique halt steps' halt'
      exact absurd lost' (Outcome.Lost.not_value (halt'.drive_eq.symm.trans halt.drive_eq))
    | finished _ start' steps' halt' finish' =>
      cases start.symm.trans start'
      obtain ⟨rfl, rfl⟩ := steps.unique halt steps' halt'
      cases halt.drive_eq.symm.trans halt'.drive_eq
      rfl

end

/-! ### How far a run has come -/

/-- A run that is begun in a world has made some steps and stands somewhere. -/
def RunReaches (s : Settings) (call : Call) (c : Chain) (h : Handler) (w : World)
    (xs : List Exchange) (q : Standing) : Prop :=
  ∃ state u, h.start call w = .value state u ∧
    Advances s (h.offer call) ⟨0, state, .chain c, h.opened u⟩ xs q

/-- A run that succeeds has come to a finished chain, and then its handler has finished. -/
theorem run_value_reaches {s : Settings} {call : Call} {c : Chain} {h : Handler} {w w' : World}
    {v : Value} (hrun : run s call c h w = .value v w') :
    ∃ (xs : List Exchange) (d : Drive) (r : CapabilitySet) (u : World) (output : Value),
      RunReaches s call c h w xs ⟨d.steps, d.state, .chain (.done d.value r), u⟩ ∧
      h.finish call d.state (d.closed u) = .value output w' ∧ v = .result d.value output := by
  obtain ⟨t, o, hd⟩ := exists_dialogue s call c h w
  cases hd.run_eq.symm.trans hrun
  cases hd with
  | notStarted provided start =>
    generalize h.start call w = x at start
    cases start
  | halted provided start steps halt lost => cases lost
  | @finished state u u' xs p d o provided start steps halt finish =>
    obtain ⟨-, r, rfl⟩ := halt.of_value
    generalize hfinish : h.finish call d.state (d.closed u') = x at finish
    cases finish with
    | value output z => exact ⟨xs, d, r, u', output, ⟨state, u, start, steps⟩, hfinish, rfl⟩
    | lost hlost => cases hlost

/-! ### The order of the questions -/

/-- From what is asked first, every answer leads to what is asked next, up to what is left to
ask. -/
inductive Follows (c : Chain) : Option Question → List Exchange → Option Question → Prop
  | nil (a : Option Question) : Follows c a [] a
  | cons {x : Exchange} {xs : List Exchange} {b : Option Question}
    (rest : Follows c (x.calls c) xs b) : Follows c (some x.asked) (x :: xs) b

/-- The step that was handled last in a run cannot be recorded, and this is what the run comes
to. -/
def Unrecorded (s : Settings) (t : List Exchange) (o : Outcome Value) : Prop :=
  ∃ xs state state' next e w u f,
    t = xs ++ [⟨.offer state e, w, .value (.handled state' next) u⟩] ∧ s.logSteps = true ∧
      e.recordText = .error f ∧ o = .failed (.noText f) u

/-- The questions of a run that was not refused.

* `follows`: a start is asked first, every answer leads to the next question, and at the end
  nothing is left to ask, unless the bound on the steps stops the run before another offer, or the
  last step cannot be recorded;
* `shape`: there is one start, and there is at most one finish, which is the last question;
* `finishes`: the handler is asked to finish if and only if an answer carries a finished chain and
  the step with that answer, if it was one, is recorded. -/
structure InOrder (s : Settings) (c : Chain) (t : List Exchange) (o : Outcome Value) : Prop where
  follows : ∃ b, Follows c (some .start) t b ∧ (b = none ∨
    (o = .exhausted ∧ t.length = s.maxSteps + 1 ∧ ∃ state e, b = some (.offer state e)) ∨
    Unrecorded s t o)
  shape : ∃ x xs ys, t = x :: (xs ++ ys) ∧ x.asked = .start ∧
    (∀ y ∈ xs, ∃ state e, y.asked = .offer state e) ∧
    (ys = [] ∨ ∃ y state, ys = [y] ∧ y.asked = .finish state)
  finishes : (∃ x ∈ t, ∃ state, x.asked = .finish state) ↔
    (∃ x ∈ t, ∃ state v r, x.carried c = some (state, .chain (.done v r))) ∧ ¬ Unrecorded s t o

section

variable {s : Settings} {offer : Offer} {call : Call} {c : Chain} {h : Handler} {w : World}
  {p q : Standing} {xs ys : List Exchange} {a b : Option Question}

/-- What is asked where a drive stands. -/
def Standing.question (p : Standing) : Option Question := Question.about p.state p.next

theorem Follows.append {d : Option Question} (h : Follows c a xs b) (h' : Follows c b ys d) :
    Follows c a (xs ++ ys) d := by
  induction h with
  | nil => exact h'
  | cons rest ih => exact .cons (ih h')

/-- What is asked, or left to ask, is what is asked first or what an answer leads to. -/
theorem Follows.asked_iff (h : Follows c a xs b) (k : Question) :
    ((∃ x ∈ xs, x.asked = k) ∨ b = some k) ↔ a = some k ∨ ∃ x ∈ xs, x.calls c = some k := by
  induction h with
  | nil a => simp
  | @cons x xs b rest ih =>
    simp only [List.mem_cons, exists_eq_or_imp, or_assoc, ih, Option.some.injEq]

theorem Question.about_eq_finish {state next state' : Value}
    (h : Question.about state next = some (.finish state')) :
    ∃ v r, next = .chain (.done v r) := by
  unfold Question.about at h
  split at h
  · cases h
  · exact ⟨_, _, rfl⟩
  · cases h

/-- An answer leads to a finish exactly if it carries a finished chain. -/
theorem Exchange.calls_finish_iff {x : Exchange} :
    (∃ state, x.calls c = some (.finish state)) ↔
      ∃ state v r, x.carried c = some (state, .chain (.done v r)) := by
  constructor
  · rintro ⟨state', hx⟩
    obtain ⟨⟨state, next⟩, hcarried, habout⟩ := Option.bind_eq_some_iff.mp hx
    obtain ⟨v, r, rfl⟩ := Question.about_eq_finish habout
    exact ⟨state, v, r, hcarried⟩
  · rintro ⟨state, v, r, hx⟩
    exact ⟨state, by rw [Exchange.calls, hx]; rfl⟩

/-- The handled steps are asked for one after the other. -/
theorem Advances.follows (c : Chain) (h : Advances s offer p xs q) :
    Follows c p.question xs q.question := by
  induction h with
  | nil p => exact .nil _
  | @cons n state state' next e r w w' u xs q within handled recorded rest ih =>
    exact .cons (x := ⟨.offer state e, w, .value (.handled state' next) w'⟩) ih

theorem Advances.steps_eq (h : Advances s offer p xs q) : q.steps = p.steps + xs.length := by
  induction h with
  | nil p => rfl
  | @cons n state state' next e r w w' u xs q within handled recorded rest ih =>
    have hsteps : q.steps = n + 1 + xs.length := ih
    rw [hsteps, List.length_cons, Nat.add_right_comm, Nat.add_assoc]

theorem Advances.offers (h : Advances s offer p xs q) :
    ∀ x ∈ xs, ∃ state e, x.asked = .offer state e := by
  induction h with
  | nil p => exact List.forall_mem_nil _
  | cons within handled recorded rest ih =>
    exact List.forall_mem_cons.mpr ⟨⟨_, _, rfl⟩, ih⟩

theorem Advances.within (h : Advances s offer p xs q) (hp : p.steps ≤ s.maxSteps) :
    q.steps ≤ s.maxSteps := by
  induction h with
  | nil p => exact hp
  | cons within handled recorded rest ih => exact ih within

theorem Question.about_of_not_chain {state next : Value} (hnext : ∀ c, next ≠ .chain c) :
    Question.about state next = none := by
  unfold Question.about
  split
  · exact absurd rfl (hnext _)
  · exact absurd rfl (hnext _)
  · rfl

/-- An effect that was declined carries nothing. -/
theorem Exchange.carried_of_declined {state v : Value} {e : Effect} {u : World}
    (hv : ∀ state' next, v ≠ .handled state' next) :
    Exchange.carried c ⟨.offer state e, w, .value v u⟩ = none := by
  cases v <;> first | rfl | exact absurd rfl (hv _ _)

/-- A call that gave no value carries nothing. -/
theorem Exchange.carried_of_lost {β : Type} {k : Question} {x : Outcome Value} {o : Outcome β}
    (hx : x.Lost o) : Exchange.carried c ⟨k, w, x⟩ = none := by
  cases hx <;> cases k <;> rfl

/-- A finish carries nothing. -/
theorem Exchange.carried_of_finish {state : Value} {x : Outcome Value} :
    Exchange.carried c ⟨.finish state, w, x⟩ = none := by
  cases x <;> rfl

theorem Exchange.calls_of_carried {x : Exchange} (hx : x.carried c = none) :
    x.calls c = none := by
  rw [Exchange.calls, hx]
  rfl

/-- The last question of a drive. -/
theorem Follows.single {x : Exchange} (hx : x.carried c = none) :
    Follows c (some x.asked) [x] none := by
  refine .cons ?_
  rw [Exchange.calls_of_carried hx]
  exact .nil none

theorem Unrecorded.append {o : Outcome Value} (h : Unrecorded s ys o) (xs : List Exchange) :
    Unrecorded s (xs ++ ys) o := by
  obtain ⟨zs, state, state', next, e, w, u, f, rfl, hrest⟩ := h
  exact ⟨xs ++ zs, state, state', next, e, w, u, f, by rw [List.append_assoc], hrest⟩

/-- What is asked before a drive stops without a value, unless its bound stops it or a step that
cannot be recorded. -/
theorem Halts.follows {d : Outcome Drive} {o : Outcome Value} (c : Chain)
    (h : Halts s offer p ys d) (hd : d.Lost o) :
    Follows c p.question ys none ∨
      (o = .exhausted ∧ ys = [] ∧ s.maxSteps ≤ p.steps ∧
        ∃ state e, p.question = some (.offer state e)) ∨
      Unrecorded s ys o ∧ ∃ b, Follows c p.question ys b := by
  cases h with
  | finished => exact absurd hd (Outcome.Lost.not_value rfl)
  | notChain hnext =>
    refine .inl ?_
    rw [Standing.question, Question.about_of_not_chain hnext]
    exact .nil none
  | @declined n state v e r w w' u within answer hv
  | @unreported n state v e r w w' f within answer hv =>
    exact .inl (.single (x := ⟨.offer state e, w, .value v w'⟩)
      (Exchange.carried_of_declined hv))
  | @unrecorded n state state' next e r w w' f within handled recorded =>
    obtain ⟨hlog, htext⟩ := Settings.recorded_eq_error.mp recorded
    cases hd
    refine .inr (.inr ⟨⟨[], state, state', next, e, w, w', f, rfl, hlog, htext, rfl⟩, ?_⟩)
    exact ⟨_, .cons (x := ⟨.offer state e, w, .value (.handled state' next) w'⟩) (.nil _)⟩
  | @lost n state e r w d within answer =>
    exact .inl (.single (x := ⟨.offer state e, w, offer state e w⟩)
      (Exchange.carried_of_lost answer))
  | spent beyond =>
    cases hd
    exact .inr (.inl ⟨rfl, rfl, beyond, _, _, rfl⟩)

/-- A drive that stops without a value makes offers only. -/
theorem Halts.offers {o : Outcome Drive} (h : Halts s offer p ys o) :
    ∀ y ∈ ys, ∃ state e, y.asked = .offer state e := by
  cases h with
  | finished | notChain | spent => exact List.forall_mem_nil _
  | declined | unreported | unrecorded | lost =>
    exact List.forall_mem_singleton.mpr ⟨_, _, rfl⟩

/-- A dialogue that ends with a finish does not end with a step. -/
theorem Unrecorded.not_finish {t : List Exchange} {o : Outcome Value} (h : Unrecorded s t o)
    (hshape : ∃ x xs ys, t = x :: (xs ++ ys) ∧ x.asked = .start ∧
      (∀ y ∈ xs, ∃ state e, y.asked = .offer state e) ∧
      (ys = [] ∨ ∃ y state, ys = [y] ∧ y.asked = .finish state)) {x : Exchange} (hx : x ∈ t)
    (state : Value) : x.asked ≠ .finish state := by
  intro hasked
  obtain ⟨zs, k, k', next, e, w, u, f, ht, -⟩ := h
  obtain ⟨y, xs, ys, ht', hstart, hoffers, rfl | ⟨y', k'', rfl, hfinish⟩⟩ := hshape
  · rw [ht', List.append_nil] at hx
    rcases List.mem_cons.mp hx with rfl | hx
    · cases hstart.symm.trans hasked
    · obtain ⟨_, _, hoffer⟩ := hoffers x hx
      cases hoffer.symm.trans hasked
  · rw [ht, ← List.cons_append] at ht'
    obtain ⟨-, hlast⟩ := List.append_inj' ht' rfl
    obtain rfl := List.head_eq_of_cons_eq hlast
    cases hfinish

/-- A dialogue that follows the rules is in order. -/
theorem InOrder.of_follows {t : List Exchange} {o : Outcome Value}
    (hfollows : Follows c (some .start) t b)
    (hb : b = none ∨ (o = .exhausted ∧ t.length = s.maxSteps + 1 ∧
      ∃ state e, b = some (.offer state e)) ∨ Unrecorded s t o)
    (hshape : ∃ x xs ys, t = x :: (xs ++ ys) ∧ x.asked = .start ∧
      (∀ y ∈ xs, ∃ state e, y.asked = .offer state e) ∧
      (ys = [] ∨ ∃ y state, ys = [y] ∧ y.asked = .finish state)) : InOrder s c t o where
  follows := ⟨b, hfollows, hb⟩
  shape := hshape
  finishes := by
    have hasked (state : Value) : ((∃ x ∈ t, x.asked = .finish state) ∨ b = some (.finish state)) ↔
        ∃ x ∈ t, x.calls c = some (.finish state) := by
      have h := hfollows.asked_iff (.finish state)
      rwa [or_iff_right (a := some Question.start = some (.finish state)) (by nofun)] at h
    constructor
    · rintro ⟨x, hx, state, hfinish⟩
      obtain ⟨y, hy, hcalls⟩ := (hasked state).mp (.inl ⟨x, hx, hfinish⟩)
      exact ⟨⟨y, hy, Exchange.calls_finish_iff.mp ⟨state, hcalls⟩⟩,
        fun h => h.not_finish hshape hx state hfinish⟩
    · rintro ⟨⟨x, hx, hends⟩, hrecorded⟩
      obtain ⟨state, hcalls⟩ := Exchange.calls_finish_iff.mpr hends
      have hleft : b ≠ some (.finish state) := by
        obtain rfl | ⟨-, -, state', e, rfl⟩ | h := hb
        · nofun
        · nofun
        · exact absurd h hrecorded
      obtain ⟨y, hy, hfinish⟩ := ((hasked state).mpr ⟨x, hx, hcalls⟩).resolve_right hleft
      exact ⟨y, hy, state, hfinish⟩

/-- The questions of a dialogue with a handler that provides what is declared. -/
theorem Dialogue.inOrder {t : List Exchange} {o : Outcome Value} (hd : Dialogue s call c h w t o)
    (hc : ∀ a, a ∈ c.requires → a ∈ h.capabilities) : InOrder s c t o := by
  cases hd with
  | refused required missing => exact absurd (hc _ required) missing
  | notStarted provided start =>
    have hfollows : Follows c (some .start) [⟨.start, w, h.start call w⟩] none :=
      .single (x := ⟨.start, w, h.start call w⟩) (Exchange.carried_of_lost start)
    exact .of_follows hfollows (.inl rfl) ⟨_, [], [], rfl, rfl, List.forall_mem_nil _, .inl rfl⟩
  | @halted state u xs ys p d o provided start steps halt lost =>
    have hsteps := steps.follows c
    have hoffers : ∀ y ∈ xs ++ ys, ∃ state e, y.asked = .offer state e :=
      List.forall_mem_append.mpr ⟨steps.offers, halt.offers⟩
    have hshape : ∃ x xs' ys', (⟨.start, w, .value state u⟩ : Exchange) :: (xs ++ ys)
        = x :: (xs' ++ ys') ∧ x.asked = .start ∧
        (∀ y ∈ xs', ∃ state e, y.asked = .offer state e) ∧
        (ys' = [] ∨ ∃ y state, ys' = [y] ∧ y.asked = .finish state) :=
      ⟨_, xs ++ ys, [], by rw [List.append_nil], rfl, hoffers, .inl rfl⟩
    obtain hhalt | ⟨rfl, rfl, hbound, hask⟩ | ⟨hunrecorded, b, hhalt⟩ := halt.follows c lost
    · exact .of_follows (.cons (x := ⟨.start, w, .value state u⟩) (hsteps.append hhalt))
        (.inl rfl) hshape
    · have hlength : xs.length = s.maxSteps := by
        have := steps.steps_eq
        have := steps.within (Nat.zero_le _)
        simp only [Nat.zero_add] at *
        omega
      refine .of_follows (.cons (x := ⟨.start, w, .value state u⟩) (hsteps.append (.nil _)))
        (.inr (.inl ⟨rfl, ?_, hask⟩)) hshape
      rw [List.append_nil, List.length_cons, hlength]
    · exact .of_follows (.cons (x := ⟨.start, w, .value state u⟩) (hsteps.append hhalt))
        (.inr (.inr (hunrecorded.append (⟨.start, w, .value state u⟩ :: xs)))) hshape
  | @finished state u u' xs p d o provided start steps halt finish =>
    obtain ⟨-, r, rfl⟩ := halt.of_value
    refine .of_follows (.cons (x := ⟨.start, w, .value state u⟩) ((steps.follows c).append ?_))
      (.inl rfl) ⟨_, xs, _, rfl, rfl, steps.offers, .inr ⟨_, d.state, rfl, rfl⟩⟩
    exact .single (x := ⟨.finish d.state, d.closed u', h.finish call d.state (d.closed u')⟩)
      Exchange.carried_of_finish

/-- Nothing is offered in the run of a chain that is finished from the start. -/
theorem Dialogue.no_offer_of_done {v : Value} {r : CapabilitySet} {t : List Exchange}
    {o : Outcome Value} (hd : Dialogue s call (.done v r) h w t o) :
    ∀ x ∈ t, ∀ state e, x.asked ≠ .offer state e := by
  cases hd with
  | refused => exact List.forall_mem_nil _
  | notStarted provided start => simp
  | halted provided start steps halt lost =>
    cases steps
    cases halt with
    | finished => exact absurd lost (Outcome.Lost.not_value rfl)
    | notChain hnext => exact absurd rfl (hnext _)
  | finished provided start steps halt finish =>
    cases steps
    simp

end

/-- **The protocol of a run.**  Whatever a handler does, there is one dialogue with it, and a run
comes to what that dialogue says.  Nothing is asked of a handler that lacks a capability which the
chain requires, and the run fails with exactly the capabilities that it lacks; else the questions
are in order.  A chain that is finished from the start has nothing offered.

An effect that nobody takes is refused if it can be shown, and else the run fails because it cannot
(`Halts.declined`, `Halts.unreported`). -/
theorem run_protocol (s : Settings) (call : Call) (c : Chain) (h : Handler) (w : World) :
    ∃ t, Dialogue s call c h w t (run s call c h w) ∧
      (∀ t' o, Dialogue s call c h w t' o → t' = t ∧ o = run s call c h w) ∧
      ((∃ a, a ∈ c.requires ∧ ¬ a ∈ h.capabilities) → t = [] ∧
        ∃ missing : CapabilitySet, (∀ a, a ∈ missing ↔ a ∈ c.requires ∧ ¬ a ∈ h.capabilities) ∧
          run s call c h = Action.fail (.refused (.missingCapability missing))) ∧
      ((∀ a, a ∈ c.requires → a ∈ h.capabilities) →
        InOrder s c t (run s call c h w)) ∧
      ∀ v r, c = .done v r → ∀ x ∈ t, ∀ state e, x.asked ≠ .offer state e := by
  obtain ⟨t, o, ht⟩ := exists_dialogue s call c h w
  obtain rfl := ht.run_eq
  refine ⟨t, ht, fun t' o ht' => ⟨ht'.unique ht, ht'.run_eq.symm⟩, ?_, ht.inOrder,
    fun v r hc => Dialogue.no_offer_of_done (hc ▸ ht)⟩
  rintro ⟨a, required, missing⟩
  refine ⟨ht.unique (.refused required missing), c.requires \ h.capabilities,
    fun _ => CapabilitySet.mem_diff, ?_⟩
  rw [run, runBy, checkProvided_of_missing required missing, Action.fail_bind]

/-- A request that cannot be shown: it would store a handler whose keys have no order. -/
def unsorted : Effect :=
  (Effect.of (.put (.text "k")
    (.handler (.store 1 [(.int 1, .int 0), (.text "a", .int 0)])))).map .lift

/-- A chain that makes a log entry and goes on with a request that it does not declare. -/
def entryThenUnsorted : Chain :=
  .suspended (((Effect.of (.log (.text "x"))).map .lift).map
    (.bind (.always (.suspended unsorted (.single ⟨"state"⟩))))) (.single ⟨"log"⟩)

/-- Nobody takes the request, and the run does not fail with its refusal. -/
theorem run_protocol_unsorted :
    let s : Settings := ⟨false, 2⟩
    let call : Call := fun _ _ => Action.exhaust
    let h : Handler := .collector 0
    ∃ xs state z u,
      Dialogue s call entryThenUnsorted h (.initial "")
        (xs ++ [⟨.offer state unsorted, z, .value .declined u⟩])
        (run s call entryThenUnsorted h (.initial "")) ∧
      run s call entryThenUnsorted h (.initial "")
        = .failed (.noText (.notOrdered "str" "int")) u ∧
      (Failure.noText (.notOrdered "str" "int")).className = "TypeError" := by
  intro s call h
  have hnext (w : World) : (h.offer call .null (((Effect.of (.log (.text "x"))).map .lift).map
        (.bind (.always (.suspended unsorted (.single ⟨"state"⟩)))))) w
      = .value (.handled (.tuple [.text "x", .null])
        (.chain (.suspended unsorted (.single ⟨"state"⟩)))) w := by
    show (Effect.resume call _ _ >>= _ >>= _) w = _
    rw [Effect.resume_map, Effect.resume_map, Effect.resume_of]
    rfl
  have hsteps : Advances s (h.offer call)
      ⟨0, .null, .chain entryThenUnsorted, h.opened (.initial "")⟩ [_]
      ⟨1, .tuple [.text "x", .null], .chain (.suspended unsorted (.single ⟨"state"⟩)),
        h.opened (.initial "")⟩ := .cons (by decide) (hnext _) rfl (.nil _)
  have hdeclined : h.offer call (.tuple [.text "x", .null]) unsorted (h.opened (.initial ""))
      = .value .declined (h.opened (.initial "")) := rfl
  have hd : Dialogue s call entryThenUnsorted h _ _ _ := .halted (fun _ h => h) rfl hsteps
    (.unreported (by decide) hdeclined nofun rfl) (.failed _ _)
  rw [hd.run_eq]
  exact ⟨[_, _], _, _, _, hd, rfl, rfl⟩

end EffectHandlers
