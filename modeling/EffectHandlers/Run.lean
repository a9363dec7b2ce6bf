/-
EffectHandlers/Run.lean

Running a chain against a handler.

`run` checks that the handler provides what the chain declares, starts the
handler, drives the chain and finishes the handler.  `drive` is the loop: it
offers the effect of a suspended chain, goes on with the chain that is given
back, and stops at a finished chain.  An effect that nobody takes is a
failure.  The loop knows no more of a handler than how effects are offered
to it.

A step takes one unit of fuel and the loop is exhausted when there is none
left; it makes a diagnostic record of every step if the settings ask for
it.
-/
import EffectHandlers.Handler.Basic

namespace EffectHandlers

/-- How programs are executed: whether every step is recorded, and how many steps a loop may
take. -/
structure Settings where
  logSteps : Bool
  maxSteps : Nat

/-- The settings that an environment variable with a flag asks for.  A flag is set by the
words one, true and yes, whatever their case. -/
def isFlagSet (text : Option String) : Bool :=
  match text with
  | none => false
  | some s => ["1", "true", "yes"].contains (s.map Char.toLower)

/-- Fail unless a handler provides what a chain declares. -/
def checkProvided (c : Chain) (h : Handler) : Action Unit :=
  let missing := c.requires \ h.capabilities
  if missing.isEmpty then pure () else Action.fail (.refused (.missingCapability missing))

theorem checkProvided_of_subset {c : Chain} {h : Handler}
    (hc : ∀ a, a ∈ c.requires → a ∈ h.capabilities) : checkProvided c h = pure () := by
  have hempty : (c.requires \ h.capabilities).isEmpty = true := by
    rw [CapabilitySet.isEmpty_iff]
    intro a ha
    rw [CapabilitySet.mem_diff] at ha
    exact ha.2 (hc a ha.1)
  rw [checkProvided, if_pos hempty]

theorem checkProvided_of_missing {c : Chain} {h : Handler} {a : Capability} (ha : a ∈ c.requires)
    (hmissing : ¬ a ∈ h.capabilities) :
    checkProvided c h
      = Action.fail (.refused (.missingCapability (c.requires \ h.capabilities))) := by
  refine if_neg fun hempty => ?_
  exact CapabilitySet.isEmpty_iff.mp hempty a (CapabilitySet.mem_diff.mpr ⟨ha, hmissing⟩)

/-- Where a drive ended: the value of the chain, the state of the handler and the number of
steps. -/
structure Drive where
  value : Value
  state : Value
  steps : Nat

/-- The text of an effect in a diagnostic record, unless the effect cannot be shown. -/
def Effect.recordText (e : Effect) : Except TextFault String := (Value.effect e).truncated 120

/-- An effect is put into words before the record that names it is made. -/
def Effect.noted (e : Effect) : Action String := Action.text e.recordText

/-- Record a step, if the settings ask for it. -/
def Settings.noteStep (s : Settings) (step : Nat) (e : Effect) : Action Unit :=
  if s.logSteps then do
    Action.note .debug ("Step " ++ toString step ++ " handled " ++ (← e.noted))
  else pure ()

/-- Fail because nobody takes an effect, after a number of steps. -/
def failUnhandled {α : Type} (steps : Nat) (e : Effect) : Action α := do
  Action.note .error
    ("Unhandled effect after " ++ toString steps ++ " step(s): " ++ (← e.noted))
  Action.fail (.refused (.unhandledEffect e))

/-- A record shows nothing of the pipeline of an effect. -/
theorem Effect.recordText_congr {e e' : Effect} (h : e.request = e'.request) :
    e.recordText = e'.recordText := by
  obtain ⟨r, ss⟩ := e
  obtain ⟨r', ss'⟩ := e'
  obtain rfl : r = r' := h
  rfl

/-- Why a request cannot be shown in a record, if it cannot. -/
def Request.fault? (r : Request) : Option TextFault :=
  match (Effect.of r).recordText with
  | .ok _ => none
  | .error f => some f

theorem Effect.recordText_eq_error {e : Effect} {f : TextFault} :
    e.recordText = .error f ↔ e.request.fault? = some f := by
  have hof : e.recordText = (Effect.of e.request).recordText := Effect.recordText_congr rfl
  rw [hof, Request.fault?]
  cases (Effect.of e.request).recordText <;> simp

/-- Nothing is recorded of a step, or there is a record, or the effect cannot be shown. -/
theorem Settings.noteStep_cases (s : Settings) (step : Nat) (e : Effect) :
    s.noteStep step e = pure () ∨ (∃ text, s.noteStep step e = Action.note .debug text) ∨
      s.logSteps = true ∧ ∃ f, s.noteStep step e = Action.fail (.noText f) := by
  unfold Settings.noteStep Effect.noted
  split
  · rename_i hlog
    cases e.recordText with
    | ok text => exact .inr (.inl ⟨_, rfl⟩)
    | error f => exact .inr (.inr ⟨hlog, f, rfl⟩)
  · exact .inl rfl

theorem Settings.noteStep_congr (s : Settings) (step : Nat) {e e' : Effect}
    (h : e.request = e'.request) : s.noteStep step e = s.noteStep step e' := by
  unfold Settings.noteStep Effect.noted
  rw [Effect.recordText_congr h]

/-- An effect that nobody takes is recorded and refused, or it cannot be shown. -/
theorem failUnhandled_cases {α : Type} (steps : Nat) (e : Effect) :
    (∃ text, (failUnhandled steps e : Action α)
      = Action.note .error text >>= fun _ => Action.fail (.refused (.unhandledEffect e))) ∨
    ∃ f, (failUnhandled steps e : Action α) = Action.fail (.noText f) := by
  unfold failUnhandled Effect.noted
  cases e.recordText with
  | ok text => exact .inl ⟨_, rfl⟩
  | error f => exact .inr ⟨f, rfl⟩

/-- Nothing comes after an effect that nobody takes. -/
theorem failUnhandled_bind {α β : Type} (steps : Nat) (e : Effect) (f : α → Action β) :
    failUnhandled steps e >>= f = failUnhandled steps e := by
  unfold failUnhandled Effect.noted
  cases e.recordText <;> rfl

theorem failUnhandled_ne_value {α : Type} (steps : Nat) (e : Effect) (w : World) (a : α)
    (w' : World) : failUnhandled steps e w ≠ .value a w' := by
  obtain ⟨text, h⟩ | ⟨f, h⟩ := failUnhandled_cases (α := α) steps e
  · rw [h]
    exact nofun
  · rw [h]
    exact nofun

/-- How effects are offered: in a state, an effect is handled or declined. -/
abbrev Offer := Value → Effect → Action Value

/-- Drive a chain against an offer from a state, after a number of steps. -/
def drive (s : Settings) (offer : Offer) : Nat → Nat → Value → Value → Action Drive :=
  fun fuel steps state next =>
    match next with
    | .chain (.done v _) => pure ⟨v, state, steps⟩
    | .chain (.suspended e _) =>
      match fuel with
      | 0 => Action.exhaust
      | fuel + 1 => do
        match ← offer state e with
        | .handled state next =>
          s.noteStep (steps + 1) e
          drive s offer fuel (steps + 1) state next
        | _ => failUnhandled steps e
    | other => Action.fail (.notChainStep other.typeName)
termination_by structural fuel => fuel

theorem drive_done (s : Settings) (offer : Offer) (fuel steps : Nat) (state v : Value)
    (r : CapabilitySet) :
    drive s offer fuel steps state (.chain (.done v r)) = pure ⟨v, state, steps⟩ := by
  cases fuel <;> rfl

theorem drive_suspended (s : Settings) (offer : Offer) (fuel steps : Nat) (state : Value)
    (e : Effect) (r : CapabilitySet) :
    drive s offer (fuel + 1) steps state (.chain (.suspended e r)) = offer state e >>= fun v =>
      match v with
      | .handled state next =>
        s.noteStep (steps + 1) e >>= fun _ => drive s offer fuel (steps + 1) state next
      | _ => failUnhandled steps e := by
  rw [drive]

/-- What a chain declares makes no difference to a drive. -/
theorem drive_declare (s : Settings) (offer : Offer) (fuel steps : Nat) (state : Value)
    (c : Chain) (r : CapabilitySet) :
    drive s offer fuel steps state (.chain (c.declare r))
      = drive s offer fuel steps state (.chain c) := by
  cases c <;> cases fuel <;> rfl

/-- The state in which a handler begins a run. -/
def openRun (call : Call) (h : Handler) : Action Value := do
  let state ← h.start call
  Action.note .debug ("Run started with " ++ h.written)
  return state

/-- The result of a run whose drive has ended. -/
def closeRun (call : Call) (h : Handler) (d : Drive) : Action Value := do
  -- The record is made before the handler finishes, which may fail.
  Action.note .debug ("Run finished after " ++ toString d.steps ++ " step(s)")
  return .result d.value (← h.finish call d.state)

/-- Run a chain against a handler whose effects are offered in some way. -/
def runBy (s : Settings) (call : Call) (c : Chain) (h : Handler) (offer : Offer) :
    Action Value := do
  checkProvided c h
  let state ← openRun call h
  closeRun call h (← drive s offer s.maxSteps 0 state (.chain c))

/-- Run a chain against a handler. -/
def run (s : Settings) (call : Call) (c : Chain) (h : Handler) : Action Value :=
  runBy s call c h (h.offer call)

end EffectHandlers
