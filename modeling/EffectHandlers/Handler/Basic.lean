/-
EffectHandlers/Handler/Basic.lean

What a handler does.

A handler declares capabilities, makes a fresh state for every run
(`start`), is offered effects one at a time (`offer`), and turns its last
state into its result (`finish`).  An offer is either declined or handled,
with a new state and the next chain.

A simple handler interprets one kind of request; the test of the kind is
made here once.  A pair offers an effect to its first handler and, if that
one declines, to its second; only the part of the state that belongs to the
handler that took the effect changes.  A recorder notes every call before
it passes it on.  A custom handler replaces methods of its base by
functions.
-/
import EffectHandlers.Handler.Entries
import EffectHandlers.Handler.Terminal
import EffectHandlers.Handler.Store

namespace EffectHandlers

/-! ### Bases of custom handlers -/

/-- The kind of request that a base interprets. -/
def HandlerBase.kind? : HandlerBase → Option Kind
  | .plain | .simple => none
  | .collector => some .log
  | .transcript => some .console
  | .store => some .state

/-- The capabilities that a base declares. -/
def HandlerBase.capabilities (b : HandlerBase) : CapabilitySet :=
  match b.kind? with
  | some k => CapabilitySet.ofList k.capability?.toList
  | none => ∅

/-- Whether a base tests the kind of requests itself. -/
def HandlerBase.testsKind : HandlerBase → Bool
  | .plain => false
  | .simple | .collector | .transcript | .store => true

/-- The fresh state of a base. -/
def HandlerBase.start : HandlerBase → Action Value
  | .plain | .simple => Action.fail (.misuse "start")
  | .collector => pure .null
  | .transcript => pure (Handler.transcriptStart [])
  | .store => pure (.frozen [])

/-- One step of a base, on a request of its kind. -/
def HandlerBase.step (call : Call) : HandlerBase → Value → Effect → Action (Value × Value)
  | .plain, _, _ | .simple, _, _ => Action.fail (.misuse "step")
  | .collector, s, e => Handler.collectorStep call s e
  | .transcript, s, e => Handler.transcriptStep call 0 s e
  | .store, s, e => Handler.storeStep call s e

/-- The result of a base. -/
def HandlerBase.finish : HandlerBase → Value → Action Value
  | .plain, _ | .simple, _ => Action.fail (.misuse "finish")
  | .collector, s => Handler.collectorFinish s
  | .transcript, s => Handler.transcriptFinish s
  | .store, s => pure s

namespace Handler

/-! ### Capabilities -/

/-- The capabilities that a handler declares. -/
def capabilities : Handler → CapabilitySet
  | .collector _ | .emitter _ _ _ => .single ⟨"log"⟩
  | .transcript _ _ | .stream _ _ => .single ⟨"console"⟩
  | .store _ _ => .single ⟨"state"⟩
  | .counter _ => .single ⟨"counter"⟩
  | .recorder _ _ inner => inner.capabilities
  | .pair _ first second => first.capabilities ∪ second.capabilities
  | .custom _ m => m.capabilities
termination_by structural h => h

/-! ### Offers -/

/-- The outcome of a step: handled, with the new state and the next chain. -/
def taken (r : Value × Value) : Value := .handled r.1 r.2

/-- Offer an effect to a step that interprets one kind of request. -/
def whenKind (kind : Kind) (e : Effect) (step : Action (Value × Value)) : Action Value :=
  if e.request.isA kind then do return taken (← step) else pure .declined

/-- Note a call in a journal. -/
def record (journal : Nat) (name : String) (v : Value) : Action Unit :=
  Action.change fun w =>
    { w with journals := w.journals.modify journal (.tuple [.text name, v] :: ·) }

/-- One step of a custom handler: its own, or that of its base. -/
def customStep (call : Call) (m : CustomMethods) (state : Value) (e : Effect) :
    Action (Value × Value) :=
  match m.step with
  | some f => do Action.ofExcept (← call.value f [state, .effect e]).unpackTwo
  | none => m.base.step call state e

/-- Offer an effect to a custom handler. -/
def customOffer (call : Call) (m : CustomMethods) (state : Value) (e : Effect) :
    Action Value :=
  match m.offer with
  | some f => call.value f [state, .effect e]
  | none =>
    if m.base.testsKind then
      -- The kind of the handler itself comes before that of its base.
      match m.kind <|> m.base.kind? with
      | some k => whenKind k e (customStep call m state e)
      | none => Action.fail (.noMember m.name "effect_type")
    else Action.fail (.misuse "try_step")

/-! ### The three methods -/

/-- A fresh state for one run. -/
def start (call : Call) : Handler → Action Value
  | .collector _ => pure .null
  | .emitter _ _ _ => pure (.int 0)
  | .transcript _ lines => pure (transcriptStart lines)
  | .stream _ _ => pure (.int 0)
  | .store _ initial => pure (.frozen initial)
  | .counter _ => pure (.int 0)
  | .recorder _ journal inner => do
    record journal "start" .null
    start call inner
  | .pair _ first second => do
    let s ← start call first
    let t ← start call second
    return .tuple [s, t]
  | .custom _ m =>
    match m.start with
    | some f => call.value f []
    | none => m.base.start
termination_by structural h => h

/-- Offer an effect to a handler in a state. -/
def offer (call : Call) : Handler → Value → Effect → Action Value
  | .collector _, s, e => whenKind .log e (collectorStep call s e)
  | .emitter _ level component, s, e =>
    whenKind .log e (emitterStep call level component s e)
  | .transcript _ lines, s, e => whenKind .console e (transcriptStep call lines.length s e)
  | .stream _ source, s, e => whenKind .console e (streamStep call source s e)
  | .store _ _, s, e => whenKind .state e (storeStep call s e)
  | .counter _, s, e => whenKind .tick e (counterStep call s e)
  | .recorder _ journal inner, s, e => do
    record journal "try_step" (.effect e)
    offer call inner s e
  | .pair _ first second, state, e => do
    let (s, t) ← Action.ofExcept state.unpackTwo
    -- Only the slot of the handler that takes the effect changes.
    match ← offer call first s e with
    | .handled s next => return .handled (.tuple [s, t]) next
    | _ =>
      match ← offer call second t e with
      | .handled t next => return .handled (.tuple [s, t]) next
      | _ => return .declined
  | .custom _ m, s, e => customOffer call m s e
termination_by structural h => h

/-- The result that a handler makes of its last state. -/
def finish (call : Call) : Handler → Value → Action Value
  | .collector _, s => collectorFinish s
  | .emitter _ _ _, s => pure s
  | .transcript _ _, s => transcriptFinish s
  | .stream _ _, s => pure s
  | .store _ _, s => pure s
  | .counter _, s => pure s
  | .recorder _ journal inner, s => do
    record journal "finish" s
    finish call inner s
  | .pair _ first second, state => do
    let (s, t) ← Action.ofExcept state.unpackTwo
    let a ← finish call first s
    let b ← finish call second t
    return .tuple [a, b]
  | .custom _ m, s =>
    match m.finish with
    | some f => call.value f [s]
    | none => m.base.finish s
termination_by structural h => h

end Handler

end EffectHandlers
