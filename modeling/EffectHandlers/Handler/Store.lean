/-
EffectHandlers/Handler/Store.lean

Handlers of keyed state and of the counter.

The state of the keyed handler is a frozen mapping.  Reading a key that is
absent gives null.  Modifying applies a function to the value that is read,
stores what it gives and answers with it.

The state of the counter is the total; a request adds its amount and is
answered with the new total.
-/
import EffectHandlers.Pipeline
import EffectHandlers.Value.Items

namespace EffectHandlers.Handler

/-! ### Keyed state -/

/-- A key, unless it cannot be one. -/
def checkKey (k : Value) : Except Failure Value :=
  match k.keyFault? with
  | some t => .error (.notKey t)
  | none => .ok k

/-- What a state holds under a key, null if nothing. -/
def readKey (state key : Value) : Except Failure Value :=
  match state with
  | .frozen m | .dict m => do
    let k ← checkKey key
    return (Mapping.lookup m k).getD .null
  | other => .error (.noMember other.typeName "get")

/-- The state with a value under a key. -/
def writeKey (state key v : Value) : Except Failure Value :=
  match state with
  | .frozen m => do
    let k ← checkKey key
    return .frozen (Mapping.set m k v)
  | other => .error (.noMember other.typeName "set")

/-- One step of the keyed handler. -/
def storeStep (call : Call) (state : Value) (e : Effect) : Action (Value × Value) :=
  match e.request with
  | .get k => do
    let v ← Action.ofExcept (readKey state k)
    return (state, ← e.resume call v)
  | .put k v => do
    let state ← Action.ofExcept (writeKey state k v)
    return (state, ← e.resume call .null)
  | .modify k f => do
    -- A bad key is found before the function is called.
    let old ← Action.ofExcept (readKey state k)
    let new ← call.value f [old]
    let state ← Action.ofExcept (writeKey state k new)
    return (state, ← e.resume call new)
  | other => Action.fail (.unknownStateRequest other.kind.name)

/-! ### The counter -/

/-- One step of the counter. -/
def counterStep (call : Call) (total : Value) (e : Effect) : Action (Value × Value) := do
  let amount ← Action.ofExcept (e.request.member "amount")
  let total ← Action.ofExcept (total.plus amount)
  return (total, ← e.resume call total)

end EffectHandlers.Handler
