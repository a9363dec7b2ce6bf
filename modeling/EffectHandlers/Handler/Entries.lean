/-
EffectHandlers/Handler/Entries.lean

Handlers of log entries.

The collector keeps the entries in its state, newest first, as nested
pairs that end in null; its result is the list of entries, oldest first.
Every earlier state stays valid, because a step only puts a pair around it.

The emitter passes every entry on as an event and counts them.
Its level is one of the seven named levels or a number; it is looked at
when an entry is passed on, not before.
-/
import EffectHandlers.Pipeline
import EffectHandlers.Value.Items

namespace EffectHandlers.Handler

/-! ### Keeping entries -/

/-- The state of the collector after one more entry. -/
def addEntry (message log : Value) : Value := .tuple [message, log]

/-- One step of the collector. -/
def collectorStep (call : Call) (log : Value) (e : Effect) : Action (Value × Value) := do
  let message ← Action.ofExcept (e.request.member "message")
  return (addEntry message log, ← e.resume call .null)

/-- The entries in a state of the collector, newest first.  A state that is no nest of pairs is
a failure. -/
def entries : Value → Except Failure (List Value)
  | .null => .ok []
  | .tuple [message, log] => (entries log).map (message :: ·)
  | .list [message, log] => (entries log).map (message :: ·)
  | .result message log => (entries log).map (message :: ·)
  | .dict [(message, _), (log, _)] => (entries log).map (message :: ·)
  | .frozen [(message, _), (log, _)] => (entries log).map (message :: ·)
  | .text s =>
    match (Value.text s).unpackTwo with
    | .ok _ => .error (.tooFewItems 1)
    | .error f => .error f
  | other =>
    match other.unpackTwo with
    | .ok (_, log) => .error (.notUnpackable log.typeName)
    | .error f => .error f
termination_by structural v => v

/-- The result of the collector. -/
def collectorFinish (log : Value) : Action Value := do
  let newestFirst ← Action.ofExcept (entries log)
  return .list newestFirst.reverse

/-! ### Passing entries on -/

/-- The levels with names. -/
def levelNames : List String :=
  ["TRACE", "DEBUG", "INFO", "SUCCESS", "WARNING", "ERROR", "CRITICAL"]

/-- The level of an emitter that is given none. -/
def defaultLevel : Value := .text "INFO"

/-- The component of an emitter that is given none. -/
def defaultComponent : Value := .text "algeff.log"

/-- The name that a level is reported by. -/
def levelName (level : Value) : Except Failure String :=
  match level with
  | .text n => if levelNames.contains n then .ok n else .error (.unknownLevel n)
  | other =>
    match other.number? with
    | some n => do
      let digits ← (decimal n).mapError .noText
      if n < 0 then .error (.negativeLevel n) else .ok ("Level " ++ digits)
    | none => .error (.invalidLevel other.typeName)

/-- One step of the emitter; the state is the number of entries passed on. -/
def emitterStep (call : Call) (level component count : Value) (e : Effect) :
    Action (Value × Value) := do
  let message ← Action.ofExcept (e.request.member "message")
  let name ← Action.ofExcept (levelName level)
  let text ← Action.text message.shown
  Action.emit (.emitted name component text)
  let count ← Action.ofExcept (count.plus (.int 1))
  return (count, ← e.resume call .null)

end EffectHandlers.Handler
