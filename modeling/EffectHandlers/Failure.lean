/-
EffectHandlers/Failure.lean

Why a computation fails.

A failure is a cause: what was found where something else was asked for.
Its class and its wording are functions of the cause (`Failure.className`,
`Failure.message`) and nothing else depends on them.  Types are named as
in `Value.typeName`.
-/
import EffectHandlers.Value.Text
import EffectHandlers.Text.Template

namespace EffectHandlers

/-- A cause of failure. -/
inductive Failure
  /- Raised by a program, and refusals. -/
  | raised (kind : RaisedClass) (message : Value)
  | refused (r : Refusal)
  /- Misuse of the scripting language. -/
  | unbound (name : String)
  | arity
  | misuse (operation : String)
  /- Something that is not what the library asks for. -/
  | notCallable (role found : String)
  | notChainResult (role found : String)
  | notChain (operation found : String)
  | notEffect (found : String)
  | notHandler (found : String)
  | noHandlers
  | notCapability (found : String)
  | notYieldable (found : String)
  | notChainStep (found : String)
  | unknownConsoleRequest (found : String)
  | unknownStateRequest (found : String)
  /- Something that a value does not offer. -/
  | noMember (found name : String)
  | noKindMember (kind name : String)
  | notInvocable (found : String)
  | notIterable (found : String)
  | notUnpackable (found : String)
  | notReversible (found : String)
  | tooFewItems (count : Nat)
  | tooManyItems
  | notKey (found : String)
  | noLength (found : String)
  | notIndexable (found : String)
  | notItemIndex (found index : String)
  | outOfRange (found : String)
  | notInteger (found : String)
  | notReplaceable
  | missingKey (key : Value)
  | noSum (left right : String)
  | noConcatenation (left right : String)
  /- Levels of log entries. -/
  | unknownLevel (name : String)
  | negativeLevel (n : Int)
  | invalidLevel (found : String)
  /- Routines. -/
  | replayEndedEarly
  | stopInRoutine
  | routineRunning
  | routineNotStarted
  | noLiveRoutine
  /- Templates. -/
  | template (f : Text.TemplateFault)
  | fieldName (f : Text.NameFault)
  | layout (f : Text.SpecFault) (found : String)
  | noLayout (found : String)
  | unknownConversion (c : Char)
  | templateTooDeep
  | positionOutOfRange (n : Nat)
  | repeatedArgument (name : String)
  | namesNotText
  /- Values that cannot be shown. -/
  | noText (f : TextFault)

namespace RaisedClass

/-- The name of a class. -/
def name : RaisedClass → String
  | .value => "ValueError"
  | .runtime => "RuntimeError"
  | .system => "OSError"
  | .key => "KeyError"
  | .endOfInput => "EOFError"
  | .stop => "StopIteration"

end RaisedClass

namespace Failure

/-- The class of a failure. -/
def className : Failure → String
  | .raised k _ => k.name
  | .refused r => r.typeName
  | .unbound _ | .arity | .misuse _ => "ExprError"
  | .noMember _ _ | .noKindMember _ _ => "AttributeError"
  | .noHandlers | .tooFewItems _ | .tooManyItems | .unknownLevel _ | .negativeLevel _
  | .routineRunning | .template _ | .fieldName _ | .unknownConversion _
  | .templateTooDeep => "ValueError"
  | .outOfRange _ | .positionOutOfRange _ => "IndexError"
  | .missingKey _ => "KeyError"
  | .replayEndedEarly | .stopInRoutine => "RuntimeError"
  | .noLiveRoutine => "AssertionError"
  | .layout .charRange _ | .layout .charTooLarge _ => "OverflowError"
  | .layout _ _ | .noText .tooLong => "ValueError"
  | .notCallable _ _ | .notChainResult _ _ | .notChain _ _ | .notEffect _ | .notHandler _
  | .notCapability _ | .notYieldable _ | .notChainStep _ | .unknownConsoleRequest _
  | .unknownStateRequest _ | .notInvocable _ | .notIterable _ | .notUnpackable _
  | .notReversible _ | .notKey _
  | .noLength _ | .notIndexable _ | .notItemIndex _ _ | .notInteger _ | .routineNotStarted
  | .noSum _ _
  | .noConcatenation _ _ | .invalidLevel _ | .noLayout _ | .repeatedArgument _
  | .namesNotText | .notReplaceable | .noText (.notOrdered _ _) => "TypeError"

/-- The wording of a failure. -/
def message : Failure → String
  | .raised .key v => orUnprintable v.form
  | .raised _ v => orUnprintable v.shown
  | .refused r => r.message
  | .unbound n => "unbound " ++ n
  | .arity => "arity"
  | .misuse o => o
  | .notCallable role t => role ++ " must be callable, got " ++ t
  | .notChainResult role t => role ++ " must return an EffectChain; got " ++ t
  | .notChain o t => o ++ " expects an EffectChain, got " ++ t
  | .notEffect t => "perform expects an Effect, got " ++ t
  | .notHandler t => "combine expects Handler instances, got " ++ t
  | .noHandlers => "combine requires at least one handler"
  | .notCapability t => "requires expects Capability tags, got " ++ t
  | .notYieldable t => "@do functions may only yield Effects or EffectChains, got " ++ t
  | .notChainStep t => "Handler step produced a non-chain value: " ++ t
  | .unknownConsoleRequest t => "Unknown console request: " ++ t
  | .unknownStateRequest t => "Unknown state request: " ++ t
  | .noMember t a => "'" ++ t ++ "' object has no attribute '" ++ a ++ "'"
  | .noKindMember k a => "type object '" ++ k ++ "' has no attribute '" ++ a ++ "'"
  | .notInvocable t => "'" ++ t ++ "' object is not callable"
  | .notIterable t => "'" ++ t ++ "' object is not iterable"
  | .notUnpackable t => "cannot unpack non-iterable " ++ t ++ " object"
  | .notReversible t => "'" ++ t ++ "' object is not reversible"
  | .tooFewItems n => "not enough values to unpack (expected 2, got " ++ toString n ++ ")"
  | .tooManyItems => "too many values to unpack (expected 2)"
  | .notKey t => "unhashable type: '" ++ t ++ "'"
  | .noLength t => "object of type '" ++ t ++ "' has no len()"
  | .notIndexable t => "'" ++ t ++ "' object is not subscriptable"
  | .notItemIndex "str" i => "string indices must be integers, not '" ++ i ++ "'"
  | .notItemIndex t i => t ++ " indices must be integers or slices, not " ++ i
  | .outOfRange "str" => "string index out of range"
  | .outOfRange t => t ++ " index out of range"
  | .notInteger t => "'" ++ t ++ "' object cannot be interpreted as an integer"
  | .notReplaceable => "replace() should be called on dataclass instances"
  | .missingKey k => orUnprintable k.form
  | .noSum a b => "unsupported operand type(s) for +: '" ++ a ++ "' and '" ++ b ++ "'"
  | .noConcatenation a b => "can only concatenate " ++ a ++ " (not \"" ++ b ++ "\") to " ++ a
  | .unknownLevel n => "Level '" ++ n ++ "' does not exist"
  | .negativeLevel n =>
    "Invalid level value, it should be a positive integer, not: " ++ toString n
  | .invalidLevel t =>
    "Invalid level, it should be an integer or a string, not: '" ++ t ++ "'"
  | .replayEndedEarly =>
    "Generator finished early while replaying recorded answers; "
      ++ "@do bodies must be deterministic given the answers they receive"
  | .stopInRoutine => "generator raised StopIteration"
  | .routineRunning => "generator already executing"
  | .routineNotStarted => "can't send non-None value to a just-started generator"
  | .noLiveRoutine => ""
  | .template f => f.message
  | .fieldName f => f.message
  | .layout f t => f.message t
  | .noLayout t => "unsupported format string passed to " ++ t ++ ".__format__"
  | .unknownConversion c =>
    "Unknown conversion specifier " ++
      (if 32 < c.toNat ∧ c.toNat < 127 then String.singleton c
        else "\\x" ++ String.ofList (Nat.toDigits 16 c.toNat))
  | .templateTooDeep => "Max string recursion exceeded"
  | .positionOutOfRange n =>
    "Replacement index " ++ toString n ++ " out of range for positional args tuple"
  | .namesNotText => "keywords must be strings"
  | .repeatedArgument n => "writef() got multiple values for argument '" ++ n ++ "'"
  | .noText (.notOrdered a b) =>
    "'<' not supported between instances of '" ++ a ++ "' and '" ++ b ++ "'"
  | .noText .tooLong => Text.tooLongMessage

end Failure

end EffectHandlers
