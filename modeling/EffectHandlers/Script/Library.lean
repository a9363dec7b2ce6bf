/-
EffectHandlers/Script/Library.lean

The library as scripts see it.

Scripts hold values of any type, so every operation here first checks that
it was given what it is for: a function, a chain, an effect, a handler.
The checks come in the order in which the operation looks at its arguments;
then the operation itself is the one of `EffectHandlers.Chain`,
`EffectHandlers.Pipeline`, `EffectHandlers.Run` or the handlers.
-/
import EffectHandlers.Handler.Nest
import EffectHandlers.Run
import EffectHandlers.Script.Data
import EffectHandlers.Value.Template

namespace EffectHandlers

/-! ### Checks -/

/-- A value that has to be a function. -/
def Value.asFunction (role : String) : Value → Action Callable
  | .function f => pure f
  | other => Action.fail (.notCallable role other.typeName)

/-- A value that has to be a chain, for an operation. -/
def Value.asChain (operation : String) : Value → Action Chain
  | .chain c => pure c
  | other => Action.fail (.notChain operation other.typeName)

/-- A value that has to be an effect. -/
def Value.asEffect (operation : String) : Value → Action Effect
  | .effect e => pure e
  | _ => Action.fail (.misuse operation)

/-- A value that has to be a handler. -/
def Value.asHandler (operation : String) : Value → Action Handler
  | .handler h => pure h
  | _ => Action.fail (.misuse operation)

/-- A value whose declared capabilities are asked for. -/
def Value.asProvider : Value → Action Handler
  | .handler h => pure h
  | other => Action.fail (.noMember other.typeName "capabilities")

/-- A value whose declaration is added to.  A program has one, but only that of a chain can be
replaced. -/
def Value.asDeclaring : Value → Action Chain
  | .chain c => pure c
  | .function (.program _ _ _ _ _) => Action.fail .notReplaceable
  | other => Action.fail (.noMember other.typeName "requires")

/-- A value that has to be a text. -/
def Value.asText (operation : String) : Value → Action String
  | .text s => pure s
  | _ => Action.fail (.misuse operation)

/-- Values that have to be capabilities. -/
def capabilitiesOf (operation : String) : List Value → Action CapabilitySet
  | [] => pure ∅
  | .capability c :: vs => do return (← capabilitiesOf operation vs).insert c
  | _ :: _ => Action.fail (.misuse operation)

/-- Values that have to be chains, for a role. -/
def chainsOf (role : String) : List Value → Action (List Chain)
  | [] => pure []
  | v :: vs => do
    let c ← Chain.ofValue role v
    return c :: (← chainsOf role vs)

/-- Values that have to be handlers. -/
def handlersOf : List Value → Action (List Handler)
  | [] => pure []
  | .handler h :: vs => do return h :: (← handlersOf vs)
  | other :: _ => Action.fail (.notHandler other.typeName)

/-! ### Declared requirements of programs -/

/-- The first value of a list that cannot be a key, as a failure. -/
def checkKeys : List Value → Action Unit
  | [] => pure ()
  | v :: vs =>
    match v.keyFault? with
    | some t => Action.fail (.notKey t)
    | none => checkKeys vs

/-- The capabilities that a program declares, which have to be capabilities. -/
def declaredCapabilities (vs : List Value) : Action CapabilitySet := do
  checkKeys vs
  go vs
where
  /-- Collect the capabilities of a list. -/
  go : List Value → Action CapabilitySet
    | [] => pure ∅
    | .capability c :: vs => do return (← go vs).insert c
    | other :: _ => Action.fail (.notCapability other.typeName)

/-! ### Effects -/

/-- The effect of a request, as a value. -/
def requestValue (r : Request) : Action Value := pure (.effect (Effect.of r))

/-- An operation on effects. -/
def EffectOp.apply (call : Call) : EffectOp → List Value → Action Value
  | .log, [m] => requestValue (.log m)
  | .loudLog, [m, v] => requestValue (.loudLog m v)
  | .writeLine, [t] => requestValue (.writeLine t)
  | .readLine, [] => requestValue .readLine
  | .beep, [] => requestValue .beep
  | .get, [k] => requestValue (.get k)
  | .put, [k, v] => requestValue (.put k v)
  | .modify, [k, f] => requestValue (.modify k f)
  | .poke, [k] => requestValue (.poke k)
  | .tick, [] => requestValue (.tick (.int 1))
  | .tick, [n] => requestValue (.tick n)
  | .custom, [kind, capability, payload] => do
    let kind ← kind.asText "Custom"
    let capability ← capability.asText "Custom"
    requestValue (.custom kind capability payload)
  | .map, [e, f] => do
    let e ← e.asEffect "map"
    let f ← f.asFunction "mapper"
    return .effect (e.map (.call f))
  | .resume, [e] => do
    let e ← e.asEffect "resume"
    e.resume call .null
  | .resume, [e, answer] => do
    let e ← e.asEffect "resume"
    e.resume call answer
  | .pipelineLength, [e] => do
    let e ← e.asEffect "pipe_len"
    return .int e.pipeline.length
  | _, _ => Action.fail .arity

/-! ### Chains -/

/-- The chain that makes one request, as a value. -/
def performValue (r : Request) : Action Value := pure (.chain (Chain.perform (Effect.of r)))

/-- A failure as a value. -/
def refusalOf (kind : RefusalClass) (args : List Value) : Action Refusal :=
  match kind, args with
  | .unhandledEffect, [.effect e] => pure (.unhandledEffect e)
  | .unhandledEffect, [other] => Action.fail (.noMember other.typeName "capability")
  | .missingCapability, [.capabilities s] => pure (.missingCapability s)
  | .capabilityConflict, [.capabilities s] => pure (.capabilityConflict s)
  | .consoleInputExhausted, [] => pure (.consoleInputExhausted none)
  | .consoleInputExhausted, [.null] => pure (.consoleInputExhausted none)
  | .consoleInputExhausted, [.int n] => do
    -- The number is put into words when the refusal is made.
    let _ ← Action.text (decimal n)
    return .consoleInputExhausted (some n)
  | _, _ => Action.fail (.misuse "error")

/-- Fill in a template with positional and named arguments. -/
def fillWith (template args named : Value) : Action Value :=
  match template, named with
  | .text t, .dict m => do
    let args ← Action.ofExcept args.items
    if m.any fun e => !e.1.isText then Action.fail .namesNotText
    else if (Mapping.lookup m (.text "fmt")).isSome then
      Action.fail (.repeatedArgument "fmt")
    else return .text (← Action.ofExcept (fillTemplate t args m))
  | .text _, _ => Action.fail (.misuse "writef")
  | other, _ => Action.fail (.noMember other.typeName "format")

/-- An operation on chains. -/
def ChainOp.apply (call : Call) : ChainOp → List Value → Action Value
  | .capability, [n] => do return .capability ⟨← n.asText "cap"⟩
  | .capabilitySet, vs => do return .capabilities (← capabilitiesOf "capset" vs)
  | .done, v :: caps => do return .chain (.done v (← capabilitiesOf "Done" caps))
  | .suspended, e :: caps => do
    let e ← e.asEffect "Suspended"
    return .chain (.suspended e (← capabilitiesOf "Suspended" caps))
  | .lift, [v] => pure (.chain (Chain.finished v))
  | .perform, [v] =>
    match v with
    | .effect e => pure (.chain (Chain.perform e))
    | other => Action.fail (.notEffect other.typeName)
  | .bind, [c, f] => do
    let f ← f.asFunction "binder"
    let c ← c.asChain "bind"
    return .chain (← c.bind call (.call f))
  | .fmap, [c, f] => do
    let f ← f.asFunction "mapper"
    let c ← c.asChain "bind"
    return .chain (← c.fmap call f)
  | .andThen, [c, next] => do
    -- The second chain is looked at first.
    let next ← Chain.ofValue "then" next
    let c ← c.asChain "bind"
    return .chain (← c.andThen call next)
  | .sequence, [cs] => do
    let cs ← chainsOf "sequence" (← Action.ofExcept cs.items)
    return .chain (← Chain.sequence call cs)
  -- Declaring nothing asks nothing of the value.
  | .declare, [v] => pure v
  | .declare, v :: caps => do
    let c ← v.asDeclaring
    return .chain (c.declare (← capabilitiesOf "with_requirements" caps))
  | .isChain, [v] =>
    match v with
    | .chain _ => pure (.bool true)
    | _ => pure (.bool false)
  | .isDone, [v] =>
    match v with
    | .chain c => pure (.bool c.isDone)
    | _ => pure (.bool false)
  | .write, [m] => performValue (.log m)
  | .writeFormat, [template, args, named] => do
    performValue (.log (← fillWith template args named))
  | .writeLine, [t] => performValue (.writeLine t)
  | .readLine, [] => performValue .readLine
  | .get, [k] => performValue (.get k)
  | .put, [k, v] => performValue (.put k v)
  | .modify, [k, f] => performValue (.modify k f)
  | .tick, [] => performValue (.tick (.int 1))
  | .tick, [n] => performValue (.tick n)
  | .value, [v] =>
    match v with
    | .chain (.done x _) | .result x _ => pure x
    | _ => Action.fail (.misuse "value")
  | .output, [v] =>
    match v with
    | .result _ o => pure o
    | _ => Action.fail (.misuse "output")
  | .effect, [v] =>
    match v with
    | .chain (.suspended e _) => pure (.effect e)
    | _ => Action.fail (.misuse "effect")
  | .requires, [v] =>
    match v with
    | .chain c => pure (.capabilities c.requires)
    | .function (.program _ s _ _ _) => pure (.capabilities s)
    | other => Action.fail (.noMember other.typeName "requires")
  | .truncated, [v] => do return .text (← Action.text (v.truncated 120))
  | .truncated, [v, limit] =>
    match limit.number? with
    | some n => do return .text (← Action.text (v.truncated n))
    | none => Action.fail (.misuse "truncate_repr")
  | .checkFunction, [v, role] =>
    match v with
    | .function f => pure (.function f)
    -- The role is put into words for the failure only.
    | other => do Action.fail (.notCallable (← Action.text role.shown) other.typeName)
  | .refusal kind, vs => do
    let r ← refusalOf kind vs
    return .refusal (← Action.fresh) r
  | _, _ => Action.fail .arity

/-! ### Handlers -/

/-- A new handler, made from an identity. -/
def newHandler (make : Nat → Handler) : Action Value := do
  return .handler (make (← Action.fresh))

/-- A new stream with a text to read. -/
def newSource (s : String) : Action Nat := Action.exchange fun w =>
  (w.sources.size, { w with sources := w.sources.push s.toList })

/-- A new journal without entries. -/
def newJournal : Action Nat := Action.exchange fun w =>
  (w.journals.size, { w with journals := w.journals.push [] })

/-- The entries of a journal, oldest first. -/
def journalEntries (journal : Nat) : Action (List Value) :=
  Action.ask fun w => ((w.journals[journal]?).getD []).reverse

/-- An operation on handlers. -/
def HandlerOp.apply (s : Settings) (call : Call) : HandlerOp → List Value → Action Value
  | .collector, [] => newHandler .collector
  | .emitter, [] => newHandler (.emitter · Handler.defaultLevel Handler.defaultComponent)
  | .emitter, [level] => newHandler (.emitter · level Handler.defaultComponent)
  | .emitterFor, [level, component] => newHandler (.emitter · level component)
  | .transcript, [] => newHandler (.transcript · [])
  | .transcript, [v] => do
    let lines ← Action.ofExcept v.items
    newHandler (.transcript · lines)
  | .stream, [.null] => newHandler (.stream · World.standardSource)
  | .stream, [t] => do
    let source ← newSource (← t.asText "StreamConsole")
    newHandler (.stream · source)
  | .store, [] => newHandler (.store · [])
  | .store, [v] =>
    match v with
    | .dict m | .frozen m => newHandler (.store · m)
    | other =>
      if other.isTrue then Action.fail (.misuse "PureState") else newHandler (.store · [])
  | .counter, [] => newHandler .counter
  | .recorder, [h] => do
    let h ← h.asProvider
    let journal ← newJournal
    newHandler (.recorder · journal h)
  | .combine, vs => do return .handler (← Handler.combine (← handlersOf vs))
  | .pair, [a, b] => do
    let a ← a.asProvider
    let b ← b.asProvider
    return .handler (← Handler.pairOf a b)
  | .runChain, [c, h] => do
    let c ← c.asChain "run"
    let h ← h.asProvider
    run s call c h
  | .check, [c, h] => do
    let c ← c.asChain "run"
    let h ← h.asProvider
    checkProvided c h
    return .null
  | .runResult, [v, o] => pure (.result v o)
  | .handled, [v, n] => pure (.handled v n)
  | .declined, [] => pure .declined
  | .stateOf, [v] =>
    match v with
    | .handled x _ => pure x
    | _ => Action.fail (.misuse "state")
  | .nextOf, [v] =>
    match v with
    | .handled _ n => pure n
    | _ => Action.fail (.misuse "next")
  | .first, [v] =>
    match v with
    | .handler (.pair _ a _) => pure (.handler a)
    | _ => Action.fail (.misuse "first")
  | .second, [v] =>
    match v with
    | .handler (.pair _ _ b) => pure (.handler b)
    | _ => Action.fail (.misuse "second")
  | .capabilities, [h] => do return .capabilities (← h.asHandler "caps").capabilities
  | .calls, [v] =>
    match v with
    | .handler (.recorder _ journal _) => do return .list (← journalEntries journal)
    | other => Action.fail (.noMember other.typeName "calls")
  | .start, [h] => do (← h.asHandler "start").start call
  | .offer, [h, state, e] => do
    let h ← h.asHandler "try_step"
    let e ← e.asEffect "try_step"
    h.offer call state e
  | .finish, [h, state] => do (← h.asHandler "finish").finish call state
  | _, _ => Action.fail .arity

/-- An operation. -/
def Op.apply (s : Settings) (call : Call) : Op → List Value → Action Value
  | .data o, vs => o.apply call vs
  | .effect o, vs => o.apply call vs
  | .chain o, vs => o.apply call vs
  | .handler o, vs => o.apply s call vs

end EffectHandlers
