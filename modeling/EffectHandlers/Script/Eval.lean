/-
EffectHandlers/Script/Eval.lean

The meaning of expressions and functions.

Expressions are evaluated by recursion on their structure; arguments are
evaluated from left to right.  A function call is answered by the call
model that the evaluation is given, so the recursion through functions is
tied in one place, `Callable.apply`, with a bound on the depth of calls.
-/
import EffectHandlers.Script.Library
import EffectHandlers.Script.Replay

namespace EffectHandlers

/-! ### Parts of expressions -/

/-- The value that a literal stands for. -/
def Literal.value : Literal → Value
  | .null => .null
  | .bool b => .bool b
  | .int n => .int n
  | .text s => .text s

/-- The value of a variable. -/
def evalVar (env : Env) (name : String) : Action Value :=
  match Env.lookup env name with
  | some v => pure v
  | none => Action.fail (.unbound name)

/-- The capabilities of a custom handler: those it names, else the one of the kind it names,
else those of its base. -/
def customCapabilities (base : HandlerBase) (kind : Option Kind)
    (names : Option (List String)) : Action CapabilitySet :=
  match names, kind with
  | some ns, _ => pure (CapabilitySet.ofList (ns.map Capability.mk))
  | none, some k =>
    -- A kind counts as a declaration only for handlers that test it.
    if base.testsKind then
      match k.capability? with
      | some c => pure (.single c)
      | none => Action.fail (.noKindMember k.name "capability")
    else pure base.capabilities
  | none, none => pure base.capabilities

/-! ### Expressions -/

mutual

/-- The value of an expression. -/
def Expr.eval (s : Settings) (call : Call) : Expr → Env → Action Value
  | .literal l, _ => pure l.value
  | .var name, env => evalVar env name
  | .lambda params body, env => do
    return .function (.closure (← Action.fresh) params body env)
  | .fixpoint name params body, env => do
    return .function (.fixpoint (← Action.fresh) name params body env)
  | .cond test yes no, env => do
    if (← test.eval s call env).isTrue then yes.eval s call env else no.eval s call env
  | .letIn name bound body, env => do
    let v ← bound.eval s call env
    body.eval s call (Env.set env name v)
  | .block es, env => evalLast s call .null es env
  | .mapping entries, env => do return .dict (← evalEntries s call [] entries env)
  | .program requires params body, env => do
    let caps ← declaredCapabilities (← evalAll s call requires env)
    return .function (.program (← Action.fresh) caps params body env)
  | .custom spec, env => spec.eval s call env
  | .op o args, env => do o.apply s call (← evalAll s call args env)
termination_by structural e => e

/-- The values of expressions, evaluated from left to right. -/
def evalAll (s : Settings) (call : Call) : List Expr → Env → Action (List Value)
  | [], _ => pure []
  | e :: es, env => do
    let v ← e.eval s call env
    return v :: (← evalAll s call es env)
termination_by structural es => es

/-- The value of the last of some expressions, all of them evaluated. -/
def evalLast (s : Settings) (call : Call) (last : Value) : List Expr → Env → Action Value
  | [], _ => pure last
  | e :: es, env => do evalLast s call (← e.eval s call env) es env
termination_by structural es => es

/-- The mapping with entries added one after the other. -/
def evalEntries (s : Settings) (call : Call) (m : Mapping) :
    List (Expr × Expr) → Env → Action Mapping
  | [], _ => pure m
  | (k, v) :: entries, env => do
    let k ← k.eval s call env
    let v ← v.eval s call env
    evalEntries s call (← Action.ofExcept (addMappingEntry m k v)) entries env
termination_by structural es => es

/-- The value of an expression that may be absent. -/
def evalOption (s : Settings) (call : Call) : Option Expr → Env → Action (Option Value)
  | none, _ => pure none
  | some e, env => do return some (← e.eval s call env)
termination_by structural e => e

/-- The custom handler of a description. -/
def HandlerSpec.eval (s : Settings) (call : Call) : HandlerSpec → Env → Action Value
  | .mk name base kind names start step offer finish, env => do
    let start ← evalOption s call start env
    let step ← evalOption s call step env
    let offer ← evalOption s call offer env
    let finish ← evalOption s call finish env
    let capabilities ← customCapabilities base kind names
    newHandler (.custom · { name, base, kind, capabilities, start, step, offer, finish })
termination_by structural spec => spec

end

/-! ### Functions -/

/-- The value of a function on arguments, given how functions that it calls are called. -/
def Callable.applyWith (s : Settings) (call : Call) (f : Callable) (args : List Value) :
    Action Value :=
  let eval : Evaluation := fun env e => e.eval s call env
  match f with
  | .closure _ params body env => do
    body.eval s call (← Action.require .arity (Env.setAll? env params args))
  | .fixpoint _ name params body env => do
    let env := Env.set env name (.function f)
    body.eval s call (← Action.require .arity (Env.setAll? env params args))
  | .program _ requires params (.resumable body) env => do
    let env ← Action.require .arity (Env.setAll? env params args)
    let c ← Invocation.begin eval call s.maxSteps body env
    -- What the program declares is joined to what its first suspension declares.
    return .chain (c.declare requires)
  | .program _ requires params (.plain body) env => do
    let env ← Action.require .arity (Env.setAll? env params args)
    match ← body.eval s call env with
    | .chain c => return .chain (c.declare requires)
    | v => return .chain ((Chain.finished v).declare requires)
  | .resumption id h =>
    match args with
    | [answer] => do return .chain (← Invocation.resume eval call s.maxSteps id h answer)
    | _ => Action.fail .arity

/-- The value of a function on arguments, if calls are nested no deeper than `depth`. -/
def Callable.apply (s : Settings) : Nat → Call
  | 0 => fun _ _ => Action.exhaust
  | depth + 1 => fun f args => f.applyWith s (Callable.apply s depth) args

end EffectHandlers
