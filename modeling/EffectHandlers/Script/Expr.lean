/-
EffectHandlers/Script/Expr.lean

The language in which programs, continuations and handlers are written.

An expression builds values and calls the operations of the library.  A
routine is the body of a program: either a resumable list of statements,
which may stop at a `yield` and go on with the answer, or one plain
expression.  Functions close over the bindings that exist when they are
made; statements bind their variables in the order of execution, also
those inside branches and loops.

The operations are plain names here.  What each of them does is said in
`EffectHandlers.Script.Data` and `EffectHandlers.Script.Library`.
-/
import EffectHandlers.Kind

namespace EffectHandlers

/-! ### Operations -/

/-- The classes of failures that a program can raise itself. -/
inductive RaisedClass
  | value | runtime | system | key | endOfInput | stop
deriving DecidableEq, Repr

/-- The classes of failures that are also values. -/
inductive RefusalClass
  | unhandledEffect | missingCapability | capabilityConflict | consoleInputExhausted
deriving DecidableEq, Repr

/-- Operations on plain data. -/
inductive DataOp
  | list | tuple | range | length | item
  | add | subtract | multiply | less | equal | negate
  | text | written | upper
  | call | fold
  | trace | raise (kind : RaisedClass)
  | cell | cellGet | cellSet
deriving DecidableEq, Repr

/-- Operations that make requests, and the methods of effects. -/
inductive EffectOp
  | log | loudLog | writeLine | readLine | beep
  | get | put | modify | poke | tick | custom
  | map | resume | pipelineLength
deriving DecidableEq, Repr

/-- Operations on chains. -/
inductive ChainOp
  | capability | capabilitySet
  | done | suspended
  | lift | perform | bind | fmap | andThen | sequence | declare
  | isChain | isDone
  | write | writeFormat | writeLine | readLine | get | put | modify | tick
  | value | output | effect | requires
  | truncated | checkFunction | refusal (kind : RefusalClass)
deriving DecidableEq, Repr

/-- Operations that make, combine and drive handlers. -/
inductive HandlerOp
  | collector | emitter | emitterFor
  | transcript | stream | store | counter | recorder
  | combine | pair
  | runChain | check
  | runResult | handled | declined
  | stateOf | nextOf | first | second | capabilities | calls
  | start | offer | finish
deriving DecidableEq, Repr

/-- An operation. -/
inductive Op
  | data (o : DataOp)
  | effect (o : EffectOp)
  | chain (o : ChainOp)
  | handler (o : HandlerOp)
deriving DecidableEq, Repr

/-- The handler that a custom handler refines. -/
inductive HandlerBase
  | plain
  | simple
  | collector
  | transcript
  | store
deriving DecidableEq, Repr

/-! ### Expressions and statements -/

/-- A value that stands for itself. -/
inductive Literal
  | null
  | bool (b : Bool)
  | int (n : Int)
  | text (s : String)
deriving DecidableEq, Repr

mutual

/-- An expression. -/
inductive Expr
  | literal (l : Literal)
  | var (name : String)
  | lambda (params : List String) (body : Expr)
  | fixpoint (name : String) (params : List String) (body : Expr)
  | cond (test yes no : Expr)
  | letIn (name : String) (bound body : Expr)
  | block (es : List Expr)
  | mapping (entries : List (Expr × Expr))
  | program (requires : List Expr) (params : List String) (body : Routine)
  | custom (spec : HandlerSpec)
  | op (o : Op) (args : List Expr)

/-- A statement of a resumable routine. -/
inductive Stmt
  | yield (target : Option String) (e : Expr)
  | assign (name : String) (e : Expr)
  | eval (e : Expr)
  | exit (e : Expr)
  | cond (test : Expr) (yes no : List Stmt)
  | each (name : String) (items : Expr) (body : List Stmt)

/-- The body of a program. -/
inductive Routine
  | resumable (body : List Stmt)
  | plain (body : Expr)

/-- The description of a custom handler: what it refines and which methods it replaces. -/
inductive HandlerSpec
  | mk (name : String) (base : HandlerBase) (kind : Option Kind)
      (capabilities : Option (List String)) (start step offer finish : Option Expr)

end

instance : Inhabited Expr := ⟨.literal .null⟩

instance : Inhabited Stmt := ⟨.eval default⟩

end EffectHandlers
