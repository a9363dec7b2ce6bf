/-
EffectHandlers/World.lean

What a computation reads and changes besides its values.

The world holds the contents of cells, the calls of programs that were
made, the texts that streams still have to read, the calls that recorders
have seen, and the events that an observer can see, in order.

Identities are drawn from one counter, so that no two things made in one
world share one.

A call of a program keeps everything that belongs to it in a record of its
own: the executions of its routine and the histories of answers.  So what
is done for one call leaves the records of the others alone.  Histories
only grow in number: within a call, the address of a history stands for the
same answers for ever, and two histories with the same answers are told
apart by their addresses.  Address zero is the empty history.
-/
import EffectHandlers.Failure

namespace EffectHandlers

/-! ### Routines under way -/

/-- What is left to do of a routine, innermost part first. -/
inductive Frame
  | block (rest : List Stmt)
  | loop (name : String) (items : List Value) (body : List Stmt)

/-- Where a routine stands.

* `entry`: not started;
* `parked target rest env`: at a yield whose answer is bound to `target`, with `rest` to do;
* `running`: being executed;
* `finished`: returned or failed, nothing is left. -/
inductive Position
  | entry (body : List Stmt) (env : Env)
  | parked (target : Option String) (rest : List Frame) (env : Env)
  | running
  | finished

/-- One execution of a routine: where it stands and what it was sent, newest first. -/
structure Coroutine where
  position : Position
  received : List Value

/-- One call of a program: the routine with its bindings, from which executions are made, the
executions, the histories of answers, newest answer first, and the live execution with the
history that it stands at, unless it is taken. -/
structure Invocation where
  body : List Stmt
  env : Env
  coroutines : Array Coroutine
  histories : Array (List Value)
  live : Option (Nat × Nat)

/-! ### Events -/

/-- How severe a diagnostic record is. -/
inductive Severity
  | debug | error
deriving DecidableEq, Repr

/-- Something an observer can see.

* `traced v cells`: a program showed `v`, at a time when the cells held `cells`;
* `wrote line`: a stream console wrote a line, its end included;
* `noted severity text`: the library made a diagnostic record;
* `emitted level component text`: an emitting log handler passed a message on. -/
inductive Event
  | traced (v : Value) (cells : Array Value)
  | wrote (line : String)
  | noted (severity : Severity) (text : String)
  | emitted (level : String) (component : Value) (text : String)

/-! ### The world -/

/-- The state that computations share.  Journals and events are newest first. -/
structure World where
  cells : Array Value
  invocations : Array Invocation
  sources : Array (List Char)
  journals : Array (List Value)
  fresh : Nat
  events : List Event

namespace World

/-- The address of the stream that consoles read from unless they are given another one. -/
def standardSource : Nat := 0

/-- The world in which nothing has happened, with a text to read as standard input. -/
def initial (input : String) : World where
  cells := #[]
  invocations := #[]
  sources := #[input.toList]
  journals := #[]
  fresh := 0
  events := []

end World

end EffectHandlers
