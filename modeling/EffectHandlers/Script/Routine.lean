/-
EffectHandlers/Script/Routine.lean

Executing resumable routines.

A routine executes statements until it yields, returns or comes to its end.
At a yield, what is left to do is kept as frames, innermost first: the rest
of a block, or the items that a loop has still to go through.  Sending an
answer binds it to the target of the yield and goes on with the frames.

An execution is a coroutine, kept in the record of the call that it belongs
to.  While it runs, and after it has returned or failed, it cannot be sent
anything.  The signal that stops an
iteration does not leave a routine as itself; it becomes a failure of its
own.

Everything is stated for an arbitrary evaluation of expressions.
-/
import EffectHandlers.Action
import EffectHandlers.Value.Items

namespace EffectHandlers

/-- How expressions are evaluated. -/
abbrev Evaluation := Env → Expr → Action Value

/-- How the execution of statements ends. -/
inductive Exit
  | through (env : Env)
  | yielded (v : Value) (target : Option String) (rest : List Frame) (env : Env)
  | returned (v : Value)

namespace Exit

/-- More to do after what a yield leaves. -/
def followedBy (frames : List Frame) : Exit → Exit
  | .yielded v target rest env => .yielded v target (rest ++ frames) env
  | other => other

end Exit

/-! ### Statements -/

/-- Go through items, with a body to execute for each. -/
def execLoop (exec : Env → Action Exit) (name : String) (body : List Stmt) :
    List Value → Env → Action Exit
  | [], env => pure (.through env)
  | v :: items, env => do
    match ← exec (Env.set env name v) with
    | .through env => execLoop exec name body items env
    -- A yield inside the body leaves the items that are still to come.
    | other => return other.followedBy [.loop name items body]

mutual

/-- Execute a statement. -/
def Stmt.exec (eval : Evaluation) : Stmt → Env → Action Exit
  | .yield target e, env => do return .yielded (← eval env e) target [] env
  | .assign name e, env => do return .through (Env.set env name (← eval env e))
  | .eval e, env => do
    let _ ← eval env e
    return .through env
  | .exit e, env => do return .returned (← eval env e)
  | .cond test yes no, env => do
    if (← eval env test).isTrue then execBlock eval yes env else execBlock eval no env
  | .each name items body, env => do
    let vs ← Action.ofExcept (← eval env items).items
    execLoop (fun env => execBlock eval body env) name body vs env
termination_by structural s => s

/-- Execute statements one after the other. -/
def execBlock (eval : Evaluation) : List Stmt → Env → Action Exit
  | [], env => pure (.through env)
  | s :: rest, env => do
    match ← s.exec eval env with
    | .through env => execBlock eval rest env
    | other => return other.followedBy [.block rest]
termination_by structural ss => ss

end

/-- Go on with what a yield left. -/
def execFrames (eval : Evaluation) : List Frame → Env → Action Exit
  | [], env => pure (.through env)
  | f :: frames, env => do
    let exit ← match f with
      | .block rest => execBlock eval rest env
      | .loop name items body => execLoop (execBlock eval body) name body items env
    match exit with
    | .through env => execFrames eval frames env
    | other => return other.followedBy frames

/-! ### Coroutines -/

/-- What a routine comes to when it is started or sent an answer. -/
inductive Advance
  | yielded (v : Value)
  | returned (v : Value)

/-- What a routine comes to when a slice of it ends.  At its end it returns null. -/
def Exit.advance : Exit → Advance
  | .yielded v _ _ _ => .yielded v
  | .returned v => .returned v
  | .through _ => .returned .null

/-- Where a routine stands when a slice of it ends. -/
def Exit.position : Exit → Position
  | .yielded _ target rest env => .parked target rest env
  | .returned _ | .through _ => .finished

namespace World

/-- The world with the record of a call changed. -/
def changeCall (w : World) (id : Nat) (f : Invocation → Invocation) : World :=
  { w with invocations := w.invocations.modify id f }

/-- The world with a coroutine of a call put at a position. -/
def setPosition (w : World) (id gen : Nat) (p : Position) : World :=
  w.changeCall id fun i =>
    { i with coroutines := i.coroutines.modify gen ({ · with position := p }) }

end World

namespace Coroutine

/-- A failure as it leaves a routine. -/
def outward : Failure → Failure
  | .raised .stop _ => .stopInRoutine
  | other => other

/-- Execute a part of a coroutine and keep where it ends. -/
def execute (id gen : Nat) (part : Action Exit) : Action Advance := fun w =>
  -- While it runs, the coroutine refuses answers; a failure leaves nothing to go on with.
  match part (w.setPosition id gen .running) with
  | .value exit w' => .value exit.advance (w'.setPosition id gen exit.position)
  | .failed f w' => .failed (outward f) (w'.setPosition id gen .finished)
  | .exhausted => .exhausted

/-- Keep an answer among those that a coroutine received. -/
def receive (id gen : Nat) (answer : Value) : Action Unit :=
  Action.change fun w => w.changeCall id fun i =>
    { i with
      coroutines := i.coroutines.modify gen fun c =>
        { c with received := answer :: c.received } }

/-- Where a coroutine stands; one that does not exist is finished. -/
def standing (id gen : Nat) : Action Position :=
  Action.ask fun w =>
    match (w.invocations[id]?).bind (·.coroutines[gen]?) with
    | some c => c.position
    | none => .finished

/-- The bindings of a routine after an answer to a yield. -/
def bindAnswer (env : Env) (target : Option String) (answer : Value) : Env :=
  match target with
  | some name => Env.set env name answer
  | none => env

/-- Send an answer to a coroutine. -/
def send (eval : Evaluation) (id gen : Nat) (answer : Value) : Action Advance := do
  match ← standing id gen with
  | .parked target rest env =>
    receive id gen answer
    execute id gen (execFrames eval rest (bindAnswer env target answer))
  | .entry _ _ => Action.fail .routineNotStarted
  | .running => Action.fail .routineRunning
  | .finished => return .returned .null

/-- Start a coroutine, or go on with one that was started as if it was sent null. -/
def start (eval : Evaluation) (id gen : Nat) : Action Advance := do
  match ← standing id gen with
  | .entry body env => execute id gen (execBlock eval body env)
  | _ => send eval id gen .null

end Coroutine

end EffectHandlers
