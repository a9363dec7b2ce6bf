/-
EffectHandlers/Session.lean

Sessions: expressions evaluated one after the other in one world.

Every step of a session has a name.  A step that succeeds binds the name
for the steps that follow; a step that fails binds nothing, but what
happened in the world before the failure stays.  Of a step whose bounds were
too small nothing stays.  The events of a step are those that it added.
-/
import EffectHandlers.Script.Eval

namespace EffectHandlers

/-- Bounds on the execution of a session. -/
structure Bounds where
  depth : Nat
  steps : Nat

/-- How a step of a session ends. -/
inductive Reply (α : Type)
  | value (a : α)
  | failed (f : Failure)
  | exhausted

/-- What a step of a session comes to: its reply, its events, oldest first, and the world. -/
structure StepResult where
  reply : Reply Value
  events : List Event
  world : World

namespace Session

/-- Evaluate an expression, and separate its events from the earlier ones. -/
def step (logSteps : Bool) (b : Bounds) (env : Env) (e : Expr) (w : World) : StepResult :=
  let s : Settings := ⟨logSteps, b.steps⟩
  match e.eval s (Callable.apply s b.depth) env { w with events := [] } with
  | .value v w' => ⟨.value v, w'.events.reverse, w'⟩
  | .failed f w' => ⟨.failed f, w'.events.reverse, w'⟩
  | .exhausted => ⟨.exhausted, [], w⟩

/-- The bindings after a step of some name. -/
def bindStep (env : Env) (name : String) : Reply Value → Env
  | .value v => Env.set env name v
  | .failed _ | .exhausted => env

/-- Evaluate named expressions one after the other. -/
def steps (logSteps : Bool) (b : Bounds) : Env → World → List (String × Expr) → List StepResult
  | _, _, [] => []
  | env, w, (name, e) :: rest =>
    let r := step logSteps b env e w
    r :: steps logSteps b (bindStep env name r.reply) r.world rest

/-- Evaluate the steps of a session, with a text as standard input. -/
def evaluate (logSteps : Bool) (b : Bounds) (input : String) (es : List (String × Expr)) :
    List StepResult :=
  steps logSteps b [] (World.initial input) es

end Session

end EffectHandlers
