/-
EffectHandlers/Chain.lean

Chains and how they are put together.

A chain is a program as data.  `Chain.bind` is the only way in which
programs are sequenced: on a finished chain it goes on at once, on a
suspended one it adds a stage to the pipeline of the effect, so that
nothing happens until the effect is answered.  Everything else is a use of
`bind` with one of the library's own binders.

Requirements.  A chain declares capabilities.  A suspended chain keeps its
declaration when it is continued; the declaration of a finished chain is
passed on to the chain that follows it.

Main statements: the equations of `bind` on finished and suspended chains
(`bind_done`, `bind_suspended`), and that finished prefixes of a sequence
are collected without calling any function (`gather_done`).
-/
import EffectHandlers.Action

namespace EffectHandlers

/-- The effect with one more stage at the end of its pipeline. -/
def Effect.map (e : Effect) (s : Stage) : Effect := { e with pipeline := e.pipeline ++ [s] }

@[simp] theorem Effect.request_map (e : Effect) (s : Stage) :
    (e.map s).request = e.request := rfl

@[simp] theorem Effect.pipeline_map (e : Effect) (s : Stage) :
    (e.map s).pipeline = e.pipeline ++ [s] := rfl

namespace Chain

/-! ### Single chains -/

/-- The finished chain that declares nothing. -/
def finished (v : Value) : Chain := .done v ∅

/-- The chain that makes one request and finishes with the answer. -/
def perform (e : Effect) : Chain := .suspended (e.map .lift) (.single e.capability)

/-- The chain with further capabilities declared. -/
def declare (c : Chain) (s : CapabilitySet) : Chain := c.setRequires (c.requires ∪ s)

/-- The chain that adds the value of `c` to a list and finishes with the list. -/
def gather (c : Chain) (collected : List Value) : Chain :=
  match c with
  | .done v r => .done (.list (collected ++ [v])) r
  | .suspended e r => .suspended (e.map (.bind (.append collected))) r

/-! ### Continuing a chain -/

/-- A value that has to be a chain. -/
def ofValue (role : String) : Value → Action Chain
  | .chain c => pure c
  | other => Action.fail (.notChainResult role other.typeName)

end Chain

/-- The chain that a binder gives for a value. -/
def Binder.apply (call : Call) (b : Binder) (v : Value) : Action Chain :=
  match b with
  | .call f => do Chain.ofValue "binder" (← call f [v])
  | .map f => do return Chain.finished (← call f [v])
  | .always c => pure c
  | .gather c =>
    match v with
    | .list collected => pure (c.gather collected)
    | other => Action.fail (.noSum other.typeName "list")
  | .append collected => pure (Chain.finished (.list (collected ++ [v])))

namespace Chain

/-- Continue a chain with a binder. -/
def bind (call : Call) (c : Chain) (b : Binder) : Action Chain :=
  match c with
  | .done v r => do return (← b.apply call v).declare r
  | .suspended e r => pure (.suspended (e.map (.bind b)) r)

/-- Apply a function to the eventual value of a chain. -/
def fmap (call : Call) (c : Chain) (f : Callable) : Action Chain := c.bind call (.map f)

/-- One chain, then another. -/
def andThen (call : Call) (c next : Chain) : Action Chain := c.bind call (.always next)

/-- The chain that runs after `acc` every chain of a list and collects their values. -/
def sequenceAfter (call : Call) (acc : Chain) : List Chain → Action Chain
  | [] => pure acc
  | c :: cs => do sequenceAfter call (← acc.bind call (.gather c)) cs

/-- The chain that runs the chains of a list and finishes with the list of their values. -/
def sequence (call : Call) (cs : List Chain) : Action Chain :=
  sequenceAfter call (finished (.list [])) cs

/-! ### Equations -/

@[simp] theorem requires_setRequires (c : Chain) (s : CapabilitySet) :
    (c.setRequires s).requires = s := by
  cases c <;> rfl

theorem mem_requires_declare {c : Chain} {s : CapabilitySet} {a : Capability} :
    a ∈ (c.declare s).requires ↔ a ∈ c.requires ∨ a ∈ s := by
  simp [declare]

theorem bind_suspended (call : Call) (e : Effect) (r : CapabilitySet) (b : Binder) :
    (Chain.suspended e r).bind call b = pure (.suspended (e.map (.bind b)) r) := rfl

theorem bind_done (call : Call) (v : Value) (r : CapabilitySet) (b : Binder) :
    (Chain.done v r).bind call b = (b.apply call v >>= fun c => pure (c.declare r)) := rfl

theorem gather_done (v : Value) (r : CapabilitySet) (collected : List Value) :
    (Chain.done v r).gather collected = .done (.list (collected ++ [v])) r := rfl

end Chain

end EffectHandlers
