/-
EffectHandlers/Kind.lean

Kinds of requests.

A handler declares the kind of request that it interprets.  Some kinds
cover others: every console request is of the kind `console`, every keyed
state request of the kind `state`, a loud log entry is also a log entry,
and every request is of the kind `any`.
-/
import EffectHandlers.Capability

namespace EffectHandlers

/-- A kind of request. -/
inductive Kind
  | any
  | log
  | loudLog
  | console
  | writeLine
  | readLine
  | beep
  | state
  | get
  | put
  | modify
  | poke
  | tick
  | custom (name capability : String)
deriving DecidableEq, Repr

namespace Kind

/-- The kind one step above, if the kind refines another one. -/
def parent? : Kind → Option Kind
  | .any => none
  | .loudLog => some .log
  | .writeLine | .readLine | .beep => some .console
  | .get | .put | .modify | .poke => some .state
  | .log | .console | .state | .tick | .custom _ _ => some .any

/-- Whether a request of kind `k` is also a request of kind `covering`. -/
def isCoveredBy (k covering : Kind) : Bool :=
  k == covering || covering == .any ||
    match k.parent? with
    | some p => p == covering
    | none => false

/-- The capability of the requests of a kind; `any` spans all of them and has none. -/
def capability? : Kind → Option Capability
  | .any => none
  | .log | .loudLog => some ⟨"log"⟩
  | .console | .writeLine | .readLine | .beep => some ⟨"console"⟩
  | .state | .get | .put | .modify | .poke => some ⟨"state"⟩
  | .tick => some ⟨"counter"⟩
  | .custom _ c => some ⟨c⟩

/-- The name that a kind is shown by. -/
def name : Kind → String
  | .any => "Effect"
  | .log => "LogEffect"
  | .loudLog => "LoudLog"
  | .console => "ConsoleEffect"
  | .writeLine => "WriteLine"
  | .readLine => "ReadLine"
  | .beep => "Beep"
  | .state => "StateEffect"
  | .get => "Get"
  | .put => "Put"
  | .modify => "Modify"
  | .poke => "Poke"
  | .tick => "Tick"
  | .custom n _ => n

end Kind

end EffectHandlers
