/-
EffectHandlers/Handler/Nest.lean

Putting handlers together.

Two handlers make a pair if they declare no common capability.  A list of
handlers is combined into right-nested pairs, from the last two on, so that
`combine [a, b, c]` has states `(a, (b, c))` and the capabilities that a
handler shares with the later ones are found at the last such handler.
-/
import EffectHandlers.Handler.Basic

namespace EffectHandlers.Handler

/-- The pair of two handlers, unless both claim a capability. -/
def pairOf (first second : Handler) : Action Handler :=
  let overlap := first.capabilities ∩ second.capabilities
  if overlap.isEmpty then do return .pair (← Action.fresh) first second
  else Action.fail (.refused (.capabilityConflict overlap))

/-- Right-nested pairs of a list of handlers. -/
def nest : List Handler → Action Handler
  | [] => Action.fail .noHandlers
  | [h] => pure h
  -- The later handlers come first, so a conflict is the one of the last that has any.
  | h :: hs => do pairOf h (← nest hs)

/-- Combine handlers into one that tries them from left to right. -/
def combine (hs : List Handler) : Action Handler := do
  let combined ← nest hs
  Action.note .debug
    ("Combined " ++ toString hs.length ++ " handler(s): " ++ combined.written)
  return combined

/-- The components of a handler from left to right: a pair has those of its two sides. -/
def leaves : Handler → List Handler
  | .pair _ first second => leaves first ++ leaves second
  | h => [h]
termination_by structural h => h

end EffectHandlers.Handler
