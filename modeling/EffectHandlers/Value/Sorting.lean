/-
EffectHandlers/Value/Sorting.lean

Putting a list in order by a comparison that may fail.

The items at the front that are already in order, or each less than the one
before it, are a run; a run that goes down is turned round.  The items
behind it are put in one after the other, each in the place that a binary
search finds, behind the items that it is not less than.

The order in which items are compared is part of the behaviour, because the
first comparison that fails is the one that is reported.
-/

namespace EffectHandlers

variable {ε α : Type}

/-- The rest of a run after an item, and what follows the run.  The run goes on as long as the
next item is less than the one before it, or as long as it is not. -/
def runAfter (less : α → α → Except ε Bool) (down : Bool) :
    α → List α → Except ε (List α × List α)
  | _, [] => .ok ([], [])
  | x, y :: ys => do
    if (← less y x) == down then
      let (run, rest) ← runAfter less down y ys
      return (y :: run, rest)
    else return ([], y :: ys)

/-- Where an item belongs among the places from `low` to `high` of a list in order.  Every
comparison leaves at most half of the places, so `fuel` need not exceed their number. -/
def placeFor (less : α → α → Except ε Bool) (x : α) (xs : List α) :
    Nat → Nat → Nat → Except ε Nat
  | 0, low, _ => .ok low
  | fuel + 1, low, high =>
    let middle := low + (high - low) / 2
    match xs[middle]? with
    | none => .ok low
    | some y =>
      if low < high then do
        if ← less x y then placeFor less x xs fuel low middle
        else placeFor less x xs fuel (middle + 1) high
      else .ok low

/-- A list in order with one more item. -/
def putIn (less : α → α → Except ε Bool) (xs : List α) (x : α) : Except ε (List α) := do
  let place ← placeFor less x xs xs.length 0 xs.length
  return xs.take place ++ x :: xs.drop place

/-- The items of a list in order. -/
def sorted (less : α → α → Except ε Bool) : List α → Except ε (List α)
  | [] => .ok []
  | [x] => .ok [x]
  | x :: y :: zs => do
    let down ← less y x
    let (run, rest) ← runAfter less down y zs
    let run := x :: y :: run
    rest.foldlM (putIn less) (if down then run.reverse else run)

end EffectHandlers
