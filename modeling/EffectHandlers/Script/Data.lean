/-
EffectHandlers/Script/Data.lean

Operations on plain data.

Arithmetic takes integers only, and not truth values; `add` also joins two
texts, two lists or two tuples.  The operations that look into a value
follow `EffectHandlers.Value.Items`.  `trace` shows a value to the observer
as it is at that moment, and cells are the only things that change.
-/
import EffectHandlers.Action
import EffectHandlers.Value.Items

namespace EffectHandlers

/-! ### Folding -/

/-- Fold a function over items from the left. -/
def foldItems (call : Call) (f : Value) : List Value → Value → Action Value
  | [], acc => pure acc
  | x :: xs, acc => do foldItems call f xs (← call.value f [acc, x])

/-! ### Cells -/

/-- Make a cell. -/
def newCell (v : Value) : Action Value := Action.exchange fun w =>
  (.cell w.cells.size, { w with cells := w.cells.push v })

/-- The contents of a cell. -/
def readCell (address : Nat) : Action Value :=
  Action.ask fun w => (w.cells[address]?).getD .null

/-- Put a value into a cell. -/
def writeCell (address : Nat) (v : Value) : Action Unit :=
  Action.change fun w => { w with cells := w.cells.setIfInBounds address v }

/-- Show a value to the observer, with the cells as they are at that moment. -/
def showValue (v : Value) : Action Unit :=
  Action.change fun w => { w with events := .traced v w.cells :: w.events }

/-! ### Numbers -/

/-- The integers from zero up to a bound. -/
def rangeItems (n : Int) : List Value := (List.range n.toNat).map fun (i : Nat) => Value.int i

/-- The mapping with an entry, whose key has to be one. -/
def addMappingEntry (m : Mapping) (k v : Value) : Except Failure Mapping :=
  match k.keyFault? with
  | some t => .error (.notKey t)
  | none => .ok (Mapping.set m k v)

/-! ### Operations -/

/-- Two integers added, or two collections of one type joined. -/
def addOp : Value → Value → Except Failure Value
  | .int a, .int b => .ok (.int (a + b))
  | .text a, .text b => .ok (.text (a ++ b))
  | .list a, .list b => .ok (.list (a ++ b))
  | .tuple a, .tuple b => .ok (.tuple (a ++ b))
  | _, _ => .error (.misuse "add")

/-- An operation on data. -/
def DataOp.apply (call : Call) : DataOp → List Value → Action Value
  | .list, vs => pure (.list vs)
  | .tuple, vs => pure (.tuple vs)
  | .range, [n] =>
    match n.number? with
    | some n => pure (.list (rangeItems n))
    | none => Action.fail (.notInteger n.typeName)
  | .length, [v] => do return .int (← Action.ofExcept v.length : Nat)
  | .item, [v, i] => Action.ofExcept (v.item i)
  | .add, [a, b] => Action.ofExcept (addOp a b)
  | .subtract, [.int a, .int b] => pure (.int (a - b))
  | .subtract, _ => Action.fail (.misuse "sub")
  | .multiply, [.int a, .int b] => pure (.int (a * b))
  | .multiply, _ => Action.fail (.misuse "mul")
  | .less, [.int a, .int b] => pure (.bool (a < b))
  | .less, _ => Action.fail (.misuse "lt")
  | .equal, [a, b] => pure (.bool (a.same b))
  | .negate, [v] => pure (.bool !v.isTrue)
  | .text, [v] => do return .text (← Action.text v.shown)
  | .written, [v] => do return .text (← Action.text v.form)
  | .upper, [.text s] => pure (.text (s.map Char.toUpper))
  | .upper, _ => Action.fail (.misuse "upper")
  | .call, f :: args => call.value f args
  | .fold, [items, acc, f] => do
    foldItems call f (← Action.ofExcept items.items) acc
  | .trace, [v] => do
    showValue v
    return v
  | .raise kind, [message] => Action.fail (.raised kind message)
  | .cell, [v] => newCell v
  | .cellGet, [.cell a] => readCell a
  | .cellGet, _ => Action.fail (.misuse "cell_get")
  | .cellSet, [.cell a, v] => do
    writeCell a v
    return v
  | .cellSet, _ => Action.fail (.misuse "cell_set")
  | _, _ => Action.fail .arity

end EffectHandlers
