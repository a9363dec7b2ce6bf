/-
EffectHandlers/Value/Items.lean

Values that hold other values.

Lists, tuples, run results and mappings can be gone through, a text
character by character and a mapping by its keys.  A value that is taken
apart into two has to hold exactly two items.  Items are found by place,
counted from the end when the place is negative, or by key, and members by
name.
-/
import EffectHandlers.Failure
import EffectHandlers.Value.Mapping

namespace EffectHandlers

/-- A text of one character. -/
def Value.char (c : Char) : Value := .text (String.singleton c)

/-- The items of a value, in order, if it has any. -/
def Value.items? : Value → Option (List Value)
  | .list xs | .tuple xs => some xs
  | .result v o => some [v, o]
  | .text s => some (s.toList.map Value.char)
  | .dict es | .frozen es => some (es.map Prod.fst)
  | .capabilities s => some (s.toList.map Value.capability)
  | _ => none

/-- The items of a value that is gone through. -/
def Value.items (v : Value) : Except Failure (List Value) :=
  match v.items? with
  | some xs => .ok xs
  | none => .error (.notIterable v.typeName)

/-- The items of a value from the last to the first; the members of a set have no order. -/
def Value.reversed (v : Value) : Except Failure (List Value) :=
  match v, v.items? with
  | .capabilities _, _ | _, none => .error (.notReversible v.typeName)
  | _, some xs => .ok xs.reverse

/-- The two items of a value that is taken apart. -/
def Value.unpackTwo (v : Value) : Except Failure (Value × Value) :=
  match v.items? with
  | none => .error (.notUnpackable v.typeName)
  | some [x, y] => .ok (x, y)
  | some [] => .error (.tooFewItems 0)
  | some [_] => .error (.tooFewItems 1)
  | some (_ :: _ :: _ :: _) => .error .tooManyItems

theorem Value.unpackTwo_tuple (x y : Value) : (Value.tuple [x, y]).unpackTwo = .ok (x, y) := rfl

/-- The number of items of a value. -/
def Value.length (v : Value) : Except Failure Nat :=
  match v.items? with
  | some xs => .ok xs.length
  | none => .error (.noLength v.typeName)

/-- Whether a value is a text. -/
def Value.isText : Value → Bool
  | .text _ => true
  | _ => false

/-- A value as a number, if it is a number or a truth value. -/
def Value.number? : Value → Option Int
  | .int n => some n
  | .bool b => some (boolNumber b)
  | _ => none

/-- The item at a place, counted from the end if the place is negative. -/
def itemAt? (xs : List Value) (i : Int) : Option Value :=
  let place := if i < 0 then xs.length + i else i
  if place < 0 then none else xs[place.toNat]?

/-- The item of a value at a place or under a key. -/
def Value.item (v i : Value) : Except Failure Value :=
  match v with
  | .dict es | .frozen es =>
    match i.keyFault? with
    | some t => .error (.notKey t)
    | none =>
      match Mapping.lookup es i with
      | some x => .ok x
      | none => .error (.missingKey i)
  | .list _ | .tuple _ | .result _ _ | .text _ =>
    let t := match v with
      | .result _ _ => "tuple"
      | other => other.typeName
    match i.number?, v.items? with
    | some n, some xs =>
      match itemAt? xs n with
      | some x => .ok x
      | none => .error (.outOfRange t)
    | _, _ => .error (.notItemIndex t i.typeName)
  | other => .error (.notIndexable other.typeName)

/-- A field of a request. -/
def Request.member (r : Request) (name : String) : Except Failure Value :=
  match r.fields.find? (fun f => f.1 == name) with
  | some f => .ok f.2
  | none => .error (.noMember r.kind.name name)

/-- A member of a value. -/
def Value.member (v : Value) (name : String) : Except Failure Value :=
  match v, name with
  | .capability c, "name" => .ok (.text c.name)
  | .effect e, "capability" => .ok (.capability e.capability)
  | .effect e, n => e.request.member n
  | .chain (.done x _), "value" => .ok x
  | .chain (.suspended e _), "effect" => .ok (.effect e)
  | .chain c, "requires" => .ok (.capabilities c.requires)
  | .handled s _, "state" => .ok s
  | .handled _ n, "next" => .ok n
  | .result x _, "value" => .ok x
  | .result _ o, "output" => .ok o
  | other, n => .error (.noMember other.typeName n)

/-- The sum of two values: of numbers, or of two texts, lists or tuples one after the other. -/
def Value.plus (a b : Value) : Except Failure Value :=
  match a, b with
  | .text x, .text y => .ok (.text (x ++ y))
  | .list xs, .list ys => .ok (.list (xs ++ ys))
  | .tuple xs, .tuple ys => .ok (.tuple (xs ++ ys))
  | .tuple xs, .result v o => .ok (.tuple (xs ++ [v, o]))
  | .result v o, .tuple ys => .ok (.tuple (v :: o :: ys))
  | .result v o, .result v' o' => .ok (.tuple [v, o, v', o'])
  | .text _, other | .list _, other | .tuple _, other =>
    .error (.noConcatenation a.typeName other.typeName)
  | .result _ _, other => .error (.noConcatenation "tuple" other.typeName)
  | _, _ =>
    match a.number?, b.number? with
    | some x, some y => .ok (.int (x + y))
    | _, _ => .error (.noSum a.typeName b.typeName)

end EffectHandlers
