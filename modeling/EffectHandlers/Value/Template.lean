/-
EffectHandlers/Value/Template.lean

Filling in templates.

The fields of a template are filled in from left to right with positional
and named arguments.  A field without a name takes the next positional
argument; a template that does so may not name positions, and the other way
round.  The layout of a field may hold fields of its own, which are filled
in first and go on with the same numbering, but no deeper ones.

Texts and integers follow their layout; a truth value with a layout is
laid out as an integer; every other value takes no layout.
-/
import EffectHandlers.Value.Items

namespace EffectHandlers

open Text

/-! ### The value of a field -/

/-- How the fields of a template are numbered: not yet settled, by position, or in turn. -/
inductive Numbering
  | unsettled
  | manual
  | automatic (next : Nat)
deriving DecidableEq, Repr

/-- Where a field finds its positional argument, and how numbering goes on. -/
def Numbering.step (n : Numbering) (s : Source) :
    Except Failure (Option Nat × Numbering) :=
  match s, n with
  | .named _, n => .ok (none, n)
  | .position i, .unsettled | .position i, .manual => .ok (some i, .manual)
  | .position _, .automatic _ => .error (.fieldName .manualAfterAutomatic)
  | .next, .unsettled => .ok (some 0, .automatic 1)
  | .next, .automatic k => .ok (some k, .automatic (k + 1))
  | .next, .manual => .error (.fieldName .automaticAfterManual)

/-- Follow the look-ups of a name.  Each takes at least one character. -/
def followLookups : Nat → List Char → Value → Except Failure Value
  | 0, _, v => .ok v
  | _, [], v => .ok v
  | fuel + 1, cs, v =>
    match readLookup cs with
    | .error f => .error (.fieldName f)
    | .ok (l, rest) => do
      let x ← match l with
        | .member name => v.member name
        | .index i => v.item (.int i)
        | .key k => v.item (.text k)
      followLookups fuel rest x

/-- The value that a field names. -/
def fieldValue (args : List Value) (named : Mapping) (name : List Char) (n : Numbering) :
    Except Failure (Value × Numbering) := do
  let (first, lookups) := splitName name
  let source ← (readSource first).mapError .fieldName
  let (place, n) ← n.step source
  let v ← match place, source with
    | some i, _ =>
      match args[i]? with
      | some v => .ok v
      | none => .error (.positionOutOfRange i)
    | none, .named k =>
      match Mapping.lookup named (.text k) with
      | some v => .ok v
      | none => .error (.missingKey (.text k))
    | none, _ => .error (.positionOutOfRange 0)
  let v ← followLookups lookups.length lookups v
  return (v, n)

/-! ### Conversion and layout -/

/-- A value after the conversion of its field. -/
def convertField (v : Value) : Option Char → Except Failure Value
  | none => .ok v
  | some 'r' => (v.form.mapError .noText).map .text
  | some 's' => (v.shown.mapError .noText).map .text
  | some 'a' => (v.form.mapError .noText).map fun s => .text (asciiOnly s)
  | some c => .error (.unknownConversion c)

/-- A value by a layout. -/
def layValue (v : Value) (layout : List Char) : Except Failure (List Char) :=
  if layout.isEmpty then (v.shown.mapError .noText).map String.toList
  else
    let inLayout := fun (f : SpecFault) => Failure.layout f v.typeName
    match v with
    | .text s => (FieldSpec.read .left 's' layout >>= (·.layText s.toList)).mapError inLayout
    | .int n => (FieldSpec.read .right 'd' layout >>= (·.layInt n)).mapError inLayout
    | .bool b =>
      (FieldSpec.read .right 'd' layout >>= (·.layInt (boolNumber b))).mapError inLayout
    | other => .error (.noLayout other.typeName)

/-! ### Filling in -/

/-- Fill in pieces; `layout` fills in the layout of a field. -/
def fillPieces (args : List Value) (named : Mapping)
    (layout : List Char → Numbering → Except Failure (List Char × Numbering)) :
    List Piece → Numbering → Except Failure (List Char × Numbering)
  | [], n => .ok ([], n)
  | .text s :: ps, n => do
    let (out, n) ← fillPieces args named layout ps n
    return (s ++ out, n)
  | .field f :: ps, n => do
    let (v, n) ← fieldValue args named f.name n
    let v ← convertField v f.conversion
    -- Fields inside the layout take their arguments after the field itself.
    let (spec, n) ← if f.layout.contains '{' then layout f.layout n else .ok (f.layout, n)
    let s ← layValue v spec
    let (out, n) ← fillPieces args named layout ps n
    return (s ++ out, n)

/-- Fill in a template whose fields may be nested to a depth. -/
def fillNested (args : List Value) (named : Mapping) :
    Nat → List Char → Numbering → Except Failure (List Char × Numbering)
  | 0, _, _ => .error .templateTooDeep
  | depth + 1, cs, n => do
    let (ps, fault) := pieces cs
    let r ← fillPieces args named (fillNested args named depth) ps n
    -- The fault stands behind all pieces that could be read.
    match fault with
    | none => return r
    | some f => .error (.template f)

/-- Fill in a template. -/
def fillTemplate (template : String) (args : List Value) (named : Mapping) :
    Except Failure String := do
  let (cs, _) ← fillNested args named 2 template.toList .unsettled
  return String.ofList cs

end EffectHandlers
