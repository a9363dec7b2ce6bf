/-
EffectHandlers/Text/Template.lean

Templates: text with replacement fields.

A field stands between braces and has a name, an optional conversion after
an exclamation mark and an optional layout after a colon.  A brace that is
text is written twice.  A template is read into the pieces in front of its
first fault and that fault, because the pieces are filled in one after the
other and an earlier piece that cannot be filled in comes before a later
fault.

The name of a field starts with the place of a positional argument, the
name of a named one or nothing (the next positional argument), and goes on
with look-ups of items in brackets and members after points.
-/
import EffectHandlers.Text.FieldSpec

namespace EffectHandlers.Text

/-! ### Pieces -/

/-- A replacement field as it was written; the layout still holds its own fields. -/
structure Field where
  name : List Char
  conversion : Option Char
  layout : List Char
deriving DecidableEq, Repr

/-- A piece of a template. -/
inductive Piece
  | text (s : List Char)
  | field (f : Field)
deriving DecidableEq, Repr

/-- Why a template cannot be read. -/
inductive TemplateFault
  | singleOpening | singleClosing
  | openingInName
  | unfinishedField | unfinishedConversion | unfinishedLayout
  | afterConversion
deriving DecidableEq, Repr

/-! ### Reading fields -/

/-- What stands in front of the first closing bracket, and what follows from it on. -/
def toBracket : List Char → List Char × List Char
  | [] => ([], [])
  | ']' :: cs => ([], ']' :: cs)
  | c :: cs => (c :: (toBracket cs).1, (toBracket cs).2)

/-- The name of a field, the character that ends it and the rest.  Inside brackets (`inItem`)
every character but the closing bracket belongs to the name. -/
def readName (inItem : Bool) : List Char → Except TemplateFault (List Char × Char × List Char)
  | [] => .error .unfinishedField
  | c :: cs =>
    if inItem then
      (readName (c != ']') cs).map fun r => (c :: r.1, r.2)
    else if c = '{' then .error .openingInName
    else if c = '}' ∨ c = ':' ∨ c = '!' then .ok ([], c, cs)
    else (readName (c = '[') cs).map fun r => (c :: r.1, r.2)

/-- A layout up to the brace that closes its field, with `depth` braces open inside. -/
def readLayout (depth : Nat) : List Char → Except TemplateFault (List Char × List Char)
  | [] => .error .unfinishedLayout
  | '{' :: cs => (readLayout (depth + 1) cs).map fun r => ('{' :: r.1, r.2)
  | '}' :: cs =>
    match depth with
    | 0 => .ok ([], cs)
    | d + 1 => (readLayout d cs).map fun r => ('}' :: r.1, r.2)
  | c :: cs => (readLayout depth cs).map fun r => (c :: r.1, r.2)

/-- A field, from the character after its opening brace on. -/
def readField (cs : List Char) : Except TemplateFault (Field × List Char) :=
  match readName false cs with
  | .error e => .error e
  | .ok (name, '}', rest) => .ok (⟨name, none, []⟩, rest)
  | .ok (name, ':', rest) => (readLayout 0 rest).map fun r => (⟨name, none, r.1⟩, r.2)
  | .ok (_, _, []) => .error .unfinishedConversion
  | .ok (name, _, v :: rest) =>
    match rest with
    | [] => .error .unfinishedLayout
    | '}' :: rest => .ok (⟨name, some v, []⟩, rest)
    | ':' :: rest => (readLayout 0 rest).map fun r => (⟨name, some v, r.1⟩, r.2)
    | _ :: _ => .error .afterConversion

/-! ### Reading templates -/

/-- A piece of text put in front of other pieces; empty text is no piece. -/
def consText (s : List Char) (ps : List Piece) : List Piece :=
  if s.isEmpty then ps else .text s :: ps

/-- The pieces of a template in front of its first fault, and that fault.  `text` is the text
read since the last piece, newest character first; each field takes at least one character, so
`fuel` need not exceed the length of the template. -/
def readPieces : Nat → List Char → List Char → List Piece × Option TemplateFault
  | 0, _, text => (consText text.reverse [], none)
  | fuel + 1, cs, text =>
    match cs with
    | [] => (consText text.reverse [], none)
    | '}' :: '}' :: rest => readPieces fuel rest ('}' :: text)
    | '}' :: _ => ([], some .singleClosing)
    | '{' :: '{' :: rest => readPieces fuel rest ('{' :: text)
    | ['{'] => ([], some .singleOpening)
    | '{' :: rest =>
      match readField rest with
      | .error e => (consText text.reverse [], some e)
      | .ok (f, rest) =>
        let r := readPieces fuel rest []
        (consText text.reverse (.field f :: r.1), r.2)
    | c :: rest => readPieces fuel rest (c :: text)

/-- The pieces of a template in front of its first fault, and that fault. -/
def pieces (cs : List Char) : List Piece × Option TemplateFault :=
  readPieces (cs.length + 1) cs []

/-! ### Names of fields -/

/-- Where the value of a field comes from. -/
inductive Source
  | next
  | position (n : Nat)
  | named (name : String)
deriving DecidableEq, Repr

/-- One look-up in a value. -/
inductive Lookup
  | member (name : String)
  | index (n : Nat)
  | key (name : String)
deriving DecidableEq, Repr

/-- Why the name of a field cannot be read. -/
inductive NameFault
  | tooManyDigits
  | emptyLookup
  | unclosedItem
  | afterItem
  | automaticAfterManual
  | manualAfterAutomatic
deriving DecidableEq, Repr

/-- The number that a text of decimal digits writes, if it is one. -/
def readIndex (cs : List Char) : Except NameFault (Option Nat) :=
  if cs.isEmpty then .ok none
  else match readNumber 0 cs with
    | .error _ => .error .tooManyDigits
    | .ok (n, []) => .ok (some n)
    | .ok (_, _ :: _) => .ok none

/-- The part of a name in front of its first look-up, and the look-ups as they were written. -/
def splitName (cs : List Char) : List Char × List Char :=
  cs.span fun c => c != '[' && c != '.'

/-- Where the value of a field with that first part of a name comes from. -/
def readSource (first : List Char) : Except NameFault Source := do
  match ← readIndex first with
  | some n => return .position n
  | none => return if first.isEmpty then .next else .named (String.ofList first)

/-- The first look-up in what follows the first part of a name, and the rest. -/
def readLookup (cs : List Char) : Except NameFault (Lookup × List Char) :=
  match cs with
  | '.' :: rest =>
    let (name, rest) := splitName rest
    if name.isEmpty then .error .emptyLookup
    else .ok (.member (String.ofList name), rest)
  | '[' :: rest =>
    match toBracket rest with
    | (_, []) => .error .unclosedItem
    | (name, _ :: rest) => do
      match ← readIndex name with
      | some n => return (.index n, rest)
      | none =>
        if name.isEmpty then .error .emptyLookup
        else return (.key (String.ofList name), rest)
  | _ => .error .afterItem

/-! ### Messages -/

/-- The message of a fault in a template. -/
def TemplateFault.message : TemplateFault → String
  | .singleOpening => "Single '\x7b' encountered in format string"
  | .singleClosing => "Single '\x7d' encountered in format string"
  | .openingInName => "unexpected '\x7b' in field name"
  | .unfinishedField => "expected '\x7d' before end of string"
  | .unfinishedConversion => "end of string while looking for conversion specifier"
  | .unfinishedLayout => "unmatched '\x7b' in format spec"
  | .afterConversion => "expected ':' after conversion specifier"

/-- The message of a fault in the name of a field. -/
def NameFault.message : NameFault → String
  | .tooManyDigits => "Too many decimal digits in format string"
  | .emptyLookup => "Empty attribute in format string"
  | .unclosedItem => "Missing ']' in format string"
  | .afterItem => "Only '.' or '[' may follow ']' in format field specifier"
  | .automaticAfterManual =>
    "cannot switch from manual field specification to automatic field numbering"
  | .manualAfterAutomatic =>
    "cannot switch from automatic field numbering to manual field specification"

end EffectHandlers.Text
