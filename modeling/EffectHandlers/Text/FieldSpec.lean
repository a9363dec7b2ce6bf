/-
EffectHandlers/Text/FieldSpec.lean

How one field of a template is laid out.

A layout is written `[[fill]align][sign][z][#][0][width][, or _][.precision][type]`.
`FieldSpec.read` reads it, and `FieldSpec.layText` and `FieldSpec.layInt`
lay out a text and an integer by it.  What a layout may ask for depends on
the kind of value: a text has no sign and no digits, an integer no
precision.

The places that a layout fills are counted in characters.  With zeros
between the sign and the digits, the zeros belong to the digits and are
grouped with them.
-/
import EffectHandlers.Text.Decimal
import EffectHandlers.Text.Quoted

namespace EffectHandlers.Text

/-! ### Layouts -/

/-- Where the filling goes. -/
inductive Align
  | left | right | center | inside
deriving DecidableEq, Repr

/-- Which mark a number that is not negative gets. -/
inductive SignRule
  | plus | minus | space
deriving DecidableEq, Repr

/-- A layout as it was written. -/
structure FieldSpec where
  fill : Char
  align : Align
  sign : Option SignRule
  zeroCoerced : Bool
  alternate : Bool
  width : Nat
  separator : Option Char
  precision : Option Nat
  type : Char
deriving DecidableEq, Repr

/-- Why a layout cannot be read or does not fit the value. -/
inductive SpecFault
  | tooManyDigits
  | twoSeparators
  | missingPrecision
  | malformed (spec : String)
  | separatorWithType (separator type : Char)
  | unknownType (type : Char)
  | textSign | textSpace | textZero | textAlternate | textInside
  | intPrecision | intZero | charSign | charAlternate | charRange | charTooLarge
  | tooLong
deriving DecidableEq, Repr

/-! ### Reading a layout -/

/-- The value of a decimal digit. -/
def digitValue? (c : Char) : Option Nat :=
  if '0' ≤ c ∧ c ≤ '9' then some (c.toNat - '0'.toNat) else none

/-- The largest number that a template may write. -/
def largestNumber : Nat := 9223372036854775807

/-- The number at the front of a text and what follows it; too long a number is a fault. -/
def readNumber : Nat → List Char → Except SpecFault (Nat × List Char)
  | n, [] => .ok (n, [])
  | n, c :: cs =>
    match digitValue? c with
    | none => .ok (n, c :: cs)
    | some d =>
      if (largestNumber - d) / 10 < n then .error .tooManyDigits else readNumber (10 * n + d) cs

/-- The alignment that a character stands for. -/
def alignOf? : Char → Option Align
  | '<' => some .left
  | '>' => some .right
  | '^' => some .center
  | '=' => some .inside
  | _ => none

/-- The sign rule that a character stands for. -/
def signOf? : Char → Option SignRule
  | '+' => some .plus
  | '-' => some .minus
  | ' ' => some .space
  | _ => none

/-- Drop a character from the front if it is there. -/
def dropFlag (c : Char) : List Char → Bool × List Char
  | [] => (false, [])
  | x :: xs => if x = c then (true, xs) else (false, x :: xs)

/-- The fill and the alignment at the front of a layout. -/
def readAlign (cs : List Char) : Option Char × Option Align × List Char :=
  match cs with
  | f :: a :: rest =>
    match alignOf? a with
    | some al => (some f, some al, rest)
    | none =>
      match alignOf? f with
      | some al => (none, some al, a :: rest)
      | none => (none, none, cs)
  | [a] =>
    match alignOf? a with
    | some al => (none, some al, [])
    | none => (none, none, cs)
  | [] => (none, none, cs)

/-- The separator of groups at the front of the rest of a layout. -/
def readSeparator (cs : List Char) : Except SpecFault (Option Char × List Char) :=
  match cs with
  | ',' :: '_' :: _ => .error .twoSeparators
  | '_' :: ',' :: _ => .error .twoSeparators
  | ',' :: rest => .ok (some ',', rest)
  | '_' :: rest => .ok (some '_', rest)
  | _ => .ok (none, cs)

/-- The precision at the front of the rest of a layout. -/
def readPrecision (cs : List Char) : Except SpecFault (Option Nat × List Char) :=
  match cs with
  | '.' :: rest =>
    match rest with
    | [] => .error .missingPrecision
    | c :: _ =>
      if (digitValue? c).isSome then
        (readNumber 0 rest).map fun p => (some p.1, p.2)
      else .error .missingPrecision
  | _ => .ok (none, cs)

/-- Whether groups may be separated in the digits of a type. -/
def separatorFits (separator type : Char) : Bool :=
  ['d', 'e', 'f', 'g', 'E', 'G', '%', 'F'].contains type ||
    separator == '_' && ['b', 'o', 'x', 'X'].contains type

/-- Read a layout, given the alignment and the type that hold where it names none. -/
def FieldSpec.read (defaultAlign : Align) (defaultType : Char) (spec : List Char) :
    Except SpecFault FieldSpec := do
  let (fill, align, cs) := readAlign spec
  let (sign, cs) : Option SignRule × List Char :=
    match cs with
    | [] => (none, [])
    | c :: rest =>
      match signOf? c with
      | some s => (some s, rest)
      | none => (none, c :: rest)
  let (zeroCoerced, cs) := dropFlag 'z' cs
  let (alternate, cs) := dropFlag '#' cs
  let (zero, cs) := if fill.isNone then dropFlag '0' cs else (false, cs)
  let (width, cs) ← readNumber 0 cs
  let (separator, cs) ← readSeparator cs
  let (precision, cs) ← readPrecision cs
  let type ← match cs with
    | [] => .ok defaultType
    | [t] => .ok t
    | _ => .error (.malformed (String.ofList spec))
  match separator with
  | some s => if separatorFits s type then pure () else .error (.separatorWithType s type)
  | none => pure ()
  return {
    fill := fill.getD (if zero then '0' else ' ')
    align := align.getD (if zero && defaultAlign == .right then .inside else defaultAlign)
    sign, zeroCoerced, alternate, width, separator, precision, type }

/-! ### Filling -/

/-- Characters between filling on both sides, to a width.  An odd place goes to the right, and
filling inside goes in front of characters that have no sign. -/
def filled (spec : FieldSpec) (cs : List Char) : List Char :=
  let missing := spec.width - cs.length
  match spec.align with
  | .left => cs ++ List.replicate missing spec.fill
  | .right | .inside => List.replicate missing spec.fill ++ cs
  | .center =>
    List.replicate (missing / 2) spec.fill ++ cs
      ++ List.replicate (missing - missing / 2) spec.fill

/-! ### Texts -/

/-- A text laid out. -/
def FieldSpec.layText (spec : FieldSpec) (s : List Char) : Except SpecFault (List Char) :=
  if spec.type ≠ 's' then .error (.unknownType spec.type)
  else if spec.sign = some .space then .error .textSpace
  else if spec.sign.isSome then .error .textSign
  else if spec.zeroCoerced then .error .textZero
  else if spec.alternate then .error .textAlternate
  else if spec.align = .inside then .error .textInside
  else .ok (filled spec (match spec.precision with
    | some p => s.take p
    | none => s))

/-! ### Integers -/

/-- Digits, least significant first, with a separator after every group but the last; `k` places
of the current group are free. -/
def separated (separator : Char) (size : Nat) : Nat → List Char → List Char
  | _, [] => []
  | 0, d :: ds => separator :: d :: separated separator size (size - 1) ds
  | k + 1, d :: ds => d :: separated separator size k ds

/-- Digits filled with zeros to a width, in groups if there is a separator.  Of `size + 1` places
`size` hold digits, and no width ends with a separator. -/
def wideDigits (separator : Option Char) (size width : Nat) (digits : List Char) : List Char :=
  match separator with
  | none => List.replicate (width - digits.length) '0' ++ digits
  | some s =>
    let places := width - (width - 1) / (size + 1)
    let padded := List.replicate (places - digits.length) '0' ++ digits
    (separated s size size padded.reverse).reverse

/-- The base of a type of integer and the letter that marks it. -/
def baseOf? : Char → Option (Nat × List Char)
  | 'd' => some (10, [])
  | 'n' => some (10, [])
  | 'b' => some (2, ['0', 'b'])
  | 'o' => some (8, ['0', 'o'])
  | 'x' => some (16, ['0', 'x'])
  | 'X' => some (16, ['0', 'X'])
  | _ => none

/-- The mark of a number. -/
def signMark (rule : Option SignRule) (negative : Bool) : List Char :=
  if negative then ['-']
  else match rule with
    | some .plus => ['+']
    | some .space => [' ']
    | some .minus | none => []

/-- The character of a code, laid out. -/
def FieldSpec.layChar (spec : FieldSpec) (n : Int) : Except SpecFault (List Char) :=
  if spec.sign.isSome then .error .charSign
  else if spec.alternate then .error .charAlternate
  else if n < -9223372036854775808 ∨ (largestNumber : Int) < n then .error .charTooLarge
  else if n < 0 ∨ 0x10ffff < n then .error .charRange
  else .ok (filled spec [Char.ofNat n.toNat])

/-- An integer laid out. -/
def FieldSpec.layInt (spec : FieldSpec) (n : Int) : Except SpecFault (List Char) :=
  if spec.type ≠ 'c' ∧ (baseOf? spec.type).isNone then .error (.unknownType spec.type)
  else if spec.precision.isSome then .error .intPrecision
  else if spec.zeroCoerced then .error .intZero
  else match baseOf? spec.type with
    | none => spec.layChar n
    | some (base, mark) =>
      -- Only the decimal digits are bounded.
      if base = 10 ∧ isTooLong n then .error .tooLong else
      let digits := Nat.toDigits base n.natAbs
      let digits := if spec.type = 'X' then digits.map Char.toUpper else digits
      let lead := signMark spec.sign (n < 0) ++ (if spec.alternate then mark else [])
      -- Zeros between the sign and the digits are digits and are grouped with them.
      let wide := if spec.fill = '0' ∧ spec.align = .inside then spec.width - lead.length else 0
      let body := wideDigits spec.separator (if base = 10 then 3 else 4) wide digits
      match spec.align with
      | .inside =>
        .ok (lead ++ List.replicate (spec.width - (lead.length + body.length)) spec.fill ++ body)
      | .left | .right | .center => .ok (filled spec (lead ++ body))

/-! ### Messages -/

/-- A character inside a message: itself if it is a visible ASCII character, else its code. -/
def shownCode (c : Char) : String :=
  if 32 < c.toNat ∧ c.toNat < 128 then String.singleton c
  else "\\x" ++ String.ofList (Nat.toDigits 16 c.toNat)

/-- The message of a fault, for a value of the type of that name. -/
def SpecFault.message (typeName : String) : SpecFault → String
  | .tooManyDigits => "Too many decimal digits in format string"
  | .twoSeparators => "Cannot specify both ',' and '_'."
  | .missingPrecision => "Format specifier missing precision"
  | .malformed spec =>
    "Invalid format specifier '" ++ spec ++ "' for object of type '" ++ typeName ++ "'"
  | .separatorWithType s t =>
    "Cannot specify '" ++ String.singleton s ++ "' with '" ++ shownCode t ++ "'."
  | .unknownType t =>
    "Unknown format code '" ++ shownCode t ++ "' for object of type '" ++ typeName ++ "'"
  | .textSign => "Sign not allowed in string format specifier"
  | .textSpace => "Space not allowed in string format specifier"
  | .textZero => "Negative zero coercion (z) not allowed in string format specifier"
  | .textAlternate => "Alternate form (#) not allowed in string format specifier"
  | .textInside => "'=' alignment not allowed in string format specifier"
  | .intPrecision => "Precision not allowed in integer format specifier"
  | .intZero => "Negative zero coercion (z) not allowed in integer format specifier"
  | .charSign => "Sign not allowed with integer format specifier 'c'"
  | .charAlternate => "Alternate form (#) not allowed with integer format specifier 'c'"
  | .charRange => "%c arg not in range(0x110000)"
  | .charTooLarge => "Python int too large to convert to C long"
  | .tooLong => tooLongMessage

end EffectHandlers.Text
