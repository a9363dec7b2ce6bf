/-
EffectHandlers/Text/Decimal.lean

Integers in decimal digits.

Turning a long integer into digits takes time that grows with the square
of its length, so an integer is not written if it has too many of them.
-/

namespace EffectHandlers.Text

/-- The number of decimal digits that an integer is written with at most. -/
def mostDigits : Nat := 4300

/-- Whether an integer has more decimal digits than are written; its sign does not count. -/
def isTooLong (n : Int) : Bool := mostDigits < (Nat.toDigits 10 n.natAbs).length

/-- What is said of an integer that is too long to be written. -/
def tooLongMessage : String :=
  "Exceeds the limit (" ++ toString mostDigits ++ " digits) for integer string conversion; "
    ++ "use sys.set_int_max_str_digits() to increase the limit"

end EffectHandlers.Text
