import TypeConversion.Number.Integer
import TypeConversion.Number.Binary

/-!
# Floating-point numbers as the text of their bits

A number is written as the hexadecimal digits of all its bits, highest first and in lower case.  The
numbers that are not a number have one text in common.
-/

namespace TypeConversion

/-- The value of a hexadecimal digit in either case. -/
def hexValue? (c : Char) : Option Nat :=
  if '0' ≤ c ∧ c ≤ '9' then some (c.toNat - '0'.toNat)
  else if 'a' ≤ c ∧ c ≤ 'f' then some (c.toNat - 'a'.toNat + 10)
  else if 'A' ≤ c ∧ c ≤ 'F' then some (c.toNat - 'A'.toNat + 10)
  else none

/-- The value of a list of hexadecimal digits. -/
def hexDigitsValue? (digits : List Char) : Option Nat :=
  digits.foldlM (fun value c => (hexValue? c).map (value * 16 + ·)) 0

namespace BinaryFormat

/-- How many hexadecimal digits the bits of a number take. -/
def hexDigits (fmt : BinaryFormat) : Nat := fmt.width / 4

end BinaryFormat

namespace Binary

variable {fmt : BinaryFormat}

/-- The text of the bits. -/
def bitText (x : Binary fmt) : String :=
  if x.isNan then "nan"
  else
    let digits := Nat.toDigits 16 x.bits.toNat
    String.ofList (List.replicate (fmt.hexDigits - digits.length) '0' ++ digits)

/-- The number whose bits have a text. -/
def ofBitText? (fmt : BinaryFormat) (text : String) : Option (Binary fmt) :=
  if text = "nan" then some (nan fmt)
  else if text.length = fmt.hexDigits then
    (hexDigitsValue? text.toList).map fun bits => ⟨BitVec.ofNat _ bits⟩
  else none

end Binary

end TypeConversion
