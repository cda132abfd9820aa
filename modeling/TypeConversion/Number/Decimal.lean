import TypeConversion.Number.Integer
import TypeConversion.Number.Binary

/-!
# Floating-point numbers as decimal text

A number is written with the fewest significant digits that read back as the same number.  Among
decimals of that length in the interval of reals that round to it, the nearest is taken, and of two
equally near ones the larger.

Reading takes an optional sign, then digits with an optional point and an optional exponent, or one
of the words `inf`, `infinity` and `nan` in any case, and rounds once.
-/

namespace TypeConversion

/-- The decimal `digits · 10 ^ exponent`. -/
structure Decimal where
  digits : Nat
  exponent : Int
deriving DecidableEq, Repr

/--
The interval of reals that round to `mantissa · 2 ^ exponent`, as numerators over one common
denominator.  Its ends belong to it exactly when the mantissa is even.
-/
structure RoundingInterval where
  low : Nat
  middle : Nat
  high : Nat
  denominator : Nat
  closed : Bool
deriving Repr

namespace RoundingInterval

/--
The interval of a positive finite number.  Below the least mantissa of a binary order the numbers
lie half as far apart, except at the bottom of the format.
-/
def ofScaled (fmt : BinaryFormat) (mantissa : Nat) (exponent : Int) : RoundingInterval :=
  let narrow := mantissa = Nat.pow 2 fmt.fractionBits ∧ fmt.lowestExponent < exponent
  let scale : Nat := if 0 ≤ exponent then Nat.pow 2 exponent.toNat else 1
  let denominator : Nat := if 0 ≤ exponent then 4 else 4 * Nat.pow 2 (-exponent).toNat
  { low := (4 * mantissa - if narrow then 1 else 2) * scale
    middle := 4 * mantissa * scale
    high := (4 * mantissa + 2) * scale
    denominator := denominator
    closed := mantissa % 2 = 0 }

/-- Whether `num / den` lies in the interval. -/
def contains (i : RoundingInterval) (num den : Nat) : Bool :=
  if i.closed then
    i.low * den ≤ num * i.denominator && num * i.denominator ≤ i.high * den
  else
    i.low * den < num * i.denominator && num * i.denominator < i.high * den

/-- The decimal in the interval on the grid of multiples of `10 ^ exponent`, if there is one. -/
def onGrid (i : RoundingInterval) (exponent : Int) : Option Decimal :=
  let up : Nat := if 0 ≤ exponent then Nat.pow 10 exponent.toNat else 1
  let down : Nat := if 0 ≤ exponent then 1 else Nat.pow 10 (-exponent).toNat
  let below := i.middle * down / (i.denominator * up)
  let above := below + 1
  let hasBelow := i.contains (below * up) down
  let hasAbove := i.contains (above * up) down
  let nearerBelow :=
    2 * (i.middle * down) < (below + above) * up * i.denominator
  if hasBelow && (!hasAbove || nearerBelow) then some ⟨below, exponent⟩
  else if hasAbove then some ⟨above, exponent⟩
  else none

/-- The first grid that has a decimal in the interval, going from coarse to fine. -/
def search (i : RoundingInterval) : Nat → Int → Decimal
  | 0, exponent => ⟨0, exponent⟩
  | tries + 1, exponent => (i.onGrid exponent).getD (search i tries (exponent - 1))

end RoundingInterval

/-- The decimal without trailing zeros in its digits; zero keeps its exponent. -/
def Decimal.normalized : Nat → Decimal → Decimal
  | 0, d => d
  | steps + 1, d =>
    if d.digits ≠ 0 ∧ d.digits % 10 = 0 then
      Decimal.normalized steps ⟨d.digits / 10, d.exponent + 1⟩
    else d

/-- The shortest decimal that reads back as a positive finite number. -/
def shortestDecimal (fmt : BinaryFormat) (mantissa : Nat) (exponent : Int) : Decimal :=
  let i := RoundingInterval.ofScaled fmt mantissa exponent
  let start : Int := (Nat.toDigits 10 (i.high / i.denominator)).length
  let start := if i.denominator ≤ i.high then start
    else 1 - (Nat.toDigits 10 (i.denominator / i.high)).length
  (i.search 32 (start + 1)).normalized 400

/-- The decimal written out with a point where its exponent asks for one, never with `e`. -/
def Decimal.positional (d : Decimal) : String :=
  let digits := Nat.toDigits 10 d.digits
  if 0 ≤ d.exponent then
    String.ofList (digits ++ List.replicate d.exponent.toNat '0')
  else
    let places := (-d.exponent).toNat
    let padded := List.replicate (places + 1 - digits.length) '0' ++ digits
    let whole := padded.length - places
    String.ofList (padded.take whole ++ '.' :: padded.drop whole)

/-- The decimal with one digit before the point and an exponent of ten. -/
def Decimal.scientific (d : Decimal) : String :=
  let digits := Nat.toDigits 10 d.digits
  let power := integerText (d.exponent + (digits.length - 1 : Nat))
  match digits with
  | [] => "0e0"
  | [digit] => String.ofList [digit] ++ "e" ++ power
  | digit :: rest => String.ofList (digit :: '.' :: rest) ++ "e" ++ power

/-- What surrounds the digits of a number: its sign and, for an integral one, a trailing `.0`. -/
def signText (negative : Bool) : String := if negative then "-" else ""

namespace Binary

variable {fmt : BinaryFormat}

/-- The bound from which on integral numbers are written without a trailing `.0`. -/
def plainBound : Nat := Nat.pow 10 16

/--
The display form.  Integral numbers below `10 ^ 16` end in `.0`; all others are the shortest digits
in positional notation, however long.
-/
def displayText (x : Binary fmt) : String :=
  match x.value with
  | .nan => "NaN"
  | .infinite negative => signText negative ++ "inf"
  | .finite negative mantissa exponent =>
    match x.integral? with
    | some n =>
      if n.natAbs < plainBound then signText negative ++ natText n.natAbs ++ ".0"
      else signText negative ++ (shortestDecimal fmt mantissa exponent).positional
    | none => signText negative ++ (shortestDecimal fmt mantissa exponent).positional

/--
The form that shows the exact number: positional from `10 ^ -4` up to below `10 ^ 16`, with a point
in any case, and scientific outside.
-/
def exactText (x : Binary fmt) : String :=
  match x.value with
  | .nan => "NaN"
  | .infinite negative => signText negative ++ "inf"
  | .finite negative mantissa exponent =>
    let large := (ofRatio fmt false plainBound 1).magnitude ≤ x.magnitude
    let small := x.magnitude < (ofRatio fmt false 1 (Nat.pow 10 4)).magnitude
    if mantissa = 0 then signText negative ++ "0.0"
    else
      let d := shortestDecimal fmt mantissa exponent
      if large || small then signText negative ++ d.scientific
      else if 0 ≤ d.exponent then signText negative ++ d.positional ++ ".0"
      else signText negative ++ d.positional

end Binary

/-- Decimal digits at the front of a text: how many, their value after `value`, and the rest. -/
def scanDigits : Nat → Nat → List Char → Nat × Nat × List Char
  | count, value, [] => (count, value, [])
  | count, value, c :: rest =>
    match digitValue? c with
    | some digit => scanDigits (count + 1) (value * 10 + digit) rest
    | none => (count, value, c :: rest)

/-- A text in lower case, where the upper case is that of the first 128 characters. -/
def lowered (cs : List Char) : List Char := cs.map Char.toLower

/-- Reads the exponent of a number: a sign and at least one digit, with nothing after them. -/
def readExponent (cs : List Char) : Option Int :=
  let (negative, digits) := match cs with
    | '-' :: rest => (true, rest)
    | '+' :: rest => (false, rest)
    | rest => (false, rest)
  match scanDigits 0 0 digits with
  | (0, _, _) => none
  | (_, value, []) => some (if negative then -(value : Int) else value)
  | _ => none

/-- Reads digits with an optional point and an optional exponent, and nothing after them. -/
def readDecimal (cs : List Char) : Option Decimal :=
  let (wholeCount, whole, rest) := scanDigits 0 0 cs
  let (count, digits, places, rest) := match rest with
    | '.' :: rest =>
      let (count, digits, rest) := scanDigits 0 whole rest
      (wholeCount + count, digits, count, rest)
    | rest => (wholeCount, whole, 0, rest)
  if count = 0 then none
  else
    match rest with
    | [] => some ⟨digits, -(places : Int)⟩
    | c :: rest =>
      if c = 'e' ∨ c = 'E' then
        (readExponent rest).map fun power => ⟨digits, power - places⟩
      else none

/-- Beyond this power of ten either way, every number of both formats is infinite or zero. -/
def decimalReach : Int := 400

/-- The number of the format nearest to a decimal. -/
def Decimal.toBinary (fmt : BinaryFormat) (negative : Bool) (d : Decimal) : Binary fmt :=
  let order : Int := d.exponent + (Nat.toDigits 10 d.digits).length
  if d.digits = 0 ∨ order < -decimalReach then Binary.zero fmt negative
  else if decimalReach < order then Binary.infinity fmt negative
  else if 0 ≤ d.exponent then
    Binary.ofRatio fmt negative (d.digits * Nat.pow 10 d.exponent.toNat) 1
  else Binary.ofRatio fmt negative d.digits (Nat.pow 10 (-d.exponent).toNat)

/-- Reads a floating-point number without its sign. -/
def readUnsignedBinary (fmt : BinaryFormat) (negative : Bool) (cs : List Char) :
    Option (Binary fmt) :=
  match readDecimal cs with
  | some d => some (d.toBinary fmt negative)
  | none =>
    let word := String.ofList (lowered cs)
    if word = "inf" ∨ word = "infinity" then some (Binary.infinity fmt negative)
    else if word = "nan" then some (Binary.nan fmt)
    else none

/-- Reads a floating-point number of the format. -/
def readBinary (fmt : BinaryFormat) : List Char → Option (Binary fmt)
  | '-' :: rest => readUnsignedBinary fmt true rest
  | '+' :: rest => readUnsignedBinary fmt false rest
  | cs => readUnsignedBinary fmt false cs

end TypeConversion
