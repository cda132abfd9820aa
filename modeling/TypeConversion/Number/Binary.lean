/-!
# Binary floating-point numbers

Numbers of the two interchange formats binary32 and binary64, kept as their bits.  Every finite
number is `± m · 2 ^ e` with natural `m`, and all operations are exact arithmetic on `m` and `e`
followed by at most one rounding to the nearest number of the format, ties to the even one.
-/

namespace TypeConversion

/-- An interchange format: the widths of the fraction and of the exponent field. -/
structure BinaryFormat where
  fractionBits : Nat
  exponentBits : Nat
deriving DecidableEq, Repr

namespace BinaryFormat

def binary32 : BinaryFormat := ⟨23, 8⟩
def binary64 : BinaryFormat := ⟨52, 11⟩

/-- All bits of a number: sign, exponent and fraction. -/
def width (fmt : BinaryFormat) : Nat := 1 + fmt.exponentBits + fmt.fractionBits

/-- The exponent of the unit in the last place of the smallest numbers. -/
def lowestExponent (fmt : BinaryFormat) : Int :=
  2 - (Nat.pow 2 (fmt.exponentBits - 1) : Int) - fmt.fractionBits

/-- The bits of infinity without its sign: all exponent bits are set. -/
def infinityMagnitude (fmt : BinaryFormat) : Nat :=
  (Nat.pow 2 fmt.exponentBits - 1) * Nat.pow 2 fmt.fractionBits

end BinaryFormat

/-- A floating-point number of a format, given by its bits. -/
structure Binary (fmt : BinaryFormat) where
  bits : BitVec fmt.width
deriving DecidableEq

/-- What the bits of a floating-point number stand for. -/
inductive BinaryValue where
  | nan
  | infinite (negative : Bool)
  /-- The number `± mantissa · 2 ^ exponent`. -/
  | finite (negative : Bool) (mantissa : Nat) (exponent : Int)
deriving DecidableEq, Repr

namespace Binary

variable {fmt : BinaryFormat}

/-- Sign and magnitude bits put together. -/
def ofMagnitude (fmt : BinaryFormat) (negative : Bool) (magnitude : Nat) : Binary fmt :=
  ⟨BitVec.ofNat fmt.width
    (magnitude + if negative then Nat.pow 2 (fmt.exponentBits + fmt.fractionBits) else 0)⟩

def zero (fmt : BinaryFormat) (negative : Bool) : Binary fmt := ofMagnitude fmt negative 0

def infinity (fmt : BinaryFormat) (negative : Bool) : Binary fmt :=
  ofMagnitude fmt negative fmt.infinityMagnitude

def nan (fmt : BinaryFormat) : Binary fmt :=
  ofMagnitude fmt false (fmt.infinityMagnitude + Nat.pow 2 (fmt.fractionBits - 1))

/-- Whether the sign bit is set. -/
def isNegative (x : Binary fmt) : Bool :=
  Nat.pow 2 (fmt.exponentBits + fmt.fractionBits) ≤ x.bits.toNat

/-- The bits below the sign. -/
def magnitude (x : Binary fmt) : Nat :=
  x.bits.toNat % Nat.pow 2 (fmt.exponentBits + fmt.fractionBits)

def isNan (x : Binary fmt) : Bool := fmt.infinityMagnitude < x.magnitude

def isInfinite (x : Binary fmt) : Bool := x.magnitude = fmt.infinityMagnitude

def isFinite (x : Binary fmt) : Bool := x.magnitude < fmt.infinityMagnitude

/-- What the bits stand for. -/
def value (x : Binary fmt) : BinaryValue :=
  if x.isNan then .nan
  else if x.isInfinite then .infinite x.isNegative
  else
    let fraction := x.magnitude % Nat.pow 2 fmt.fractionBits
    let field := x.magnitude / Nat.pow 2 fmt.fractionBits
    if field = 0 then .finite x.isNegative fraction fmt.lowestExponent
    else
      .finite x.isNegative (fraction + Nat.pow 2 fmt.fractionBits)
        (fmt.lowestExponent + (field - 1 : Nat))

/-- Equality of numbers: no NaN equals anything, and both zeros are equal. -/
def equals (x y : Binary fmt) : Bool :=
  !x.isNan && !y.isNan && (x.bits = y.bits || (x.magnitude = 0 && y.magnitude = 0))

/-- The quotient of two natural numbers, rounded to the nearest one, ties to the even one. -/
def roundedQuotient (num den : Nat) : Nat :=
  let quotient := num / den
  let rest := num % den
  if 2 * rest < den then quotient
  else if den < 2 * rest then quotient + 1
  else quotient + quotient % 2

/-- The exponent `k` with `2 ^ k ≤ num / den < 2 ^ (k + 1)`, for positive `num` and `den`. -/
def floorLog2 (num den : Nat) : Int :=
  let guess : Int := (num.log2 : Int) - den.log2
  let reached := if 0 ≤ guess then den * Nat.pow 2 guess.toNat ≤ num
    else den ≤ num * Nat.pow 2 (-guess).toNat
  if reached then guess else guess - 1

/-- The number of the format nearest to `± num / den`, ties to the even one. -/
def ofRatio (fmt : BinaryFormat) (negative : Bool) (num den : Nat) : Binary fmt :=
  if num = 0 then zero fmt negative
  else
    let unit := max fmt.lowestExponent (floorLog2 num den - fmt.fractionBits)
    let mantissa :=
      if 0 ≤ unit then roundedQuotient num (den * Nat.pow 2 unit.toNat)
      else roundedQuotient (num * Nat.pow 2 (-unit).toNat) den
    let magnitude := (unit - fmt.lowestExponent).toNat * Nat.pow 2 fmt.fractionBits + mantissa
    ofMagnitude fmt negative (min magnitude fmt.infinityMagnitude)

/-- The number of the format nearest to `± mantissa · 2 ^ exponent`. -/
def ofScaled (fmt : BinaryFormat) (negative : Bool) (mantissa : Nat) (exponent : Int) :
    Binary fmt :=
  if 0 ≤ exponent then ofRatio fmt negative (mantissa * Nat.pow 2 exponent.toNat) 1
  else ofRatio fmt negative mantissa (Nat.pow 2 (-exponent).toNat)

/-- The number of the format nearest to an integer. -/
def ofInt (fmt : BinaryFormat) (n : Int) : Binary fmt :=
  ofRatio fmt (n < 0) n.natAbs 1

/-- The number in another format, rounded if that format has fewer bits. -/
def convert (fmt' : BinaryFormat) (x : Binary fmt) : Binary fmt' :=
  match x.value with
  | .nan => nan fmt'
  | .infinite negative => infinity fmt' negative
  | .finite negative mantissa exponent => ofScaled fmt' negative mantissa exponent

/-- The integral part: a finite number without what follows the point. -/
def truncated? (x : Binary fmt) : Option Int :=
  match x.value with
  | .finite negative mantissa exponent =>
    let size : Nat :=
      if 0 ≤ exponent then mantissa * Nat.pow 2 exponent.toNat
      else mantissa / Nat.pow 2 (-exponent).toNat
    some (if negative then -(size : Int) else size)
  | _ => none

/-- The integer that a finite number is, if it has no fraction. -/
def integral? (x : Binary fmt) : Option Int :=
  match x.value with
  | .finite negative mantissa exponent =>
    let whole : Option Nat :=
      if 0 ≤ exponent then some (mantissa * Nat.pow 2 exponent.toNat)
      else if mantissa % Nat.pow 2 (-exponent).toNat = 0 then
        some (mantissa / Nat.pow 2 (-exponent).toNat)
      else none
    whole.map fun size => if negative then -(size : Int) else size
  | _ => none

theorem equals_symm (x y : Binary fmt) : x.equals y = y.equals x := by
  simp only [equals, eq_comm (a := x.bits)]
  cases x.isNan <;> cases y.isNan <;> simp [Bool.and_comm]

end Binary

/-- Single precision. -/
abbrev Binary32 := Binary .binary32

/-- Double precision. -/
abbrev Binary64 := Binary .binary64

end TypeConversion
