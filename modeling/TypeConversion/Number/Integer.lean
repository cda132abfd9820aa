/-!
# Integers as decimal text

An integer is written as its digits, with a minus sign in front when it is negative.  It is read
back from an optional sign and at least one digit, within the range of the type that will hold it.

Reading stops at the first fault, from left to right: a character that is not a digit, or a digit
with which the number leaves the range.
-/

namespace TypeConversion

/-- The decimal text of a natural number. -/
def natText (n : Nat) : String :=
  String.ofList (Nat.toDigits 10 n)

/-- The decimal text of an integer, with a minus sign when it is negative. -/
def integerText (n : Int) : String :=
  if n < 0 then "-" ++ natText n.natAbs else natText n.natAbs

/-- The value of a decimal digit. -/
def digitValue? (c : Char) : Option Nat :=
  if c.isDigit then some (c.toNat - '0'.toNat) else none

/-- Why a text is not an integer of the wanted range. -/
inductive IntegerFault where
  | invalidDigit
  | tooLarge
  | tooSmall
deriving DecidableEq, Repr

namespace IntegerFault

def message : IntegerFault → String
  | invalidDigit => "invalid digit found in string"
  | tooLarge => "number too large to fit in target type"
  | tooSmall => "number too small to fit in target type"

end IntegerFault

/-- The range of an integral type. -/
structure IntegerRange where
  lowest : Int
  highest : Int

namespace IntegerRange

/-- The signed integers of a number of bits. -/
def signed (bits : Nat) : IntegerRange :=
  ⟨-Nat.pow 2 (bits - 1), Nat.pow 2 (bits - 1) - 1⟩

/-- The unsigned integers of a number of bits. -/
def unsigned (bits : Nat) : IntegerRange :=
  ⟨0, Nat.pow 2 bits - 1⟩

def contains (range : IntegerRange) (n : Int) : Bool :=
  range.lowest ≤ n && n ≤ range.highest

end IntegerRange

/-- Goes on reading digits after those that gave `value`, upwards or, after a minus sign, down. -/
def readDigits (range : IntegerRange) (negative : Bool) :
    Int → List Char → Except IntegerFault Int
  | value, [] => .ok value
  | value, c :: rest =>
    match digitValue? c with
    | none => .error .invalidDigit
    | some digit =>
      if negative then
        let next := value * 10 - digit
        if range.lowest ≤ next then readDigits range negative next rest else .error .tooSmall
      else
        let next := value * 10 + digit
        if next ≤ range.highest then readDigits range negative next rest else .error .tooLarge

/--
Reads an integer of the range.  A plus sign is allowed, a minus sign only where the range has
negative numbers, and a sign without digits is an invalid digit.
-/
def readInteger (range : IntegerRange) : List Char → Except IntegerFault Int
  | [] => .error .invalidDigit
  | ['+'] => .error .invalidDigit
  | ['-'] => .error .invalidDigit
  | '+' :: digits => readDigits range false 0 digits
  | '-' :: digits =>
    if range.lowest < 0 then readDigits range true 0 digits else .error .invalidDigit
  | digits => readDigits range false 0 digits

end TypeConversion
