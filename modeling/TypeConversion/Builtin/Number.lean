import TypeConversion.Text.Blank
import TypeConversion.Conversion.Converter

/-!
# Numbers, truth values and characters

The converters from strings to scalars, and between numbers.

An integral target takes exactly the number it is given or refuses it; a floating-point number loses
what follows its point on the way.  A floating-point target takes the nearest number it has.
-/

namespace TypeConversion

/-- The kinds of numbers. -/
inductive NumericKind where
  | byte
  | short
  | int
  | long
  | float
  | double
deriving DecidableEq, Repr

namespace NumericKind

/-- The kinds with their boxing classes. -/
def boxes (r : Registry) : List (ClassId × NumericKind) :=
  [(r.wellKnown.byte, byte), (r.wellKnown.short, short), (r.wellKnown.integer, int),
   (r.wellKnown.long, long), (r.wellKnown.float, float), (r.wellKnown.double, double)]

/-- The kind of number that an erasure holds, primitive or boxed. -/
def ofErasure? (r : Registry) (e : Erasure) : Option NumericKind :=
  (r.boxed e).asClass?.bind fun c => (boxes r).lookup c

end NumericKind

/-- A number with its shape left out: an integer, or a double-precision number. -/
inductive AnyNumber where
  | integral (value : Int)
  | floating (value : Binary64)

namespace AnyNumber

/-- The number that a value is. -/
def ofValue? : Value → Option AnyNumber
  | .byte n => some (integral n.toInt)
  | .short n => some (integral n.toInt)
  | .int n => some (integral n.toInt)
  | .long n => some (integral n.toInt)
  | .float x => some (floating (x.convert .binary64))
  | .double x => some (floating x)
  | _ => none

/-- The integer that is left of a number, if it is among those of 64 bits. -/
def toInteger? (n : AnyNumber) : Option Int :=
  let whole := match n with
    | integral n => some n
    | floating x => x.truncated?
  whole.filter (IntegerRange.signed 64).contains

/-- The nearest double-precision number. -/
def toDouble : AnyNumber → Binary64
  | integral n => .ofInt .binary64 n
  | floating x => x

end AnyNumber

namespace NumericKind

/-- The range of an integral kind. -/
def range? : NumericKind → Option IntegerRange
  | byte => some (.signed 8)
  | short => some (.signed 16)
  | int => some (.signed 32)
  | long => some (.signed 64)
  | float | double => none

/-- The value of a kind for an integer in its range. -/
def ofInteger : NumericKind → Int → Value
  | byte, n => .byte (.ofInt n)
  | short, n => .short (.ofInt n)
  | int, n => .int (.ofInt n)
  | long, n => .long (.ofInt n)
  | float, n => .float (.ofInt .binary32 n)
  | double, n => .double (.ofInt .binary64 n)

/-- The number as a value of the kind, unless the kind cannot hold it. -/
def ofNumber? (kind : NumericKind) (n : AnyNumber) : Option Value :=
  match kind, kind.range? with
  | .float, _ => some (.float (n.toDouble.convert .binary32))
  | .double, _ => some (.double n.toDouble)
  | kind, some range => (n.toInteger?.filter range.contains).map kind.ofInteger
  | _, none => none

/-- Reads a number of the kind, or tells why there is none. -/
def read (kind : NumericKind) (text : String) : Except String Value :=
  match kind, kind.range? with
  | .float, _ =>
    match readBinary .binary32 text.toList with
    | some x => .ok (.float x)
    | none => .error "invalid float literal"
  | .double, _ =>
    match readBinary .binary64 text.toList with
    | some x => .ok (.double x)
    | none => .error "invalid float literal"
  | kind, some range =>
    match readInteger range text.toList with
    | .ok n => .ok (kind.ofInteger n)
    | .error fault => .error fault.message
  | _, none => .error "invalid float literal"

end NumericKind

namespace Builtin

/-- Runs a function on a value that is there; null stays null. -/
def onValue (value : Option Value) (f : Value → Attempt (Option Value)) : Attempt (Option Value) :=
  match value with
  | none => pure none
  | some value => f value

/-- Runs a function on the text of a string; null stays null, and other values are refused. -/
def onText (ctx : ConversionContext) (name : String) (value : Option Value)
    (target : TypeDescriptor) (f : Value → String → Attempt (Option Value)) :
    Attempt (Option Value) :=
  onValue value fun value =>
    match value.asText? with
    | some text => f value text
    | none => Converter.mismatch ctx name value target

/-- From strings to the boxes of numbers.  A blank text gives null. -/
def stringToNumber (r : Registry) : Converter where
  name := "StringToNumber"
  pairs := some ((NumericKind.boxes r).map fun (box, _) =>
    ⟨.ofClass r.wellKnown.string, .ofClass box⟩)
  condition := none
  run ctx value _ target :=
    onText ctx "StringToNumber" value target fun value text =>
      let text := trimmed text
      if text.isEmpty then pure none
      else
        match NumericKind.ofErasure? target.registry target.erasure with
        | none => Converter.mismatch ctx "StringToNumber" value target
        | some kind =>
          match kind.read text with
          | .ok number => pure (some number)
          | .error reason => Converter.invalid ctx text target reason

/-- From strings to truth values: `true` in any case is true, and any other text is false. -/
def stringToBoolean (r : Registry) : Converter where
  name := "StringToBoolean"
  pairs := some [⟨.ofClass r.wellKnown.string, .ofClass r.wellKnown.boolean⟩]
  condition := none
  run ctx value _ target :=
    onText ctx "StringToBoolean" value target fun _ text =>
      let text := trimmed text
      if text.isEmpty then pure none
      else pure (some (.boolean (lowered text.toList = "true".toList)))

/-- From strings to characters: a number is a code point, any other text a single character. -/
def stringToCharacter (r : Registry) : Converter where
  name := "StringToCharacter"
  pairs := some [⟨.ofClass r.wellKnown.string, .ofClass r.wellKnown.character⟩]
  condition := none
  run ctx value _ target :=
    onText ctx "StringToCharacter" value target fun _ text =>
      if text.isEmpty then pure none
      else
        match readInteger (.unsigned 32) (trimmed text).toList with
        | .ok code =>
          if h : code.toNat.isValidChar then
            pure (some (.char (Char.ofNatAux code.toNat h)))
          else Converter.invalid ctx text target "not a valid code point"
        | .error _ =>
          match text.toList with
          | [c] => pure (some (.char c))
          | _ => Converter.invalid ctx text target "expected a single character"

/-- Between numbers of two different kinds. -/
def numberToNumber (r : Registry) : Converter where
  name := "NumberToNumber"
  pairs := some [⟨.ofClass r.wellKnown.number, .ofClass r.wellKnown.number⟩]
  condition := some fun _ source target =>
    let r := target.registry
    match NumericKind.ofErasure? r source.erasure, NumericKind.ofErasure? r target.erasure with
    | some kind, some kind' => some (kind ≠ kind')
    | _, _ => some false
  run ctx value _ target :=
    onValue value fun value =>
      match AnyNumber.ofValue? value,
          NumericKind.ofErasure? target.registry target.erasure with
      | some number, some kind =>
        match kind.ofNumber? number with
        | some result => pure (some result)
        | none => Converter.invalid ctx value.text target "out of range"
      | _, _ => Converter.mismatch ctx "NumberToNumber" value target

end Builtin

end TypeConversion
