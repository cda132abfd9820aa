import TypeConversion.Value.Text
import TypeConversion.Config.Document
import TypeConversion.Conversion.Descriptor
import TypeConversion.Conversion.Error

/-!
# Converters

A converter turns values of one type into values of another.  It declares the pairs of erasures it
is for, or none, and may have a condition on the descriptors; one without pairs is only found by its
condition.

A converter may call back into the service that runs it, to convert elements or to ask whether they
can be converted.  What it may call is handed to it as a context, so that converters are plain
records of functions.
-/

namespace TypeConversion

/-- A conversion that may fail, and may be cut off at a limit. -/
abbrev Attempt (α : Type) : Type := ExceptT ConversionError Option α

namespace Attempt

/-- The outcome of a walk as an attempt that does not fail. -/
def ofWalk {α : Type} (w : Walk α) : Attempt α := ExceptT.mk (w.map .ok)

/-- The result of something that may fail. -/
def ofExcept {α : Type} (e : Except ConversionError α) : Attempt α := ExceptT.mk (some e)

end Attempt

/-- A pair of erasures that a converter is registered for. -/
structure ConvertiblePair where
  source : Erasure
  target : Erasure
deriving DecidableEq, Repr

/-- What a converter may use of the service that runs it. -/
structure ConversionContext where
  registry : Registry
  config : ConversionConfig
  /-- How deep walks over nodes may go. -/
  limit : Nat
  /-- Whether the service converts from the first type, null if absent, to the second. -/
  canConvert : Option TypeDescriptor → TypeDescriptor → Walk Bool
  /-- Converts a value described by the first type, or by its run-time type, to the second. -/
  convert : Option Value → Option TypeDescriptor → TypeDescriptor → Attempt (Option Value)

/-- A condition of a converter on the types of source and target. -/
abbrev ConverterCondition : Type :=
  ConversionContext → TypeDescriptor → TypeDescriptor → Walk Bool

/-- A converter. -/
structure Converter where
  name : String
  pairs : Option (List ConvertiblePair)
  condition : Option ConverterCondition
  /-- Converts a value, null if absent, from the first type to the second. -/
  run : ConversionContext → Option Value → TypeDescriptor → TypeDescriptor →
    Attempt (Option Value)

namespace Converter

/-- Whether a converter takes the types: it does if it has no condition or the condition holds. -/
def accepts (c : Converter) (ctx : ConversionContext) (source target : TypeDescriptor) :
    Walk Bool :=
  match c.condition with
  | none => some true
  | some condition => condition ctx source target

/-- Hands on the value that it is given. -/
def passThrough : Converter where
  name := "NO_OP"
  pairs := none
  condition := none
  run _ value _ _ := pure value

/-- A converter of values of one pair that leaves null alone. -/
def ofFunction (name : String) (pair : ConvertiblePair) (f : Value → Except ConversionError
    (Option Value)) : Converter where
  name := name
  pairs := some [pair]
  condition := none
  run _ value _ _ :=
    match value with
    | none => pure none
    | some value => Attempt.ofExcept (f value)

/-- The failure of a converter that got a value it is not for. -/
def mismatch {α : Type} (ctx : ConversionContext) (name : String) (found : Value)
    (target : TypeDescriptor) : Attempt α := do
  let text ← Attempt.ofWalk (target.display ctx.limit)
  throw (.typeMismatch name found.kind text)

/-- The failure of a converter on a value it is for. -/
def invalid {α : Type} (ctx : ConversionContext) (value : String) (target : TypeDescriptor)
    (reason : String) : Attempt α := do
  let text ← Attempt.ofWalk (target.display ctx.limit)
  throw (.invalidValue value text reason)

end Converter

end TypeConversion
