import TypeConversion.Builtin.Number
import TypeConversion.Builtin.Text
import TypeConversion.Builtin.CollectionClass

/-!
# Elements

The converters between strings, arrays and collections.  They work element by element: whether they
apply is asked of the service for the types of the elements, and every element is converted by the
service according to its run-time type.

The elements of a string stand between delimiters; a blank string has none.

All built-in converters are listed at the end.
-/

namespace TypeConversion

/-- The rest of a text after a word that it starts with. -/
def stripWord? : List Char → List Char → Option (List Char)
  | [], cs => some cs
  | _ :: _, [] => none
  | w :: word, c :: cs => if w = c then stripWord? word cs else none

/--
The parts of a text between occurrences of a delimiter, which are found from left to right and do
not overlap.  `part` is what was read of the current part, in reverse, and `skip` is how much of the
text still belongs to the last delimiter.
-/
def splitParts (delimiter : List Char) : Nat → List Char → List Char → List (List Char)
  | _, part, [] => [part.reverse]
  | skip + 1, part, _ :: cs => splitParts delimiter skip part cs
  | 0, part, c :: cs =>
    if (stripWord? delimiter (c :: cs)).isSome then
      part.reverse :: splitParts delimiter (delimiter.length - 1) [] cs
    else splitParts delimiter 0 (c :: part) cs

/-- The parts of a text between delimiters; an empty delimiter stands around every character. -/
def splitText (delimiter text : List Char) : List (List Char) :=
  match delimiter with
  | [] => [] :: (text.map fun c => [c]) ++ [[]]
  | delimiter => splitParts delimiter 0 [] text

namespace Builtin

/--
Whether elements of one type can be converted to elements of another.  A type that is not known is
given the benefit of the doubt, and so is a source that the target would be assignable to.
-/
def canConvertElements (ctx : ConversionContext) (source target : Option TypeDescriptor) :
    Walk Bool :=
  match source, target with
  | some source, some target => do
    if ← ctx.canConvert (some source) target then return true
    else return ctx.registry.isAssignable source.erasure target.erasure
  | _, _ => some true

/-- The elements of a text. -/
def splitElements (ctx : ConversionContext) (text : String) : List String :=
  if isAllBlank text then []
  else
    (splitText ctx.config.elementDelimiter.toList text.toList).map fun part =>
      if ctx.config.trimElements then String.ofList (trimBlanks part) else String.ofList part

/-- The text of an element: what the service converts it to, or else its own text. -/
def elementString (ctx : ConversionContext) : Option Value → Attempt String
  | none => pure "null"
  | some value => do
    let string := TypeDescriptor.ofErasure ctx.registry (.ofClass ctx.registry.wellKnown.string)
    match ← ctx.convert (some value) none string with
    | some (.string text) => return text
    | some other => return other.text
    | none => return value.text

/-- The texts of elements with the delimiter between them. -/
def joinElements (ctx : ConversionContext) (elements : List (Option Value)) : Attempt String := do
  let parts ← elements.mapM (elementString ctx)
  return joinTexts ctx.config.elementDelimiter parts

/-- Elements converted to a type one by one. -/
def convertElements (ctx : ConversionContext) (target : TypeDescriptor)
    (elements : List (Option Value)) : Attempt (List (Option Value)) :=
  elements.mapM fun element => ctx.convert element none target

/-- The type of the elements of a target, without which there is no conversion. -/
def targetElement (ctx : ConversionContext) (target : TypeDescriptor) :
    Attempt TypeDescriptor := do
  match ← Attempt.ofWalk (target.element? ctx.limit) with
  | some element => return element
  | none => throw (.missingElementType (← Attempt.ofWalk (target.display ctx.limit)))

/-- The condition that the source as a whole can be converted to the elements of the target. -/
def wholeToElements : ConverterCondition := fun ctx source target => do
  canConvertElements ctx (some source) (← target.element? ctx.limit)

/-- The condition that the elements of the source can be converted to those of the target. -/
def elementsToElements : ConverterCondition := fun ctx source target => do
  canConvertElements ctx (← source.element? ctx.limit) (← target.element? ctx.limit)

/-- The class of strings. -/
def stringClass (r : Registry) : Erasure := .ofClass r.wellKnown.string

/-- The class of collections. -/
def collectionInterface (r : Registry) : Erasure := .ofClass r.wellKnown.collection

/-- The array that every array of objects is one of. -/
def anyArray (r : Registry) : Erasure := r.object.array

/-- From strings to arrays. -/
def stringToArray (r : Registry) : Converter where
  name := "StringToArray"
  pairs := some [⟨stringClass r, anyArray r⟩]
  condition := some wholeToElements
  run ctx value _ target :=
    onText ctx "StringToArray" value target fun _ text => do
      let element ← targetElement ctx target
      let parts := (splitElements ctx text).map fun part => some (.string part)
      return some (.array element.erasure (← convertElements ctx element parts))

/-- From arrays to strings. -/
def arrayToString (r : Registry) : Converter where
  name := "ArrayToString"
  pairs := some [⟨anyArray r, stringClass r⟩]
  condition := none
  run ctx value _ target :=
    onValue value fun
      | .array _ elements => do return some (.string (← joinElements ctx elements))
      | other => Converter.mismatch ctx "ArrayToString" other target

/-- From strings to collections.  Elements of no definite type stay strings. -/
def stringToCollection (r : Registry) : Converter where
  name := "StringToCollection"
  pairs := some [⟨stringClass r, collectionInterface r⟩]
  condition := some wholeToElements
  run ctx value _ target :=
    onText ctx "StringToCollection" value target fun _ text => do
      let parts := (splitElements ctx text).map fun part => some (.string part)
      let element ← targetElement ctx target
      let elements ←
        if ← Attempt.ofWalk (element.isDefinite ctx.limit) then convertElements ctx element parts
        else pure parts
      return some (← Attempt.ofExcept (ctx.registry.createCollection target.erasure elements))

/-- From collections to strings. -/
def collectionToString (r : Registry) : Converter where
  name := "CollectionToString"
  pairs := some [⟨collectionInterface r, stringClass r⟩]
  condition := none
  run ctx value _ target :=
    onValue value fun
      | .collection _ elements => do return some (.string (← joinElements ctx elements))
      | other => Converter.mismatch ctx "CollectionToString" other target

/-- From arrays to collections. -/
def arrayToCollection (r : Registry) : Converter where
  name := "ArrayToCollection"
  pairs := some [⟨anyArray r, collectionInterface r⟩]
  condition := some elementsToElements
  run ctx value _ target :=
    onValue value fun
      | .array _ elements => do
        let element ← targetElement ctx target
        let converted ← convertElements ctx element elements
        return some (← Attempt.ofExcept (ctx.registry.createCollection target.erasure converted))
      | other => Converter.mismatch ctx "ArrayToCollection" other target

/-- From collections to arrays. -/
def collectionToArray (r : Registry) : Converter where
  name := "CollectionToArray"
  pairs := some [⟨collectionInterface r, anyArray r⟩]
  condition := some elementsToElements
  run ctx value _ target :=
    onValue value fun
      | .collection _ elements => do
        let element ← targetElement ctx target
        return some (.array element.erasure (← convertElements ctx element elements))
      | other => Converter.mismatch ctx "CollectionToArray" other target

/-- The converters that a service registers by default, in the order of their registration. -/
def defaults (r : Registry) : List Converter :=
  [stringToNumber r, stringToBoolean r, stringToCharacter r, numberToNumber r, objectToString r,
   stringToEnum r, stringToArray r, arrayToString r, stringToCollection r, collectionToString r,
   arrayToCollection r, collectionToArray r]

/-- The built-in converter of a name, among them the one that passes values through. -/
def named? (r : Registry) (name : String) : Option Converter :=
  (defaults r ++ [Converter.passThrough]).find? (·.name = name)

end Builtin

end TypeConversion
