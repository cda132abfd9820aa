import TypeConversion.Conversion.Converters
import TypeConversion.Builtin.Elements
import TypeConversion.Registry.ClassDraft

/-!
# The conversion service

A service has a registry, settings and converters.  To convert a value it finds the best converter
for the descriptors of source and target; if there is none, and the settings allow it, a value of an
assignable type passes through; otherwise the result is null.

Converters call the service for elements, and so on.  `contextAt` is what a service offers to
converters when it may still go a number of calls deep; at depth zero every call is cut off.
-/

namespace TypeConversion

/-- A conversion service. -/
structure ConversionService where
  registry : Registry
  converters : Converters
  config : ConversionConfig

/-- The class of converters that declare their pair by its two type arguments. -/
def converterShape : String := "trellis.convert.Converter"

namespace Registry

/-- Declares the class of converters, unless it is there with two type parameters. -/
def registerConverterShape (r : Registry) : Registry × Except TypeError ClassId :=
  let declareShape := r.declare converterShape
    [.kind .interface, .typeParam "S" [], .typeParam "T" []]
  match r.lookup? converterShape with
  | some c => if (r.typeParameters c).length = 2 then (r, .ok c) else declareShape
  | none => declareShape

end Registry

namespace ConversionService

/-- A service without converters. -/
def bare (r : Registry) (config : ConversionConfig) : ConversionService :=
  ⟨r, .empty, config⟩

/-- Registers a converter. -/
def add (s : ConversionService) (c : Converter) : Except RegistrationError ConversionService := do
  return { s with converters := ← s.converters.add c }

/-- Registers the built-in converters. -/
def addDefaults (s : ConversionService) : Except RegistrationError ConversionService :=
  (Builtin.defaults s.registry).foldlM add s

/-- A service with the given settings, which say whether it has the built-in converters. -/
def ofConfig (r : Registry) (config : ConversionConfig) :
    Except RegistrationError ConversionService :=
  if config.registerDefaults then (bare r config).addDefaults else .ok (bare r config)

/-- The descriptor of an erasure in the registry of the service. -/
def descriptor (s : ConversionService) (e : Erasure) : TypeDescriptor :=
  .ofErasure s.registry e

/-- The converter that a service uses: the best one registered, or else the pass-through. -/
def chooseConverter (s : ConversionService) (ctx : ConversionContext)
    (source target : TypeDescriptor) : Walk (Option Converter) := do
  match ← s.converters.find ctx source target with
  | some c => return some c
  | none =>
    if s.config.noOpFallback && s.registry.isAssignable target.erasure source.erasure then
      return some .passThrough
    else return none

/-- Whether null, or a value of a type, can be converted to another type. -/
def canConvertIn (s : ConversionService) (ctx : ConversionContext)
    (source : Option TypeDescriptor) (target : TypeDescriptor) : Walk Bool :=
  match source with
  | none => some true
  | some source => do return (← s.chooseConverter ctx source target).isSome

/-- Converts a value; null is converted to null, and so is what no converter applies to. -/
def convertIn (s : ConversionService) (ctx : ConversionContext) (value : Option Value)
    (source : Option TypeDescriptor) (target : TypeDescriptor) : Attempt (Option Value) :=
  match value with
  | none => pure none
  | some value => do
    let source := source.getD (s.descriptor (value.erasure s.registry))
    match ← Attempt.ofWalk (s.chooseConverter ctx source target) with
    | some c => c.run ctx (some value) source target
    | none => return none

/-- What a service offers to converters when calls may still go `depth` deep. -/
def contextAt (s : ConversionService) (limit : Nat) : Nat → ConversionContext
  | 0 =>
    { registry := s.registry
      config := s.config
      limit := limit
      canConvert := fun _ _ => none
      convert := fun _ _ _ => ExceptT.mk none }
  | depth + 1 =>
    { registry := s.registry
      config := s.config
      limit := limit
      canConvert := fun source target => s.canConvertIn (s.contextAt limit depth) source target
      convert := fun value source target =>
        s.convertIn (s.contextAt limit depth) value source target }

/-- What a service offers to converters within a limit. -/
def context (s : ConversionService) (limit : Nat) : ConversionContext := s.contextAt limit limit

/-- The best registered converter for a source and a target. -/
def findConverter (s : ConversionService) (limit : Nat) (source target : TypeDescriptor) :
    Walk (Option Converter) :=
  s.converters.find (s.context limit) source target

/-- The converter that is used for a source and a target, the pass-through included. -/
def getConverter (s : ConversionService) (limit : Nat) (source target : TypeDescriptor) :
    Walk (Option Converter) :=
  s.chooseConverter (s.context limit) source target

/-- Whether null, or a value of a type, can be converted to another type. -/
def canConvert (s : ConversionService) (limit : Nat) (source : Option TypeDescriptor)
    (target : TypeDescriptor) : Walk Bool :=
  s.canConvertIn (s.context limit) source target

/-- Whether values of an erasure can be converted to another. -/
def canConvertErasures (s : ConversionService) (limit : Nat) (source target : Erasure) :
    Walk Bool :=
  s.canConvert limit (some (s.descriptor source)) (s.descriptor target)

/-- Converts a value that is described by a type, or else by its run-time type. -/
def convertWith (s : ConversionService) (limit : Nat) (value : Option Value)
    (source : Option TypeDescriptor) (target : TypeDescriptor) : Attempt (Option Value) :=
  s.convertIn (s.context limit) value source target

/-- Converts a value described by its run-time type. -/
def convert (s : ConversionService) (limit : Nat) (value : Option Value)
    (target : TypeDescriptor) : Attempt (Option Value) :=
  s.convertWith limit value none target

/-- Converts a value to an erasure. -/
def convertTo (s : ConversionService) (limit : Nat) (value : Option Value) (target : Erasure) :
    Attempt (Option Value) :=
  s.convert limit value (s.descriptor target)

/-- Registers a function on values for a pair of erasures. -/
def addFunctionFor (s : ConversionService) (source target : Erasure)
    (f : Value → Except ConversionError (Option Value)) :
    Except RegistrationError ConversionService :=
  let name := s.registry.erasureName source ++ " -> " ++ s.registry.erasureName target
  s.add (.ofFunction name ⟨source, target⟩ f)

/--
Registers a function on values for the pair that a type declares: the two type arguments of its view
as a converter.  The type belongs to a registry that need not be that of the service.
-/
def addFunctionDeclared (s : ConversionService) (limit : Nat) (r : Registry)
    (declared : Option Node) (f : Value → Except ConversionError (Option Value)) :
    Walk (Except RegistrationError ConversionService) := do
  let name ← Node.display r limit declared
  match s.registry.lookup? converterShape with
  | none => return .error (.unresolvableGenerics name)
  | some shape =>
    match ← Node.resolveGenerics r limit (← Node.asClass r limit declared shape) with
    | [some source, some target] => return s.add (.ofFunction name ⟨source, target⟩ f)
    | _ => return .error (.unresolvableGenerics name)

/-- Removes all converters of exactly a pair, and tells whether there were any. -/
def remove (s : ConversionService) (pair : ConvertiblePair) : ConversionService × Bool :=
  let (converters, removed) := s.converters.remove pair
  ({ s with converters := converters }, removed)

/-- A service as inner texts show it: the numbers of its converters, and its settings. -/
def innerText (s : ConversionService) : String :=
  let flag (b : Bool) : String := if b then "true" else "false"
  "ConversionService \x7b converters: " ++ s.converters.innerText
    ++ ", config: ConversionConfig \x7b register_defaults: " ++ flag s.config.registerDefaults
    ++ ", no_op_fallback: " ++ flag s.config.noOpFallback
    ++ ", element_delimiter: " ++ quoted s.config.elementDelimiter
    ++ ", trim_elements: " ++ flag s.config.trimElements ++ " \x7d, .. \x7d"

end ConversionService

end TypeConversion
