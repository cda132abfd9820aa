import TypeConversion.Builtin.Number

/-!
# Strings and enumerations

Every value converts to a string, which is its text.  A string converts to the constant of an
enumeration that it names.
-/

namespace TypeConversion

namespace Builtin

/-- From anything to its text. -/
def objectToString (r : Registry) : Converter where
  name := "ObjectToString"
  pairs := some [⟨r.object, .ofClass r.wellKnown.string⟩]
  condition := none
  run _ value _ _ := pure (value.map fun v => .string v.text)

/-- From strings to the constants of the target.  A blank text gives null. -/
def stringToEnum (r : Registry) : Converter where
  name := "StringToEnum"
  pairs := some [⟨.ofClass r.wellKnown.string, .ofClass r.wellKnown.enumClass⟩]
  condition := none
  run ctx value _ target :=
    onText ctx "StringToEnum" value target fun value text =>
      let name := trimmed text
      if name.isEmpty then pure none
      else
        let r := target.registry
        match target.erasure.asClass?.filter fun c => r.isEnum (.ofClass c) with
        | none => Converter.mismatch ctx "StringToEnum" value target
        | some c =>
          if (r.class? c).any fun d => d.enumConstants.contains name then
            pure (some (.enumConstant c name))
          else throw (.unknownEnumConstant (r.erasureName (.ofClass c)) name)

end Builtin

end TypeConversion
