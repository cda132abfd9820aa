/-!
# Errors of conversion

Why a value was not converted, why a converter was not registered, and why a configuration was
refused.
-/

namespace TypeConversion

/-- A converter was chosen but could not convert the value. -/
inductive ConversionError where
  | invalidValue (value target reason : String)
  | typeMismatch (converter found target : String)
  | unknownEnumConstant (enumClass value : String)
  | missingElementType (target : String)
  | unsupportedCollection (target : String)
deriving DecidableEq, Repr

namespace ConversionError

/-- The cause in one word. -/
def cause : ConversionError → String
  | invalidValue .. => "InvalidValue"
  | typeMismatch .. => "TypeMismatch"
  | unknownEnumConstant .. => "UnknownEnumConstant"
  | missingElementType _ => "MissingElementType"
  | unsupportedCollection _ => "UnsupportedCollection"

def message : ConversionError → String
  | invalidValue value target reason =>
    "cannot convert `" ++ value ++ "` to " ++ target ++ ": " ++ reason
  | typeMismatch converter found target =>
    "`" ++ converter ++ "` cannot convert a " ++ found ++ " value to " ++ target
  | unknownEnumConstant enumClass value =>
    "`" ++ value ++ "` is not a constant of enum " ++ enumClass
  | missingElementType target => "cannot determine the element type of " ++ target
  | unsupportedCollection target => "no collection implementation is known for " ++ target

end ConversionError

/-- A converter could never be chosen the way it was registered. -/
inductive RegistrationError where
  | notConditional (converter : String)
  | unresolvableGenerics (converter : String)
deriving DecidableEq, Repr

namespace RegistrationError

/-- The cause in one word. -/
def cause : RegistrationError → String
  | notConditional _ => "NotConditional"
  | unresolvableGenerics _ => "UnresolvableGenerics"

def message : RegistrationError → String
  | notConditional converter =>
    "converter `" ++ converter ++ "` declares no convertible types and is not conditional"
  | unresolvableGenerics converter =>
    "cannot determine the source and target types of converter `" ++ converter ++ "`"

end RegistrationError

/-- A configuration could not be used. -/
inductive ConfigError where
  /-- The file could not be read. -/
  | unreadable
  /-- The text is no document of known settings. -/
  | malformed
  | invalid (reason : String)
deriving DecidableEq, Repr

namespace ConfigError

/-- The cause in one word. -/
def cause : ConfigError → String
  | unreadable => "Io"
  | malformed => "Toml"
  | invalid _ => "Invalid"

def message : ConfigError → String
  | unreadable => "failed to read config file"
  | malformed => "failed to parse toml config"
  | invalid reason => "invalid conversion config: " ++ reason

end ConfigError

end TypeConversion
