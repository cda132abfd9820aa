import TypeConversion.Number.Integer

/-!
# Errors of types

Why a type text was refused, or why a field, method or parameter was not found.  Offsets count the
bytes of the UTF-8 form of the text.
-/

namespace TypeConversion

inductive TypeError where
  | unknownType (name : String)
  | unexpectedChar (input : String) (offset : Nat) (found : Char)
  | unexpectedEnd (input : String)
  | trailingInput (input : String) (offset : Nat)
  | genericArity (className : String) (expected found : Nat)
  | tooManyDimensions (input : String)
  | misplacedWildcard (input : String)
  | unknownMember (className memberName : String)
  | unknownParameter (className methodName : String) (position : Nat)
deriving DecidableEq, Repr

namespace TypeError

/-- The cause in one word. -/
def cause : TypeError → String
  | unknownType _ => "UnknownType"
  | unexpectedChar .. => "UnexpectedChar"
  | unexpectedEnd _ => "UnexpectedEof"
  | trailingInput .. => "TrailingInput"
  | genericArity .. => "GenericArity"
  | tooManyDimensions _ => "TooManyDimensions"
  | misplacedWildcard _ => "MisplacedWildcard"
  | unknownMember .. => "UnknownMember"
  | unknownParameter .. => "UnknownParameter"

def message : TypeError → String
  | unknownType name => "unknown type `" ++ name ++ "`"
  | unexpectedChar input offset found =>
    "unexpected `" ++ String.singleton found ++ "` at offset " ++ natText offset
      ++ " in type expression `" ++ input ++ "`"
  | unexpectedEnd input => "unexpected end of type expression `" ++ input ++ "`"
  | trailingInput input offset =>
    "trailing input at offset " ++ natText offset ++ " in type expression `" ++ input ++ "`"
  | genericArity className expected found =>
    "`" ++ className ++ "` declares " ++ natText expected ++ " type parameter(s) but "
      ++ natText found ++ " argument(s) were given"
  | tooManyDimensions input =>
    "array type `" ++ input ++ "` exceeds the maximum of 255 dimensions"
  | misplacedWildcard input =>
    "wildcards are only allowed as type arguments or at the top level (`" ++ input ++ "`)"
  | unknownMember className memberName =>
    "`" ++ className ++ "` has no member `" ++ memberName ++ "`"
  | unknownParameter className methodName position =>
    "method `" ++ methodName ++ "` of `" ++ className ++ "` has no parameter #"
      ++ natText position

end TypeError

end TypeConversion
