import TypeConversion.Text.Blank
import TypeConversion.Text.Letter
import TypeConversion.Types.Error
import TypeConversion.Registry.Basic

/-!
# Reading types from text

The grammar of type texts, with blanks allowed between tokens and at both ends:

    whole     = type | wildcard
    type      = name [ "<" argument { "," argument } ">" ] { "[" "]" }
    argument  = type | wildcard
    wildcard  = "?" [ ( "extends" | "super" ) type ]

Names are as long as they can be.  A name without dots that some variable in scope has denotes the
last such variable, which takes no arguments; any other name denotes a class, which takes either no
arguments or one for each of its type parameters.

The reader goes through the text from left to right and stops at the first fault.  A fault keeps
the rest of the text from where it was found, which gives the offset of the error.
-/

namespace TypeConversion

/-- Why the reader of type texts stopped. -/
inductive TypeTextFault where
  | unknownType (name : String)
  /-- The rest of the text, which may be empty, starts with nothing that can stand there. -/
  | unexpected (rest : List Char)
  /-- A whole type was read, and the rest is left over. -/
  | trailing (rest : List Char)
  | genericArity (className : String) (expected found : Nat)
  | tooManyDimensions
  | misplacedWildcard
deriving DecidableEq, Repr

/-- The number of bytes of a text in UTF-8. -/
def byteCount : List Char → Nat
  | [] => 0
  | c :: rest => c.utf8Size + byteCount rest

theorem byteCount_append (cs ds : List Char) :
    byteCount (cs ++ ds) = byteCount cs + byteCount ds := by
  induction cs with
  | nil => simp [byteCount]
  | cons c rest ih => simp [byteCount, ih, Nat.add_assoc]

/-- How many bytes of the input stand before the rest. -/
def offsetOf (input rest : List Char) : Nat :=
  byteCount input - byteCount rest

namespace TypeTextFault

/-- The error that a fault is in a given input. -/
def toError (input : String) : TypeTextFault → TypeError
  | unknownType name => .unknownType name
  | unexpected [] => .unexpectedEnd input
  | unexpected (c :: rest) => .unexpectedChar input (offsetOf input.toList (c :: rest)) c
  | trailing rest => .trailingInput input (offsetOf input.toList rest)
  | genericArity className expected found => .genericArity className expected found
  | tooManyDimensions => .tooManyDimensions input
  | misplacedWildcard => .misplacedWildcard input

end TypeTextFault

/-- Splits a name off the front of a text. -/
def readName : List Char → Option (String × List Char)
  | [] => none
  | c :: rest =>
    if startsName c then
      some (String.ofList (c :: rest.takeWhile continuesName), rest.dropWhile continuesName)
    else none

/-- Splits a word off the front of a text, unless it is only the start of a longer word. -/
def readKeyword (word cs : List Char) : Option (List Char) :=
  if word.isPrefixOf cs then
    match cs.drop word.length with
    | [] => some []
    | c :: rest => if isWordChar c then none else some (c :: rest)
  else none

/--
Reads pairs of brackets and wraps a type in an array for each; `opened` tells that the last bracket
is still to be closed.
-/
def readDims (opened : Bool) (t : TypeExpr) :
    List Char → Except TypeTextFault (TypeExpr × List Char)
  | [] => if opened then .error (.unexpected []) else .ok (t, [])
  | c :: rest =>
    if isBlank c then readDims opened t rest
    else if opened then
      if c = ']' then
        match t with
        | .plain e =>
          if e.dims = 255 then .error .tooManyDimensions else readDims false t.arrayOf rest
        | _ => readDims false t.arrayOf rest
      else .error (.unexpected (c :: rest))
    else if c = '[' then readDims true t rest
    else .ok (t, c :: rest)

namespace Registry

/-- The last variable in scope that has the name; names with dots are never variables. -/
def scopeVar? (r : Registry) (scope : List TypeVarId) (name : String) : Option TypeVarId :=
  if name.toList.contains '.' then none
  else scope.reverse.find? fun v => (r.typeParam? v).any (·.name = name)

/-- A class applied to arguments, which have to be as many as it has parameters. -/
def applyClass (r : Registry) (c : ClassId) (name : String) (args : List TypeExpr) :
    Except TypeTextFault TypeExpr :=
  let expected := (r.typeParameters c).length
  if args.length = expected then .ok (.parameterized c args none)
  else .error (.genericArity ((r.class? c).elim name (·.name)) expected args.length)

variable (r : Registry) (scope : List TypeVarId)

mutual

/-- Reads a type. -/
def readTypeWithin : Nat → List Char → Except TypeTextFault (TypeExpr × List Char)
  | 0, cs => .error (.unexpected cs)
  | steps + 1, cs =>
    match readName (skipBlanks cs) with
    | none => .error (.unexpected (skipBlanks cs))
    | some (name, rest) =>
      match r.scopeVar? scope name with
      | some v => readDims false (.typeVar v) rest
      | none =>
        match r.lookup? name with
        | none => .error (.unknownType name)
        | some c =>
          match skipBlanks rest with
          | '<' :: rest => do
            let (args, rest) ← readArgsWithin steps rest
            let t ← r.applyClass c name args
            readDims false t rest
          | rest => readDims false (.ofClass c) rest

/-- Reads type arguments up to and with the closing angle bracket. -/
def readArgsWithin : Nat → List Char → Except TypeTextFault (List TypeExpr × List Char)
  | 0, cs => .error (.unexpected cs)
  | steps + 1, cs => do
    let (arg, rest) ← readArgWithin steps cs
    match skipBlanks rest with
    | ',' :: rest => do
      let (args, rest) ← readArgsWithin steps rest
      return (arg :: args, rest)
    | '>' :: rest => return ([arg], rest)
    | rest => .error (.unexpected rest)

/-- Reads a type or a wildcard. -/
def readArgWithin : Nat → List Char → Except TypeTextFault (TypeExpr × List Char)
  | 0, cs => .error (.unexpected cs)
  | steps + 1, cs =>
    match skipBlanks cs with
    | '?' :: rest => readBoundWithin steps rest
    | rest => readTypeWithin steps rest

/-- Reads what follows the question mark of a wildcard. -/
def readBoundWithin : Nat → List Char → Except TypeTextFault (TypeExpr × List Char)
  | 0, cs => .error (.unexpected cs)
  | steps + 1, cs => do
    let (wildcard, rest) ←
      match readKeyword "extends".toList (skipBlanks cs) with
      | some rest => do
        let (bound, rest) ← readTypeWithin steps rest
        pure (TypeExpr.extending bound, rest)
      | none =>
        match readKeyword "super".toList (skipBlanks cs) with
        | some rest => do
          let (bound, rest) ← readTypeWithin steps rest
          pure (TypeExpr.superOf bound, rest)
        | none => pure (TypeExpr.unbounded, cs)
    match skipBlanks rest with
    | '[' :: _ => .error .misplacedWildcard
    | rest => return (wildcard, rest)

end

/-- Reads a whole text as a type or a wildcard. -/
def readWhole (cs : List Char) : Except TypeTextFault TypeExpr := do
  let (t, rest) ← r.readArgWithin scope (2 * cs.length + 4) cs
  match skipBlanks rest with
  | [] => return t
  | rest => .error (.trailing rest)

/-- The type that a text spells, where the later variables in scope hide earlier ones. -/
def parseTypeIn (text : String) : Except TypeError TypeExpr :=
  (r.readWhole scope text.toList).mapError (TypeTextFault.toError text)

/-- The type that a text spells without type variables. -/
def parseType (text : String) : Except TypeError TypeExpr :=
  r.parseTypeIn [] text

end Registry

end TypeConversion
