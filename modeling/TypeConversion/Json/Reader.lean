import TypeConversion.Number.BitText
import TypeConversion.Json.Basic

/-!
# Reading JSON text

A reader for JSON texts.  It takes one value with blanks around it and nothing else, and refuses
everything outside the grammar: leading zeros, bare controls in strings, unknown escapes, trailing
commas.  Nesting is not limited here; a reader of records that bounds it does so by itself.

Half a surrogate pair is good grammar, though it stands for no text: what holds it is read as a
broken string or a broken object, and only a reader that needs the text refuses it.

Every function returns what it read together with the rest of the text.  The functions on values
recurse on a number of steps, and a text never needs more steps than it has characters.
-/

namespace TypeConversion.Json

/-- The text after leading blanks: space, tab, line feed and carriage return. -/
def skipSpace : List Char → List Char
  | [] => []
  | c :: rest =>
    if c = ' ' ∨ c = '\t' ∨ c = '\n' ∨ c = '\r' then skipSpace rest else c :: rest

/-- What the inside of a string is made of: characters, and escapes of sixteen bits. -/
inductive StringUnit where
  | char (c : Char)
  | half (code : Nat)

/-- The character that a backslash and a letter stand for. -/
def shortEscape? : Char → Option Char
  | '"' => some '"'
  | '\\' => some '\\'
  | '/' => some '/'
  | 'b' => some '\x08'
  | 'f' => some '\x0C'
  | 'n' => some '\n'
  | 'r' => some '\r'
  | 't' => some '\t'
  | _ => none

/-- Reads the inside of a string up to and with the closing quote. -/
def readUnits : List Char → Option (List StringUnit × List Char)
  | [] => none
  | '"' :: rest => some ([], rest)
  | '\\' :: 'u' :: a :: b :: c :: d :: rest => do
    let code ← hexDigitsValue? [a, b, c, d]
    let (units, rest) ← readUnits rest
    return (.half code :: units, rest)
  | '\\' :: letter :: rest => do
    let c ← shortEscape? letter
    let (units, rest) ← readUnits rest
    return (.char c :: units, rest)
  | c :: rest =>
    if c.toNat < 0x20 ∨ c = '\\' then none
    else do
      let (units, rest) ← readUnits rest
      return (.char c :: units, rest)

/-- The characters of a string: escapes of surrogates have to come in pairs. -/
def joinUnits : List StringUnit → Option (List Char)
  | [] => some []
  | .char c :: rest => (joinUnits rest).map (c :: ·)
  | .half high :: .half low :: rest =>
    if 0xD800 ≤ high ∧ high < 0xDC00 then
      if 0xDC00 ≤ low ∧ low < 0xE000 then
        (joinUnits rest).map
          (Char.ofNat (0x10000 + (high - 0xD800) * 0x400 + (low - 0xDC00)) :: ·)
      else none
    else if 0xDC00 ≤ high ∧ high < 0xE000 then none
    else (joinUnits (.half low :: rest)).map (Char.ofNat high :: ·)
  | .half code :: rest =>
    if 0xD800 ≤ code ∧ code < 0xE000 then none
    else (joinUnits rest).map (Char.ofNat code :: ·)

/-- Digits at the front of a text, and the rest. -/
def takeDigits : List Char → List Char × List Char
  | [] => ([], [])
  | c :: rest =>
    if c.isDigit then
      let (digits, rest) := takeDigits rest
      (c :: digits, rest)
    else ([], c :: rest)

/-- Reads a point and the digits after it, if there is a point. -/
def readPlaces : List Char → Option (List Char × List Char)
  | '.' :: rest =>
    match takeDigits rest with
    | ([], _) => none
    | (digits, rest) => some ('.' :: digits, rest)
  | rest => some ([], rest)

/-- Reads an exponent with its sign, if there is one. -/
def readPower : List Char → Option (List Char × List Char)
  | [] => some ([], [])
  | e :: rest =>
    if e = 'e' ∨ e = 'E' then
      let (sign, rest) := match rest with
        | '+' :: rest => (['+'], rest)
        | '-' :: rest => (['-'], rest)
        | rest => ([], rest)
      match takeDigits rest with
      | ([], _) => none
      | (digits, rest) => some (e :: (sign ++ digits), rest)
    else some ([], e :: rest)

/-- The value of a list of digits. -/
def digitsValue (digits : List Char) : Nat :=
  digits.foldl (fun value c => value * 10 + (c.toNat - '0'.toNat)) 0

/-- Reads a number.  A whole part of several digits starts with no zero. -/
def readNumber (cs : List Char) : Option (Json × List Char) := do
  let (negative, rest) := match cs with
    | '-' :: rest => (true, rest)
    | rest => (false, rest)
  let (whole, rest) := takeDigits rest
  if whole.isEmpty || (whole.head? = some '0' && 1 < whole.length) then none
  let (places, rest) ← readPlaces rest
  let (power, rest) ← readPower rest
  if places.isEmpty && power.isEmpty && !(negative && whole = ['0']) then
    let size : Int := digitsValue whole
    return (integer (if negative then -size else size), rest)
  else
    let sign := if negative then ['-'] else []
    return (fraction (String.ofList (sign ++ whole ++ places ++ power)), rest)

/-- Reads a fixed word that has to stand at the front of a text. -/
def readWord (word : List Char) (value : Json) (cs : List Char) : Option (Json × List Char) :=
  if word.isPrefixOf cs then some (value, cs.drop word.length) else none

/-- Reads a string after its opening quote. -/
def readStringBody (cs : List Char) : Option (Json × List Char) :=
  (readUnits cs).map fun (units, rest) =>
    match joinUnits units with
    | some chars => (string (String.ofList chars), rest)
    | none => (brokenString, rest)

/-- Reads the key of a member, with the text it stands for if there is one. -/
def readKey : List Char → Option (Option String × List Char)
  | '"' :: rest => do
    let (units, rest) ← readUnits rest
    return ((joinUnits units).map String.ofList, rest)
  | _ => none

/-- A member before others.  Members of which one key stands for no text are no members of a
record. -/
def consMember (key : Option String) (value : Json) (members : Option (List (String × Json))) :
    Option (List (String × Json)) := do
  let members ← members
  return (← key, value) :: members

/-- The object of the members that were read. -/
def ofMembers : Option (List (String × Json)) → Json
  | some members => object members
  | none => brokenObject

mutual

/-- Reads one value with blanks before it. -/
def readValue : Nat → List Char → Option (Json × List Char)
  | 0, _ => none
  | steps + 1, cs =>
    match skipSpace cs with
    | [] => none
    | c :: rest =>
      if c = '"' then readStringBody rest
      else if c = '[' then
        match skipSpace rest with
        | ']' :: rest => some (array [], rest)
        | rest => (readElements steps rest).map fun (elements, rest) => (array elements, rest)
      else if c = Char.ofNat 0x7B then
        match skipSpace rest with
        | [] => none
        | d :: rest =>
          if d = Char.ofNat 0x7D then some (object [], rest)
          else (readMembers steps (d :: rest)).map fun (members, rest) => (ofMembers members, rest)
      else if c = 'n' then readWord "null".toList null (c :: rest)
      else if c = 't' then readWord "true".toList (bool true) (c :: rest)
      else if c = 'f' then readWord "false".toList (bool false) (c :: rest)
      else readNumber (c :: rest)

/-- Reads the elements of an array that has at least one, up to and with the closing bracket. -/
def readElements : Nat → List Char → Option (List Json × List Char)
  | 0, _ => none
  | steps + 1, cs => do
    let (element, rest) ← readValue steps cs
    match skipSpace rest with
    | ',' :: rest =>
      let (elements, rest) ← readElements steps rest
      return (element :: elements, rest)
    | ']' :: rest => return ([element], rest)
    | _ => none

/-- Reads the members of an object that has at least one, up to and with the closing brace. -/
def readMembers : Nat → List Char → Option (Option (List (String × Json)) × List Char)
  | 0, _ => none
  | steps + 1, cs => do
    let (key, rest) ← readKey (skipSpace cs)
    match skipSpace rest with
    | ':' :: rest =>
      let (value, rest) ← readValue steps rest
      match skipSpace rest with
      | [] => none
      | c :: rest =>
        if c = ',' then
          let (members, rest) ← readMembers steps rest
          return (consMember key value members, rest)
        else if c = Char.ofNat 0x7D then return (consMember key value (some []), rest)
        else none
    | _ => none

end

/-- Reads a whole text as one value. -/
def parse (text : String) : Option Json := do
  let cs := text.toList
  let (value, rest) ← readValue (2 * cs.length + 1) cs
  if (skipSpace rest).isEmpty then some value else none

end TypeConversion.Json
