import TypeConversion.Json.Reader
import TypeConversion.Conversion.Error

/-!
# Settings of a conversion service

Four settings with their defaults.  The only rule that joins them is that the delimiter of elements
is not empty.

They are read from a TOML document that assigns flags and texts to keys.  It has one assignment to a
line; blank lines and comments may stand between them and comments after them.  Keys are bare or
quoted, texts are basic or literal strings on one or several lines, and flags are `true` or `false`.
A key that is unknown or stands twice is refused, and so is a value of the wrong kind.

Of the other things that a document might hold — numbers, dates, arrays, tables — none is a setting,
so that a document with any of them is refused as a whole.
-/

namespace TypeConversion

/-- The settings of a conversion service. -/
structure ConversionConfig where
  /-- Whether the built-in converters are registered. -/
  registerDefaults : Bool := true
  /-- Whether a value of an assignable type passes through when no converter applies. -/
  noOpFallback : Bool := true
  /-- What stands between the elements of a text. -/
  elementDelimiter : String := ","
  /-- Whether blanks around the elements of a text are dropped. -/
  trimElements : Bool := true
deriving DecidableEq, Repr, Inhabited

namespace ConversionConfig

/-- Refuses settings that cannot be used. -/
def validate (c : ConversionConfig) : Except ConfigError Unit :=
  if c.elementDelimiter.isEmpty then
    .error (.invalid "`element_delimiter` must not be empty")
  else .ok ()

end ConversionConfig

/-- The value of an assignment. -/
inductive Setting where
  | flag (value : Bool)
  | text (text : String)
deriving DecidableEq, Repr

namespace Document

/-- Spaces and tabs. -/
def isSpace (c : Char) : Bool := c = ' ' || c = '\t'

/-- The text after leading spaces and tabs. -/
def skipSpaces (cs : List Char) : List Char := cs.dropWhile isSpace

/-- Characters that comments and literal strings may hold: no controls but the tab. -/
def isPrintable (c : Char) : Bool := c = '\t' || (0x20 ≤ c.toNat && c.toNat ≠ 0x7F)

/-- The rest of a text after a line break. -/
def readNewline : List Char → Option (List Char)
  | '\n' :: rest => some rest
  | '\r' :: '\n' :: rest => some rest
  | _ => none

/-- The rest of a text after the end of a line: a line break, or the end of the text. -/
def readLineEnd : List Char → Option (List Char)
  | [] => some []
  | rest => readNewline rest

/-- The rest of a text after spaces, an optional comment and the end of the line. -/
def readTrailing (cs : List Char) : Option (List Char) :=
  match skipSpaces cs with
  | '#' :: rest => readLineEnd (rest.dropWhile isPrintable)
  | rest => readLineEnd rest

/-- The character that a backslash and a letter stand for. -/
def escape? : Char → Option Char
  | 'b' => some '\x08'
  | 't' => some '\t'
  | 'n' => some '\n'
  | 'f' => some '\x0C'
  | 'r' => some '\r'
  | '"' => some '"'
  | '\\' => some '\\'
  | _ => none

/-- The character of a code point, which must be no surrogate and not too large. -/
def charOf? (code : Nat) : Option Char :=
  if h : code.isValidChar then some (Char.ofNatAux code h) else none

/-- The character of four hexadecimal digits. -/
def shortCode? (a b c d : Char) : Option Char :=
  (hexDigitsValue? [a, b, c, d]).bind charOf?

/-- The character of eight hexadecimal digits. -/
def longCode? (a b c d a' b' c' d' : Char) : Option Char := do
  let high ← hexDigitsValue? [a, b, c, d]
  let low ← hexDigitsValue? [a', b', c', d']
  charOf? (high * 0x10000 + low)

/-- Puts a character in front of what was read. -/
def push (c : Char) : List Char × List Char → List Char × List Char
  | (text, rest) => (c :: text, rest)

/-- Reads a basic string on one line, up to and with the closing quote. -/
def readBasic : List Char → Option (List Char × List Char)
  | [] => none
  | '"' :: rest => some ([], rest)
  | '\\' :: 'u' :: a :: b :: c :: d :: rest => do
    let code ← shortCode? a b c d
    return push code (← readBasic rest)
  | '\\' :: 'U' :: a :: b :: c :: d :: a' :: b' :: c' :: d' :: rest => do
    let code ← longCode? a b c d a' b' c' d'
    return push code (← readBasic rest)
  | '\\' :: letter :: rest => do
    let c ← escape? letter
    return push c (← readBasic rest)
  | c :: rest =>
    if isPrintable c && c ≠ '\\' then (readBasic rest).map (push c) else none

/-- Reads a literal string on one line, up to and with the closing quote. -/
def readLiteral : List Char → Option (List Char × List Char)
  | [] => none
  | '\'' :: rest => some ([], rest)
  | c :: rest => if isPrintable c then (readLiteral rest).map (push c) else none

/-- Whether only spaces stand before the next line break. -/
def endsLine (cs : List Char) : Bool := (readNewline (skipSpaces cs)).isSome

/--
Reads a basic string on several lines, up to and with three closing quotes, of which up to two more
may come before.  After a backslash at the end of a line, blanks and line breaks are skipped.
-/
def readBasicLines (skipping : Bool) : List Char → Option (List Char × List Char)
  | [] => none
  | '\r' :: '\n' :: rest =>
    if skipping then readBasicLines true rest
    else (readBasicLines false rest).map (push '\n')
  | '"' :: '"' :: '"' :: '"' :: '"' :: rest => some (['"', '"'], rest)
  | '"' :: '"' :: '"' :: '"' :: rest => some (['"'], rest)
  | '"' :: '"' :: '"' :: rest => some ([], rest)
  | '"' :: rest => (readBasicLines false rest).map (push '"')
  | '\\' :: 'u' :: a :: b :: c :: d :: rest => do
    let code ← shortCode? a b c d
    return push code (← readBasicLines false rest)
  | '\\' :: 'U' :: a :: b :: c :: d :: a' :: b' :: c' :: d' :: rest => do
    let code ← longCode? a b c d a' b' c' d'
    return push code (← readBasicLines false rest)
  | '\\' :: letter :: rest =>
    if endsLine (letter :: rest) then readBasicLines true (letter :: rest)
    else do
      let c ← escape? letter
      return push c (← readBasicLines false rest)
  | c :: rest =>
    if c = '\n' || isSpace c then
      if skipping then readBasicLines true rest
      else (readBasicLines false rest).map (push c)
    else if isPrintable c && c ≠ '\\' then (readBasicLines false rest).map (push c)
    else none

/-- Reads a literal string on several lines, with the same rule for closing quotes. -/
def readLiteralLines : List Char → Option (List Char × List Char)
  | [] => none
  | '\r' :: '\n' :: rest => (readLiteralLines rest).map (push '\n')
  | '\'' :: '\'' :: '\'' :: '\'' :: '\'' :: rest => some (['\'', '\''], rest)
  | '\'' :: '\'' :: '\'' :: '\'' :: rest => some (['\''], rest)
  | '\'' :: '\'' :: '\'' :: rest => some ([], rest)
  | c :: rest =>
    if c = '\n' || isPrintable c then (readLiteralLines rest).map (push c) else none

/-- The text after a line break that directly follows three opening quotes. -/
def skipFirstNewline (cs : List Char) : List Char := (readNewline cs).getD cs

/-- The text of what was read, with the rest. -/
def asSetting (read : List Char × List Char) : Setting × List Char :=
  (.text (String.ofList read.1), read.2)

/-- Reads a text or a flag. -/
def readSetting : List Char → Option (Setting × List Char)
  | '"' :: '"' :: '"' :: rest => (readBasicLines false (skipFirstNewline rest)).map asSetting
  | '"' :: rest => (readBasic rest).map asSetting
  | '\'' :: '\'' :: '\'' :: rest => (readLiteralLines (skipFirstNewline rest)).map asSetting
  | '\'' :: rest => (readLiteral rest).map asSetting
  | 't' :: 'r' :: 'u' :: 'e' :: rest => some (.flag true, rest)
  | 'f' :: 'a' :: 'l' :: 's' :: 'e' :: rest => some (.flag false, rest)
  | _ => none

/-- Characters of bare keys. -/
def isKeyChar (c : Char) : Bool := c.isAlphanum || c = '-' || c = '_'

/-- Reads a key, bare or quoted. -/
def readKey : List Char → Option (String × List Char)
  | '"' :: rest => (readBasic rest).map fun (key, rest) => (String.ofList key, rest)
  | '\'' :: rest => (readLiteral rest).map fun (key, rest) => (String.ofList key, rest)
  | cs =>
    match cs.takeWhile isKeyChar with
    | [] => none
    | key => some (String.ofList key, cs.dropWhile isKeyChar)

/-- Reads one assignment with the end of its line. -/
def readAssignment (cs : List Char) : Option ((String × Setting) × List Char) := do
  let (key, rest) ← readKey cs
  match skipSpaces rest with
  | '=' :: rest =>
    let (value, rest) ← readSetting (skipSpaces rest)
    let rest ← readTrailing rest
    return ((key, value), rest)
  | _ => none

/-- Reads the lines of a document; a text never has more lines than characters. -/
def readLines : Nat → List Char → Option (List (String × Setting))
  | 0, _ => none
  | steps + 1, cs =>
    match skipSpaces cs with
    | [] => some []
    | c :: rest =>
      if c = '#' || c = '\n' || c = '\r' then (readTrailing (c :: rest)).bind (readLines steps)
      else do
        let (assignment, rest) ← readAssignment (c :: rest)
        let assignments ← readLines steps rest
        return assignment :: assignments

/-- Reads a document, which may start with a byte order mark. -/
def read (text : String) : Option (List (String × Setting)) :=
  let cs := match text.toList with
    | '\uFEFF' :: rest => rest
    | cs => cs
  readLines (cs.length + 1) cs

end Document

namespace ConversionConfig

/-- Takes over one assignment; a key or a kind of value that is not known is refused. -/
def assign (c : ConversionConfig) : String × Setting → Option ConversionConfig
  | ("register_defaults", .flag value) => some { c with registerDefaults := value }
  | ("no_op_fallback", .flag value) => some { c with noOpFallback := value }
  | ("trim_elements", .flag value) => some { c with trimElements := value }
  | ("element_delimiter", .text text) => some { c with elementDelimiter := text }
  | _ => none

/-- The settings of a list of assignments, of which no two are to the same key. -/
def ofAssignments? (assignments : List (String × Setting)) : Option ConversionConfig :=
  if (assignments.map (·.1)).eraseDups.length = assignments.length then
    assignments.foldlM assign {}
  else none

/-- Reads settings from the text of a document. -/
def ofText (text : String) : Except ConfigError ConversionConfig := do
  match (Document.read text).bind ofAssignments? with
  | none => .error .malformed
  | some c =>
    c.validate
    return c

/-- Reads settings from a file, given its text if it could be read. -/
def ofFile : Option String → Except ConfigError ConversionConfig
  | none => .error .unreadable
  | some text => ofText text

end ConversionConfig

end TypeConversion
