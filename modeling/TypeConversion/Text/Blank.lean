/-!
# Blank characters

A character class of a text standard is a long list of intervals of code points.  The classes of
this library are such lists, read by one membership test.

Blank characters are those of the Unicode property White_Space.  They separate the tokens of a type
expression and are what trimming removes from both ends of a text.
-/

namespace TypeConversion

/-- Whether a code point lies in one of the closed intervals `(first, last)`. -/
def withinAny (intervals : List (Nat × Nat)) (code : Nat) : Bool :=
  intervals.any fun (first, last) => first ≤ code && code ≤ last

theorem withinAny_iff (intervals : List (Nat × Nat)) (code : Nat) :
    withinAny intervals code = true ↔ ∃ i ∈ intervals, i.1 ≤ code ∧ code ≤ i.2 := by
  simp [withinAny, List.any_eq_true]

/-- The intervals of the Unicode property White_Space. -/
def blankIntervals : List (Nat × Nat) :=
  [(0x9, 0xD), (0x20, 0x20), (0x85, 0x85), (0xA0, 0xA0), (0x1680, 0x1680), (0x2000, 0x200A),
   (0x2028, 0x2029), (0x202F, 0x202F), (0x205F, 0x205F), (0x3000, 0x3000)]

/-- Whether a character is blank: the Unicode property White_Space. -/
def isBlank (c : Char) : Bool :=
  withinAny blankIntervals c.toNat

/-- The characters from the first one that is not blank on. -/
def skipBlanks : List Char → List Char
  | [] => []
  | c :: rest => if isBlank c then skipBlanks rest else c :: rest

theorem skipBlanks_eq_dropWhile (cs : List Char) : skipBlanks cs = cs.dropWhile isBlank := by
  induction cs with
  | nil => rfl
  | cons c rest ih => by_cases h : isBlank c = true <;> simp [skipBlanks, h, ih]

theorem skipBlanks_length_le (cs : List Char) : (skipBlanks cs).length ≤ cs.length := by
  induction cs with
  | nil => simp [skipBlanks]
  | cons c rest ih =>
      by_cases h : isBlank c = true <;> simp [skipBlanks, h]
      omega

/-- The characters without the blank ones at either end. -/
def trimBlanks (cs : List Char) : List Char :=
  (skipBlanks (skipBlanks cs).reverse).reverse

/-- A text without the blank characters at either end. -/
def trimmed (text : String) : String :=
  String.ofList (trimBlanks text.toList)

/-- Whether a text has no other than blank characters. -/
def isAllBlank (text : String) : Bool :=
  text.toList.all isBlank

end TypeConversion
