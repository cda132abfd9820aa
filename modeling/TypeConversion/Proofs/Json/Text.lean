import TypeConversion.Json.Printer
import TypeConversion.Json.Reader
import Mathlib.Data.List.Basic

/-!
# Reading what was printed

The text of a value is read as the value itself.  This holds of the values that have one text:
fractions keep the text that they were read from, and the broken strings and objects stand for many
texts, so there are none of these in a plain value.

What follows a value must not go on with it, which only numbers could.  The reader is given a number
of steps, and a text with more characters than steps is not read; a printed value takes no more
steps than it has characters.

**Results**

* `exists_readUnits_printed`: every text is read from its quoted form, whatever it consists of;
* `readNumber_integerText`: every integer is read from its digits;
* `Plain.readValue_print`: every plain value is read from its text;
* `Plain.parse_text`: as a whole text.
-/

namespace TypeConversion.Json

/-! ## Strings -/

/-- An escape that is no surrogate stands for a character by itself. -/
theorem joinUnits_half {code : Nat} (hcode : code < 0xD800) (units : List StringUnit) :
    joinUnits (.half code :: units) = (joinUnits units).map (Char.ofNat code :: ·) := by
  have hhigh : ¬(0xD800 ≤ code ∧ code < 0xDC00) := by omega
  have hlow : ¬(0xDC00 ≤ code ∧ code < 0xE000) := by omega
  have hany : ¬(0xD800 ≤ code ∧ code < 0xE000) := by omega
  cases units with
  | nil => simp only [joinUnits, if_neg hany]
  | cons u units =>
    cases u with
    | char c => simp only [joinUnits, if_neg hany]
    | half low => simp only [joinUnits, if_neg hhigh, if_neg hlow]

/-- A character that needs no escape is read as it stands. -/
theorem readUnits_char {c : Char} (hquote : c ≠ '"') (hslash : c ≠ '\\') (hcontrol : ¬c.toNat < 0x20)
    (rest : List Char) :
    readUnits (c :: rest) =
      (readUnits rest).map fun (units, rest) => (.char c :: units, rest) := by
  have hplain : ¬(c.toNat < 0x20 ∨ c = '\\') := fun h => h.elim hcontrol hslash
  rw [readUnits, if_neg hplain, Option.map_eq_bind]
  · rfl
  · exact fun h => hquote h
  · exact fun _ _ _ _ _ h => absurd h hslash
  · exact fun _ _ h => absurd h hslash

/-- A character behind a backslash is read as what the two stand for. -/
theorem readUnits_escape (letter : Char) {c : Char} (hletter : shortEscape? letter = some c)
    (rest : List Char) :
    readUnits ('\\' :: letter :: rest) =
      (readUnits rest).map fun (units, rest) => (.char c :: units, rest) := by
  have hu : letter ≠ 'u' := by
    rintro rfl
    simp [shortEscape?] at hletter
  rw [readUnits, hletter, Option.map_eq_bind]
  · rfl
  · exact fun _ _ _ _ _ h _ => hu h

/-- The two hexadecimal digits of a control are read as its code. -/
theorem hexDigitsValue?_control :
    ∀ n < 0x20, hexDigitsValue? ['0', '0', hexDigit (n / 16), hexDigit (n % 16)] = some n := by
  decide

/-- A character that is escaped or not is read as a unit that stands for it. -/
theorem exists_readUnits_escapedChar (c : Char) (rest : List Char) :
    ∃ u, (∀ units, joinUnits (u :: units) = (joinUnits units).map (c :: ·)) ∧
      readUnits (escapedChar c ++ rest) =
        (readUnits rest).map fun (units, rest) => (u :: units, rest) := by
  have hchar : ∀ units, joinUnits (.char c :: units) = (joinUnits units).map (c :: ·) :=
    fun units => by rw [joinUnits]
  unfold escapedChar
  split_ifs with hquote hslash hback hfeed hline hreturn htab hcontrol
  · exact ⟨.char c, hchar, readUnits_escape '"' (by rw [hquote]; rfl) rest⟩
  · exact ⟨.char c, hchar, readUnits_escape '\\' (by rw [hslash]; rfl) rest⟩
  · exact ⟨.char c, hchar, readUnits_escape 'b' (by rw [hback]; rfl) rest⟩
  · exact ⟨.char c, hchar, readUnits_escape 'f' (by rw [hfeed]; rfl) rest⟩
  · exact ⟨.char c, hchar, readUnits_escape 'n' (by rw [hline]; rfl) rest⟩
  · exact ⟨.char c, hchar, readUnits_escape 'r' (by rw [hreturn]; rfl) rest⟩
  · exact ⟨.char c, hchar, readUnits_escape 't' (by rw [htab]; rfl) rest⟩
  · refine ⟨.half c.toNat, fun units => ?_, ?_⟩
    · rw [joinUnits_half (by omega), Char.ofNat_toNat]
    · simp only [List.cons_append, List.nil_append]
      rw [readUnits, hexDigitsValue?_control _ hcontrol, Option.map_eq_bind]
      rfl
  · exact ⟨.char c, hchar, readUnits_char hquote hslash hcontrol rest⟩

/-- The inside of a printed string is read back up to its closing quote. -/
theorem exists_readUnits_printed (cs rest : List Char) :
    ∃ units, readUnits (cs.flatMap escapedChar ++ '"' :: rest) = some (units, rest) ∧
      joinUnits units = some cs := by
  induction cs with
  | nil => exact ⟨[], by simp [readUnits], by simp [joinUnits]⟩
  | cons c cs ih =>
    rcases ih with ⟨units, hread, hjoin⟩
    rcases exists_readUnits_escapedChar c (cs.flatMap escapedChar ++ '"' :: rest) with
      ⟨u, hu, hunit⟩
    refine ⟨u :: units, ?_, ?_⟩
    · rw [List.flatMap_cons, List.append_assoc, hunit, hread]
      rfl
    · rw [hu, hjoin]
      rfl

/-! ## Numbers -/

/-- A text that does not go on with a number. -/
def EndsNumber (rest : List Char) : Prop :=
  ∀ c ∈ rest.head?, c.isDigit = false ∧ c ≠ '.' ∧ c ≠ 'e' ∧ c ≠ 'E'

theorem takeDigits_append {digits rest : List Char} (hdigits : ∀ c ∈ digits, c.isDigit = true)
    (hrest : EndsNumber rest) : takeDigits (digits ++ rest) = (digits, rest) := by
  induction digits with
  | nil =>
    cases rest with
    | nil => rfl
    | cons c rest =>
      rcases hrest c (by simp) with ⟨hc, -⟩
      simp [takeDigits, hc]
  | cons c digits ih =>
    have hc := hdigits c List.mem_cons_self
    have htail := ih fun d hd => hdigits d (List.mem_cons_of_mem _ hd)
    simp [takeDigits, hc, htail]

theorem readPlaces_of_ends {rest : List Char} (hrest : EndsNumber rest) :
    readPlaces rest = some ([], rest) := by
  cases rest with
  | nil => rfl
  | cons c rest =>
    rcases hrest c (by simp) with ⟨-, hc, -⟩
    rw [readPlaces]
    exact fun _ h => hc (List.cons.inj h).1

theorem readPower_of_ends {rest : List Char} (hrest : EndsNumber rest) :
    readPower rest = some ([], rest) := by
  cases rest with
  | nil => rfl
  | cons c rest =>
    rcases hrest c (by simp) with ⟨-, -, he, hE⟩
    rw [readPower.eq_def]
    exact if_neg (not_or.mpr ⟨he, hE⟩)

/-- The digits of a number have its value. -/
theorem digitsValue_toDigits (n : Nat) : digitsValue (Nat.toDigits 10 n) = n := by
  have hfold : digitsValue (Nat.toDigits 10 n) = Nat.ofDigitChars 10 (Nat.toDigits 10 n) 0 := by
    rw [digitsValue, Nat.ofDigitChars_eq_foldl]
    simp only [Nat.mul_comm]
  rw [hfold, Nat.ofDigitChars_ten_toDigits]

/-- Only zero is written with a zero in front. -/
theorem eq_zero_of_head?_toDigits {n : Nat} (h : (Nat.toDigits 10 n).head? = some '0') : n = 0 := by
  induction n using Nat.strongRecOn with
  | ind n ih =>
    by_cases hn : n < 10
    · have hdigit : ∀ k < 10, Nat.digitChar k = '0' → k = 0 := by decide
      rw [Nat.toDigits_of_lt_base hn] at h
      exact hdigit n hn (Option.some.inj h)
    · have hne : Nat.toDigits 10 (n / 10) ≠ [] := Nat.toDigits_ne_nil
      rw [Nat.toDigits_of_base_le (by decide) (by omega), List.head?_append_of_ne_nil _ hne] at h
      have := ih (n / 10) (by omega) h
      omega

/-- A natural number is read from its digits, with a minus sign before them if it is not zero. -/
theorem readNumber_toDigits (n : Nat) {rest : List Char} (hrest : EndsNumber rest) :
    readNumber (Nat.toDigits 10 n ++ rest) = some (integer n, rest) ∧
      (n ≠ 0 → readNumber ('-' :: (Nat.toDigits 10 n ++ rest)) = some (integer (-n), rest)) := by
  have hdigits : ∀ c ∈ Nat.toDigits 10 n, c.isDigit = true :=
    fun c hc => Nat.isDigit_of_mem_toDigits (by decide) (by decide) hc
  have htake := takeDigits_append hdigits hrest
  have hwhole : ((Nat.toDigits 10 n).isEmpty || ((Nat.toDigits 10 n).head? = some '0' &&
      1 < (Nat.toDigits 10 n).length)) = false := by
    have hne : (Nat.toDigits 10 n).isEmpty = false := by
      simp [Nat.toDigits_ne_nil]
    rw [hne, Bool.false_or]
    by_cases hhead : (Nat.toDigits 10 n).head? = some '0'
    · rw [eq_zero_of_head?_toDigits hhead]
      rfl
    · simp [hhead]
  have hminus : ∀ cs, Nat.toDigits 10 n ++ rest ≠ '-' :: cs := by
    intro cs h
    cases hn : Nat.toDigits 10 n with
    | nil => exact Nat.toDigits_ne_nil hn
    | cons c digits =>
      have hc := hdigits c (by simp [hn])
      obtain rfl : c = '-' := by
        rw [hn] at h
        exact (List.cons.inj h).1
      simp at hc
  constructor
  · unfold readNumber
    split
    rename_i hsplit
    split at hsplit
    · rename_i h
      exact absurd h (hminus _)
    · obtain ⟨rfl, rfl⟩ := Prod.mk.inj hsplit
      simp only [htake, hwhole, readPlaces_of_ends hrest]
      simp [readPower_of_ends hrest, digitsValue_toDigits]
  · intro hn
    have hzero : Nat.toDigits 10 n ≠ ['0'] := fun h => hn (eq_zero_of_head?_toDigits (by rw [h]; rfl))
    unfold readNumber
    simp only [htake, hwhole, readPlaces_of_ends hrest]
    simp [readPower_of_ends hrest, digitsValue_toDigits, hzero]

/-- Every integer is read from its text, by whatever is no part of a number it is followed. -/
theorem readNumber_integerText (i : Int) {rest : List Char} (hrest : EndsNumber rest) :
    readNumber ((integerText i).toList ++ rest) = some (integer i, rest) := by
  rcases readNumber_toDigits i.natAbs hrest with ⟨hplain, hminus⟩
  rw [integerText, natText]
  split
  · rename_i hi
    have htext : ("-" ++ String.ofList (Nat.toDigits 10 i.natAbs)).toList =
        '-' :: Nat.toDigits 10 i.natAbs := by simp
    have hneg : -(i.natAbs : Int) = i := by omega
    rw [htext, List.cons_append, hminus (by omega), hneg]
  · have hpos : (i.natAbs : Int) = i := by omega
    rw [String.toList_ofList, hplain, hpos]

/-- The text of an integer starts with a digit or a minus sign. -/
theorem exists_integerText (i : Int) :
    ∃ c cs, (integerText i).toList = c :: cs ∧ (c.isDigit = true ∨ c = '-') := by
  rw [integerText, natText]
  split
  · exact ⟨'-', Nat.toDigits 10 i.natAbs, by simp, .inr rfl⟩
  · cases h : Nat.toDigits 10 i.natAbs with
    | nil => exact absurd h Nat.toDigits_ne_nil
    | cons c cs =>
      refine ⟨c, cs, by simp, .inl ?_⟩
      exact Nat.isDigit_of_mem_toDigits (b := 10) (n := i.natAbs) (by decide) (by decide)
        (by simp [h])

/-! ## Values -/

/-- A value that has one text: its numbers are integers, and all its strings stand for texts. -/
inductive Plain : Json → Prop
  | null : Plain .null
  | bool (b : Bool) : Plain (.bool b)
  | integer (i : Int) : Plain (.integer i)
  | string (text : String) : Plain (.string text)
  | array {elements : List Json} (h : ∀ e ∈ elements, Plain e) : Plain (.array elements)
  | object {members : List (String × Json)} (h : ∀ m ∈ members, Plain m.2) :
      Plain (.object members)

/-- The characters that values never start with: the blanks, and what closes an array. -/
def nonStarters : List Char := [' ', '\t', '\n', '\r', ']']

theorem skipSpace_cons {c : Char} (hc : c ∉ nonStarters) (cs : List Char) :
    skipSpace (c :: cs) = c :: cs := by
  simp only [nonStarters, List.mem_cons, List.not_mem_nil, or_false, not_or] at hc
  rw [skipSpace, if_neg (by tauto)]

theorem print_null : print .null = ['n', 'u', 'l', 'l'] := rfl

theorem print_true : print (.bool true) = ['t', 'r', 'u', 'e'] := rfl

theorem print_false : print (.bool false) = ['f', 'a', 'l', 's', 'e'] := rfl

theorem print_integer (i : Int) : print (.integer i) = (integerText i).toList := rfl

theorem print_string (text : String) :
    print (.string text) = '"' :: (text.toList.flatMap escapedChar ++ ['"']) := rfl

theorem print_array (elements : List Json) :
    print (.array elements) = '[' :: (printElements elements ++ [']']) := rfl

theorem print_object (members : List (String × Json)) :
    print (.object members) =
      Char.ofNat 0x7B :: (printMembers members ++ [Char.ofNat 0x7D]) := rfl

theorem printElements_cons (element next : Json) (rest : List Json) :
    printElements (element :: next :: rest) =
      print element ++ ',' :: printElements (next :: rest) := rfl

theorem printMembers_cons (key : String) (value : Json) (next : String × Json)
    (rest : List (String × Json)) :
    printMembers ((key, value) :: next :: rest) =
      printString key ++ ':' :: (print value ++ ',' :: printMembers (next :: rest)) := rfl

/-- A printed value starts as a value. -/
theorem Plain.exists_print {v : Json} (hv : v.Plain) :
    ∃ c cs, v.print = c :: cs ∧ c ∉ nonStarters := by
  cases hv with
  | null => exact ⟨'n', _, print_null, by decide⟩
  | bool b =>
    cases b with
    | true => exact ⟨'t', _, print_true, by decide⟩
    | false => exact ⟨'f', _, print_false, by decide⟩
  | integer i =>
    rcases exists_integerText i with ⟨c, cs, hcs, hc⟩
    refine ⟨c, cs, by rw [print_integer, hcs], ?_⟩
    simp only [nonStarters, List.mem_cons, List.not_mem_nil, or_false]
    rintro (rfl | rfl | rfl | rfl | rfl) <;> simp at hc
  | string text => exact ⟨'"', _, print_string text, by decide⟩
  | array h => exact ⟨'[', _, print_array _, by decide⟩
  | object h => exact ⟨Char.ofNat 0x7B, _, print_object _, by decide⟩

/-- A value is read from its text, given as many steps as that has characters. -/
def Reads (v : Json) : Prop :=
  ∀ steps rest, v.print.length ≤ steps → EndsNumber rest →
    readValue steps (v.print ++ rest) = some (v, rest)

theorem readValue_word {c : Char} {word : List Char} {v : Json} (hprint : v.print = c :: word)
    (hread : ∀ steps rest, readValue (steps + 1) (c :: (word ++ rest)) =
      readWord (c :: word) v (c :: (word ++ rest))) : v.Reads := by
  intro steps rest hsteps _
  rw [hprint] at hsteps ⊢
  cases steps with
  | zero => simp at hsteps
  | succ steps =>
    rw [List.cons_append, hread, readWord, if_pos]
    · simp
    · simp [List.isPrefixOf_iff_prefix]

theorem reads_string (text : String) : (string text).Reads := by
  intro steps rest hsteps _
  rw [print_string] at hsteps ⊢
  cases steps with
  | zero => simp at hsteps
  | succ steps =>
    rcases exists_readUnits_printed text.toList rest with ⟨units, hunits, hjoin⟩
    rw [List.cons_append, List.append_assoc, List.singleton_append, readValue,
      skipSpace_cons (by decide)]
    dsimp only
    rw [if_pos rfl, readStringBody, hunits]
    simp [hjoin]

theorem reads_integer (i : Int) : (integer i).Reads := by
  intro steps rest hsteps hrest
  have hread := readNumber_integerText i hrest
  rcases exists_integerText i with ⟨c, cs, hcs, hc⟩
  rw [print_integer] at hsteps ⊢
  rw [hcs] at hsteps hread ⊢
  cases steps with
  | zero => simp at hsteps
  | succ steps =>
    have hstart : ∀ d : Char, d.isDigit = false ∧ d ≠ '-' → c ≠ d := by
      rintro d hd rfl
      rcases hc with hc | hc
      · simp [hd.1] at hc
      · exact hd.2 hc
    rw [List.cons_append] at hread ⊢
    rw [readValue, skipSpace_cons]
    dsimp only
    rw [if_neg (hstart _ (by decide)), if_neg (hstart _ (by decide)), if_neg (hstart _ (by decide)),
      if_neg (hstart _ (by decide)), if_neg (hstart _ (by decide)), if_neg (hstart _ (by decide)),
      hread]
    simp only [nonStarters, List.mem_cons, List.not_mem_nil, or_false, not_or]
    exact ⟨hstart _ (by decide), hstart _ (by decide), hstart _ (by decide), hstart _ (by decide),
      hstart _ (by decide)⟩

theorem exists_printElements {first : Json} (hfirst : first.Plain) (elements : List Json) :
    ∃ c cs, printElements (first :: elements) = c :: cs ∧ c ∉ nonStarters := by
  rcases hfirst.exists_print with ⟨c, cs, hcs, hc⟩
  cases elements with
  | nil => exact ⟨c, cs, hcs, hc⟩
  | cons next elements =>
    exact ⟨c, cs ++ ',' :: printElements (next :: elements), by
      rw [printElements_cons, hcs, List.cons_append], hc⟩

theorem exists_printMembers (first : String × Json) (members : List (String × Json)) :
    ∃ cs, printMembers (first :: members) = '"' :: cs := by
  rcases first with ⟨key, value⟩
  cases members with
  | nil => exact ⟨_, rfl⟩
  | cons next members => exact ⟨_, rfl⟩

/-- The elements of an array are read from their texts. -/
theorem readElements_printElements {first : Json} {elements : List Json}
    (h : ∀ e ∈ first :: elements, Reads e) :
    ∀ steps rest, (printElements (first :: elements)).length < steps →
      readElements steps (printElements (first :: elements) ++ ']' :: rest) =
        some (first :: elements, rest) := by
  induction elements generalizing first with
  | nil =>
    intro steps rest hsteps
    have hfirst := h first List.mem_cons_self
    cases steps with
    | zero => simp at hsteps
    | succ steps =>
      have hlength : first.print.length ≤ steps := Nat.lt_succ_iff.mp hsteps
      have hends : EndsNumber (']' :: rest) := by simp [EndsNumber]
      rw [readElements]
      rw [show printElements [first] = first.print from rfl, hfirst steps _ hlength hends]
      rfl
  | cons next elements ih =>
    intro steps rest hsteps
    have hfirst := h first List.mem_cons_self
    rw [printElements_cons] at hsteps ⊢
    cases steps with
    | zero => simp at hsteps
    | succ steps =>
      simp only [List.length_append, List.length_cons] at hsteps
      have hends : ∀ cs, EndsNumber (',' :: cs) := fun cs => by simp [EndsNumber]
      have hrest := ih (fun e he => h e (List.mem_cons_of_mem _ he)) steps rest (by omega)
      rw [readElements, List.append_assoc, List.cons_append, hfirst steps _ (by omega) (hends _)]
      simp only [Option.bind_eq_bind, Option.bind_some]
      rw [skipSpace_cons (by decide)]
      simp [hrest]

/-- The key of a member is read from its quoted form. -/
theorem readKey_printString (key : String) (rest : List Char) :
    readKey (skipSpace (printString key ++ rest)) = some (some key, rest) := by
  rcases exists_readUnits_printed key.toList rest with ⟨units, hunits, hjoin⟩
  rw [printString, List.cons_append, List.append_assoc, List.singleton_append,
    skipSpace_cons (by decide), readKey, hunits]
  simp [hjoin]

/-- The members of an object are read from their texts. -/
theorem readMembers_printMembers {first : String × Json} {members : List (String × Json)}
    (h : ∀ m ∈ first :: members, Reads m.2) :
    ∀ steps rest, (printMembers (first :: members)).length < steps →
      readMembers steps (printMembers (first :: members) ++ Char.ofNat 0x7D :: rest) =
        some (some (first :: members), rest) := by
  induction members generalizing first with
  | nil =>
    intro steps rest hsteps
    rcases first with ⟨key, value⟩
    have hvalue : value.Reads := h (key, value) List.mem_cons_self
    rw [show printMembers [(key, value)] = printString key ++ ':' :: print value from rfl] at hsteps ⊢
    simp only [List.length_append, List.length_cons] at hsteps
    cases steps with
    | zero => simp at hsteps
    | succ steps =>
      have hends : EndsNumber (Char.ofNat 0x7D :: rest) := by simp [EndsNumber]
      rw [readMembers, List.append_assoc, readKey_printString]
      simp only [List.cons_append, Option.bind_eq_bind, Option.bind_some]
      rw [skipSpace_cons (by decide)]
      change (readValue steps _).bind _ = _
      rw [hvalue steps _ (by omega) hends]
      simp only [Option.bind_some]
      rw [skipSpace_cons (by decide)]
      rfl
  | cons next members ih =>
    intro steps rest hsteps
    rcases first with ⟨key, value⟩
    have hvalue : value.Reads := h (key, value) List.mem_cons_self
    rw [printMembers_cons] at hsteps ⊢
    simp only [List.length_append, List.length_cons] at hsteps
    cases steps with
    | zero => simp at hsteps
    | succ steps =>
      have hends : ∀ cs, EndsNumber (',' :: cs) := fun cs => by simp [EndsNumber]
      have hrest := ih (fun m hm => h m (List.mem_cons_of_mem _ hm)) steps rest (by omega)
      rw [readMembers, List.append_assoc, readKey_printString]
      simp only [List.cons_append, List.append_assoc, Option.bind_eq_bind, Option.bind_some]
      rw [skipSpace_cons (by decide)]
      change (readValue steps _).bind _ = _
      rw [hvalue steps _ (by omega) (hends _)]
      simp only [Option.bind_some]
      rw [skipSpace_cons (by decide)]
      simp [hrest, consMember]

theorem reads_array {elements : List Json} (h : ∀ e ∈ elements, e.Plain ∧ e.Reads) :
    (array elements).Reads := by
  intro steps rest hsteps _
  rw [print_array] at hsteps ⊢
  simp only [List.length_append, List.length_cons, List.length_nil] at hsteps
  cases steps with
  | zero => simp at hsteps
  | succ steps =>
    rw [List.cons_append, List.append_assoc, List.singleton_append, readValue,
      skipSpace_cons (by decide)]
    dsimp only
    rw [if_neg (by decide), if_pos rfl]
    cases elements with
    | nil => simp [printElements, skipSpace]
    | cons first elements =>
      have hread := readElements_printElements (fun e he => (h e he).2) steps rest (by omega)
      rcases exists_printElements (h first List.mem_cons_self).1 elements with ⟨c, cs, hcs, hc⟩
      rw [hcs, List.cons_append, skipSpace_cons hc]
      rw [hcs, List.cons_append] at hread
      split
      · rename_i hclose
        obtain ⟨rfl, -⟩ := List.cons.inj hclose
        simp [nonStarters] at hc
      · rw [hread]
        rfl

theorem reads_object {members : List (String × Json)} (h : ∀ m ∈ members, m.2.Reads) :
    (object members).Reads := by
  intro steps rest hsteps _
  rw [print_object] at hsteps ⊢
  simp only [List.length_append, List.length_cons, List.length_nil] at hsteps
  cases steps with
  | zero => simp at hsteps
  | succ steps =>
    rw [List.cons_append, List.append_assoc, List.singleton_append, readValue,
      skipSpace_cons (by decide)]
    dsimp only
    rw [if_neg (by decide), if_neg (by decide), if_pos rfl]
    cases members with
    | nil => rfl
    | cons first members =>
      have hread := readMembers_printMembers h steps rest (by omega)
      rcases exists_printMembers first members with ⟨cs, hcs⟩
      rw [hcs, List.cons_append, skipSpace_cons (by decide)]
      rw [hcs, List.cons_append] at hread
      dsimp only
      rw [if_neg (by decide), hread]
      rfl

/-- Every plain value is read from its text. -/
theorem Plain.reads {v : Json} (hv : v.Plain) : v.Reads := by
  induction hv with
  | null => exact readValue_word print_null fun _ _ => rfl
  | bool b =>
    cases b with
    | true => exact readValue_word print_true fun _ _ => rfl
    | false => exact readValue_word print_false fun _ _ => rfl
  | integer i => exact reads_integer i
  | string text => exact reads_string text
  | array h ih => exact reads_array fun e he => ⟨h e he, ih e he⟩
  | object _ ih => exact reads_object ih

/-- Every plain value is the value that its whole text is read as. -/
theorem Plain.parse_text {v : Json} (hv : v.Plain) : parse v.text = some v := by
  have hread := hv.reads (2 * v.print.length + 1) [] (by omega) (by simp [EndsNumber])
  rw [List.append_nil] at hread
  rw [parse, text, String.toList_ofList, hread]
  rfl

end TypeConversion.Json
