import TypeConversion.Proofs.Conversion.Delimited
import TypeConversion.Proofs.Conversion.FirstMet

/-!
# Scalars are read back from their texts

Integers, truth values and enum constants are what their texts are converted to, by the converter
for their kind.  Their texts are not blank and have no blanks at either end.

**Results**

* `readInteger_integerText`: an integer is read back from its digits within every range it lies in;
* `ElementKind.isUnpadded`: the texts have no blanks around them;
* `ElementKind.converter_gives`: the converter for a kind reads values of the kind back.
-/

namespace TypeConversion

open Attempt Registry

/-! ## Integers -/

/-- A number of digits with its sign. -/
def signedValue (negative : Bool) (n : Nat) : Int := if negative then -n else n

theorem le_ofDigitChars (cs : List Char) (n : Nat) : n ≤ Nat.ofDigitChars 10 cs n := by
  induction cs generalizing n with
  | nil => simp
  | cons c cs ih =>
    rw [Nat.ofDigitChars_cons]
    have hnext := ih (10 * n + (c.toNat - '0'.toNat))
    omega

/-- Digits are read as their value, as long as that lies in the range. -/
theorem readDigits_of_isDigit {range : IntegerRange} {negative : Bool} {cs : List Char}
    (hdigits : ∀ c ∈ cs, c.isDigit = true) {n : Nat}
    (hrange : range.contains (signedValue negative (Nat.ofDigitChars 10 cs n)) = true) :
    readDigits range negative (signedValue negative n) cs =
      .ok (signedValue negative (Nat.ofDigitChars 10 cs n)) := by
  induction cs generalizing n with
  | nil => rfl
  | cons c cs ih =>
    rcases List.forall_mem_cons.mp hdigits with ⟨hc, hrest⟩
    rw [Nat.ofDigitChars_cons] at hrange ⊢
    have hread := ih hrest hrange
    have hle := le_ofDigitChars cs (10 * n + (c.toNat - '0'.toNat))
    simp only [IntegerRange.contains, Bool.and_eq_true, decide_eq_true_eq] at hrange
    rw [readDigits, digitValue?, if_pos hc]
    cases negative with
    | true =>
      simp only [signedValue, if_true] at hrange hread ⊢
      have hnext : -(n : Int) * 10 - ((c.toNat - '0'.toNat : Nat) : Int) =
          -((10 * n + (c.toNat - '0'.toNat) : Nat) : Int) := by omega
      rw [hnext, if_pos (by omega)]
      exact hread
    | false =>
      simp only [signedValue, Bool.false_eq_true, if_false] at hrange hread ⊢
      have hnext : (n : Int) * 10 + ((c.toNat - '0'.toNat : Nat) : Int) =
          ((10 * n + (c.toNat - '0'.toNat) : Nat) : Int) := by omega
      rw [hnext, if_pos (by omega)]
      exact hread

theorem isDigit_of_mem_toDigits {n : Nat} {c : Char} (h : c ∈ Nat.toDigits 10 n) :
    c.isDigit = true :=
  Nat.isDigit_of_mem_toDigits (by decide) (by decide) h

/-- The digits of a number are read back, after a minus sign as well. -/
theorem readInteger_toDigits {range : IntegerRange} (negative : Bool) {n : Nat}
    (hsign : negative = true → range.lowest < 0)
    (hrange : range.contains (signedValue negative n) = true) :
    readInteger range ((if negative then ['-'] else []) ++ Nat.toDigits 10 n) =
      .ok (signedValue negative n) := by
  have hread : readDigits range negative 0 (Nat.toDigits 10 n) = .ok (signedValue negative n) := by
    have hdigits : ∀ c ∈ Nat.toDigits 10 n, c.isDigit = true :=
      fun _ => isDigit_of_mem_toDigits
    have hvalue : signedValue negative (Nat.ofDigitChars 10 (Nat.toDigits 10 n) 0) =
        signedValue negative n := by rw [Nat.ofDigitChars_ten_toDigits]
    rw [← hvalue] at hrange ⊢
    cases negative <;> exact readDigits_of_isDigit hdigits hrange
  cases hcs : Nat.toDigits 10 n with
  | nil => exact absurd hcs Nat.toDigits_ne_nil
  | cons c rest =>
    rw [hcs] at hread
    have hc : c.isDigit = true := isDigit_of_mem_toDigits (hcs ▸ List.mem_cons_self)
    have hplus : c ≠ '+' := by
      rintro rfl
      exact absurd hc (by decide)
    have hminus : c ≠ '-' := by
      rintro rfl
      exact absurd hc (by decide)
    cases negative with
    | true =>
      simp only [if_true, List.cons_append, List.nil_append]
      rw [readInteger]
      · simpa [hsign rfl] using hread
      all_goals simp
    | false =>
      simp only [Bool.false_eq_true, if_false, List.nil_append]
      rw [readInteger]
      · exact hread
      all_goals simp [hplus, hminus]

theorem toList_integerText (n : Int) :
    (integerText n).toList = (if n < 0 then ['-'] else []) ++ Nat.toDigits 10 n.natAbs := by
  rw [integerText]
  split <;> simp [natText]

/-- The range of a number of bits. -/
theorem contains_signed {bits : Nat} {n : Int} (hlow : -2 ^ (bits - 1) ≤ n)
    (hhigh : n < 2 ^ (bits - 1)) : (IntegerRange.signed bits).contains n = true := by
  have hpow : ((Nat.pow 2 (bits - 1) : Nat) : Int) = 2 ^ (bits - 1) := by simp
  simp only [IntegerRange.contains, IntegerRange.signed, hpow, Bool.and_eq_true, decide_eq_true_eq]
  omega

/-- An integer is read back from its text within every range it lies in. -/
theorem readInteger_integerText {range : IntegerRange} {n : Int}
    (h : range.contains n = true) : readInteger range (integerText n).toList = .ok n := by
  have hvalue : signedValue (decide (n < 0)) n.natAbs = n := by
    simp only [signedValue, decide_eq_true_eq]
    split <;> omega
  have hlow : range.lowest ≤ n := by
    simp only [IntegerRange.contains, Bool.and_eq_true, decide_eq_true_eq] at h
    exact h.1
  have hsign : decide (n < 0) = true → range.lowest < 0 := by
    simp only [decide_eq_true_eq]
    omega
  have hread := readInteger_toDigits (n := n.natAbs) (decide (n < 0)) hsign (by rwa [hvalue])
  rw [hvalue] at hread
  rw [toList_integerText]
  simpa using hread

theorem isUnpadded_integerText (n : Int) : IsUnpadded (integerText n) := by
  have hdigit : ∀ c : Char, c.isDigit = true → isBlank c = false := by
    intro c hc
    have hsmall : ∀ k < 58, 48 ≤ k → withinAny blankIntervals k = false := by decide
    rw [Char.isDigit_iff_toNat] at hc
    exact hsmall c.toNat (Nat.lt_succ_of_le hc.2) hc.1
  refine isUnpadded_of_forall ?_ ?_
  · rw [toList_integerText]
    simp [Nat.toDigits_ne_nil]
  · intro c hc
    rw [toList_integerText] at hc
    rcases List.mem_append.mp hc with hc | hc
    · split at hc
      · obtain rfl := List.mem_singleton.mp hc
        decide
      · simp at hc
    · exact hdigit c (isDigit_of_mem_toDigits hc)

namespace NumericKind

variable {kind : NumericKind} {range : IntegerRange}

/-- A type that is boxed as the box of a kind holds numbers of the kind. -/
theorem ofErasure?_of_boxed {r : Registry} (hbase : r.ExtendsBase) {e : Erasure}
    (h : r.boxed e = .ofClass (kind.box r)) : ofErasure? r e = some kind := by
  have hlookup : (boxes r).lookup (kind.box r) = some kind := by
    cases kind <;> simp only [boxes, box, hbase.wellKnown] <;> rfl
  rw [ofErasure?, h, Erasure.asClass?_ofClass, Option.bind_some, hlookup]

/-- An integral kind reads the integers in its range back. -/
theorem read_integerText (hrange : kind.range? = some range) {n : Int}
    (h : range.contains n = true) : kind.read (integerText n) = .ok (kind.ofInteger n) := by
  have hread := readInteger_integerText h
  cases kind with
  | byte | short | int | long =>
    obtain rfl := Option.some.inj hrange
    simp only [read, range?, hread]
  | float | double => simp [range?] at hrange

end NumericKind

namespace Builtin

variable {r : Registry} {ctx : ConversionContext} {source target : TypeDescriptor}

/-- A number is given for the text of an integer in the range of the target. -/
theorem stringToNumber_gives_integer {kind : NumericKind}
    (htarget : NumericKind.ofErasure? target.registry target.erasure = some kind)
    {range : IntegerRange} (hrange : kind.range? = some range) {n : Int}
    (h : range.contains n = true) :
    ((stringToNumber r).run ctx (some (.string (integerText n))) source target).Gives
      (some (kind.ofInteger n)) := by
  have hunpadded := isUnpadded_integerText n
  simp only [stringToNumber, onText, onValue, Value.asText?, hunpadded.trimmed,
    hunpadded.isEmpty_eq_false, Bool.false_eq_true, if_false, htarget,
    NumericKind.read_integerText hrange h]
  exact (gives_pure_iff ..).mpr rfl

/-- A truth value is given for its text. -/
theorem stringToBoolean_gives_text (b : Bool) :
    ((stringToBoolean r).run ctx (some (.string (Value.boolean b).text)) source target).Gives
      (some (.boolean b)) := by
  cases b <;> rfl

/-- A constant of the target is given for its name. -/
theorem stringToEnum_gives_constant {c : ClassId} {d : ClassDef} {name : String}
    (htarget : target.erasure = .ofClass c) (henum : target.registry.isEnum (.ofClass c) = true)
    (hd : target.registry.class? c = some d) (hname : name ∈ d.enumConstants)
    (hunpadded : IsUnpadded name) :
    ((stringToEnum r).run ctx (some (.string name)) source target).Gives
      (some (.enumConstant c name)) := by
  simp only [stringToEnum, onText, onValue, Value.asText?, hunpadded.trimmed,
    hunpadded.isEmpty_eq_false, Bool.false_eq_true, if_false, htarget, Erasure.asClass?_ofClass,
    Option.filter_some, henum, if_true, hd, Option.any_some, List.contains_iff_mem.mpr hname]
  exact (gives_pure_iff ..).mpr rfl

end Builtin

/-! ## Kinds of elements -/

/-- The kinds of values that are told apart by their texts. -/
inductive ElementKind where
  | byte
  | short
  | int
  | long
  | boolean
  | constant (enumClass : ClassId)

namespace ElementKind

/-- The class of the values of a kind. -/
def class_ (r : Registry) : ElementKind → ClassId
  | byte => r.wellKnown.byte
  | short => r.wellKnown.short
  | int => r.wellKnown.integer
  | long => r.wellKnown.long
  | boolean => r.wellKnown.boolean
  | constant c => c

/-- An enum has to be plain. -/
def IsPlain (r : Registry) : ElementKind → Prop
  | constant c => ConversionService.IsPlainEnum r c
  | _ => True

/-- The values of a kind.  The constants are those whose names have no blanks around them. -/
inductive Holds (r : Registry) : ElementKind → Value → Prop
  | byte (n : Int8) : Holds r byte (.byte n)
  | short (n : Int16) : Holds r short (.short n)
  | int (n : Int32) : Holds r int (.int n)
  | long (n : Int64) : Holds r long (.long n)
  | boolean (b : Bool) : Holds r boolean (.boolean b)
  | constant {c : ClassId} {d : ClassDef} {name : String} (hd : r.class? c = some d)
      (hname : name ∈ d.enumConstants) (hunpadded : IsUnpadded name) :
      Holds r (constant c) (.enumConstant c name)

/-- The converter from strings to the values of a kind. -/
def converter (r : Registry) : ElementKind → Converter
  | byte | short | int | long => Builtin.stringToNumber r
  | boolean => Builtin.stringToBoolean r
  | constant _ => Builtin.stringToEnum r

variable {r : Registry} {kind : ElementKind} {x : Value}

theorem Holds.erasure (h : kind.Holds r x) : x.erasure r = .ofClass (kind.class_ r) := by
  cases h <;> rfl

/-- The texts of values have no blanks around them. -/
theorem Holds.isUnpadded (h : kind.Holds r x) : IsUnpadded x.text := by
  cases h with
  | byte n | short n | int n | long n => exact isUnpadded_integerText n.toInt
  | boolean b =>
    cases b with
    | true => exact ⟨by decide, by decide⟩
    | false => exact ⟨by decide, by decide⟩
  | constant _ _ hunpadded => exact hunpadded

/-- The converter for a kind reads its values back from their texts. -/
theorem Holds.converter_gives (hbase : r.ExtendsBase) (hkind : kind.IsPlain r)
    (h : kind.Holds r x) {ctx : ConversionContext} {source target : TypeDescriptor}
    (hregistry : target.registry = r)
    (htarget : r.boxed target.erasure = .ofClass (kind.class_ r)) :
    ((kind.converter r).run ctx (some (.string x.text)) source target).Gives (some x) := by
  have hinteger : ∀ (k : NumericKind) (range : IntegerRange) (n : Int),
      r.boxed target.erasure = .ofClass (k.box r) → k.range? = some range →
      range.contains n = true →
      ((Builtin.stringToNumber r).run ctx (some (.string (integerText n))) source target).Gives
        (some (k.ofInteger n)) := by
    intro k range n hbox hrange hn
    refine Builtin.stringToNumber_gives_integer ?_ hrange hn
    rw [hregistry]
    exact NumericKind.ofErasure?_of_boxed hbase hbox
  cases h with
  | byte n =>
    have hgives := hinteger .byte _ n.toInt htarget rfl (contains_signed n.le_toInt n.toInt_lt)
    rwa [NumericKind.ofInteger, Int8.ofInt_toInt] at hgives
  | short n =>
    have hgives := hinteger .short _ n.toInt htarget rfl (contains_signed n.le_toInt n.toInt_lt)
    rwa [NumericKind.ofInteger, Int16.ofInt_toInt] at hgives
  | int n =>
    have hgives := hinteger .int _ n.toInt htarget rfl (contains_signed n.le_toInt n.toInt_lt)
    rwa [NumericKind.ofInteger, Int32.ofInt_toInt] at hgives
  | long n =>
    have hgives := hinteger .long _ n.toInt htarget rfl (contains_signed n.le_toInt n.toInt_lt)
    rwa [NumericKind.ofInteger, Int64.ofInt_toInt] at hgives
  | boolean b => exact Builtin.stringToBoolean_gives_text b
  | constant hd hname hunpadded =>
    subst hregistry
    exact Builtin.stringToEnum_gives_constant (hkind.eq_of_boxed hbase htarget) hkind.isEnum hd
      hname hunpadded

/-- From strings the converter for a kind is met first. -/
theorem meetsFirst (hbase : r.ExtendsBase) (hkind : kind.IsPlain r) {t : Erasure}
    (ht : r.boxed t = .ofClass (kind.class_ r)) :
    ConversionService.MeetsFirst r (Builtin.stringClass r) t (kind.converter r) := by
  cases kind with
  | byte | short | int | long | boolean =>
    refine ConversionService.meetsFirst_box hbase ?_ ht ?_ ?_
    · simp [class_, WellKnown.boxes]
    · simp [converter, Builtin.defaults]
    · simp [class_, converter, Builtin.stringToNumber, Builtin.stringToBoolean, Builtin.stringClass,
        NumericKind.boxes]
  | constant c => exact hkind.meetsFirst_constant hbase ht

/-- Its values have their own texts. -/
theorem meetsFirst_text (hbase : r.ExtendsBase) (hkind : kind.IsPlain r) :
    ConversionService.MeetsFirst r (.ofClass (kind.class_ r)) (Builtin.stringClass r)
      (Builtin.objectToString r) := by
  cases kind with
  | byte | short | int | long | boolean =>
    exact ConversionService.meetsFirst_boxText hbase (by simp [class_, WellKnown.boxes])
  | constant c => exact hkind.meetsFirst_constantText hbase

theorem converter_accepts (kind : ElementKind) (ctx : ConversionContext)
    (source target : TypeDescriptor) :
    (kind.converter r).accepts ctx source target = some true := by
  cases kind <;> rfl

end ElementKind

end TypeConversion
