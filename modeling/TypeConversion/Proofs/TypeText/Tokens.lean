import TypeConversion.Registry.TypeText
import Mathlib.Data.List.TakeWhile

/-!
# Tokens of type texts

A type text is a sequence of tokens: names, which go on as long as they can, and single marks.
Between tokens and at both ends there may be blanks.

**Results**

* `lexes_of_skipBlanks`, `Lexes.skipBlanks`: blanks before the first token do not matter;
* `Lexes.front`: how a text goes on after its blanks;
* `readName_eq_some_iff`, `readKeyword_eq_some_iff`: what the reader splits off a text.
-/

namespace TypeConversion

/-- The tokens of type texts. -/
inductive Token where
  | name (word : String)
  | less
  | greater
  | comma
  | question
  | opening
  | closing
deriving DecidableEq, Repr

/-- The character that a token consists of, unless it is a name. -/
def Token.char? : Token → Option Char
  | name _ => none
  | less => some '<'
  | greater => some '>'
  | comma => some ','
  | question => some '?'
  | opening => some '['
  | closing => some ']'

/-- A name at the front of a text, as long as it can be, and the rest of the text. -/
def IsName (cs : List Char) (name : String) (rest : List Char) : Prop :=
  ∃ c word, cs = c :: (word ++ rest) ∧ name = String.ofList (c :: word) ∧ startsName c = true ∧
    (∀ d ∈ word, continuesName d = true) ∧ ∀ d ∈ rest.head?, continuesName d = false

/-- A text is a sequence of tokens with blanks around them. -/
inductive Lexes : List Char → List Token → Prop
  | nil : Lexes [] []
  | blank {c : Char} {cs : List Char} {ts : List Token} (hc : isBlank c = true)
      (h : Lexes cs ts) : Lexes (c :: cs) ts
  | mark {c : Char} {cs : List Char} {t : Token} {ts : List Token} (hc : t.char? = some c)
      (h : Lexes cs ts) : Lexes (c :: cs) (t :: ts)
  | name {cs rest : List Char} {name : String} {ts : List Token} (hname : IsName cs name rest)
      (h : Lexes rest ts) : Lexes cs (.name name :: ts)

/-! ## Characters -/

theorem not_withinAny_of_disjoint {as bs : List (Nat × Nat)}
    (h : ∀ a ∈ as, ∀ b ∈ bs, a.2 < b.1 ∨ b.2 < a.1) {n : Nat} (hn : withinAny as n = true) :
    withinAny bs n = false := by
  rw [← Bool.not_eq_true, withinAny_iff]
  obtain ⟨a, ha, hlow, hhigh⟩ := (withinAny_iff as n).mp hn
  rintro ⟨b, hb, hlow', hhigh'⟩
  have := h a ha b hb
  omega

theorem isLetter_of_isBlank {c : Char} (h : isBlank c = true) : isLetter c = false := by
  rw [isLetter]
  split
  · have hsmall : ∀ n < 0x80, withinAny blankIntervals n = true →
        (Char.ofNat n).isAlpha = false := by decide +kernel
    rename_i hc
    simpa using hsmall c.toNat hc h
  · exact not_withinAny_of_disjoint (by decide +kernel) h

/-- Nothing that starts a name is blank. -/
theorem isBlank_of_startsName {c : Char} (h : startsName c = true) : isBlank c = false := by
  by_contra hblank
  have hblank : isBlank c = true := by simpa using hblank
  rw [startsName, isLetter_of_isBlank hblank, Bool.false_or, Bool.or_eq_true, decide_eq_true_eq,
    decide_eq_true_eq] at h
  rcases h with rfl | rfl <;> revert hblank <;> decide

/-- What starts a name is part of a word. -/
theorem isWordChar_of_startsName {c : Char} (h : startsName c = true) : isWordChar c = true := by
  simp only [startsName, isWordChar, Bool.or_eq_true] at h ⊢
  rcases h with (h | h) | h
  · exact .inl (.inl (.inl h))
  · exact .inl (.inr h)
  · exact .inr h

section

variable {t : Token} {c : Char}

theorem isBlank_of_char? (h : t.char? = some c) : isBlank c = false := by
  cases t <;> simp only [Token.char?, Option.some.injEq, reduceCtorEq] at h
  all_goals subst h; decide

theorem startsName_of_char? (h : t.char? = some c) : startsName c = false := by
  cases t <;> simp only [Token.char?, Option.some.injEq, reduceCtorEq] at h
  all_goals subst h; decide

theorem Token.eq_of_char? {t' : Token} (h : t.char? = some c) (h' : t'.char? = some c) :
    t = t' := by
  cases t <;> simp only [Token.char?, Option.some.injEq, reduceCtorEq] at h
  all_goals subst h; cases t' <;> simp [Token.char?] at h' ⊢

end

/-! ## Blanks -/

theorem skipBlanks_of_not_blank {c : Char} (h : isBlank c = false) (cs : List Char) :
    skipBlanks (c :: cs) = c :: cs := by
  simp [skipBlanks, h]

theorem isBlank_of_skipBlanks {c : Char} {cs rest : List Char} (h : skipBlanks cs = c :: rest) :
    isBlank c = false := by
  rw [skipBlanks_eq_dropWhile] at h
  have hnot := List.head?_dropWhile_not isBlank cs
  rwa [h] at hnot

theorem IsName.skipBlanks {cs rest : List Char} {name : String} (h : IsName cs name rest) :
    TypeConversion.skipBlanks cs = cs := by
  obtain ⟨c, word, rfl, -, hc, -⟩ := h
  exact skipBlanks_of_not_blank (isBlank_of_startsName hc) _

theorem lexes_of_skipBlanks {cs : List Char} {ts : List Token} (h : Lexes (skipBlanks cs) ts) :
    Lexes cs ts := by
  induction cs with
  | nil => exact h
  | cons c cs ih =>
    cases hc : isBlank c with
    | true =>
      rw [skipBlanks, if_pos hc] at h
      exact .blank hc (ih h)
    | false => rwa [skipBlanks_of_not_blank hc] at h

theorem Lexes.skipBlanks {cs : List Char} {ts : List Token} (h : Lexes cs ts) :
    Lexes (skipBlanks cs) ts := by
  induction h with
  | nil => exact .nil
  | blank hc _ ih => rwa [TypeConversion.skipBlanks, if_pos hc]
  | mark hc h _ =>
    rw [skipBlanks_of_not_blank (isBlank_of_char? hc)]
    exact .mark hc h
  | name hname h _ =>
    rw [hname.skipBlanks]
    exact .name hname h

/-! ## The first token -/

section

variable {cs : List Char} {ts : List Token}

theorem Lexes.length_le (h : Lexes cs ts) : ts.length ≤ cs.length := by
  induction h with
  | nil => exact Nat.le_refl _
  | blank _ _ ih | mark _ _ ih => simp; omega
  | name hname _ ih =>
    obtain ⟨c, word, rfl, -⟩ := hname
    simp
    omega

/-- After its blanks a text is over, or goes on with a mark or a name. -/
theorem Lexes.front (h : Lexes cs ts) :
    (TypeConversion.skipBlanks cs = [] ∧ ts = []) ∨
    (∃ t c rest ts', t.char? = some c ∧ TypeConversion.skipBlanks cs = c :: rest ∧
      ts = t :: ts' ∧ Lexes rest ts') ∨
    ∃ name rest ts', IsName (TypeConversion.skipBlanks cs) name rest ∧ ts = .name name :: ts' ∧
      Lexes rest ts' := by
  induction h with
  | nil => exact .inl ⟨rfl, rfl⟩
  | blank hc _ ih => simpa only [TypeConversion.skipBlanks, if_pos hc] using ih
  | @mark c cs t ts hc h _ =>
    rw [skipBlanks_of_not_blank (isBlank_of_char? hc)]
    exact .inr (.inl ⟨t, c, cs, ts, hc, rfl, rfl, h⟩)
  | @name cs rest name ts hname h _ =>
    rw [hname.skipBlanks]
    exact .inr (.inr ⟨name, rest, ts, hname, rfl, h⟩)

theorem Lexes.skipBlanks_eq_nil (h : Lexes cs []) : TypeConversion.skipBlanks cs = [] := by
  rcases h.front with ⟨hcs, -⟩ | ⟨_, _, _, _, _, _, hts, _⟩ | ⟨_, _, _, _, hts, _⟩
  · exact hcs
  · simp at hts
  · simp at hts

theorem Lexes.exists_mark {t : Token} {c : Char} (h : Lexes cs (t :: ts)) (hc : t.char? = some c) :
    ∃ rest, TypeConversion.skipBlanks cs = c :: rest ∧ Lexes rest ts := by
  rcases h.front with ⟨-, hts⟩ | ⟨_, _, rest, _, hc', hcs, hts, hrest⟩ | ⟨_, _, _, _, hts, _⟩
  · simp at hts
  · obtain ⟨rfl, rfl⟩ := List.cons.inj hts
    obtain rfl := Option.some.inj (hc.symm.trans hc')
    exact ⟨rest, hcs, hrest⟩
  · obtain ⟨rfl, -⟩ := List.cons.inj hts
    simp [Token.char?] at hc

theorem Lexes.exists_name {name : String} (h : Lexes cs (.name name :: ts)) :
    ∃ rest, IsName (TypeConversion.skipBlanks cs) name rest ∧ Lexes rest ts := by
  rcases h.front with ⟨-, hts⟩ | ⟨_, _, _, _, hc, _, hts, _⟩ | ⟨_, rest, _, hname, hts, hrest⟩
  · simp at hts
  · obtain ⟨rfl, -⟩ := List.cons.inj hts
    simp [Token.char?] at hc
  · obtain ⟨heq, rfl⟩ := List.cons.inj hts
    obtain rfl := Token.name.inj heq
    exact ⟨rest, hname, hrest⟩

/--
A word that ends before a name ends as a name too: a dot would make the name longer, but no name
starts with one.
-/
theorem Lexes.not_continuesName_of_boundary {name : String} (h : Lexes cs (.name name :: ts))
    (hboundary : ∀ c ∈ cs.head?, isWordChar c = false) :
    ∀ c ∈ cs.head?, continuesName c = false := by
  rintro c hc
  cases cs with
  | nil => simp at hc
  | cons c' cs =>
    obtain rfl : c' = c := by simpa using hc
    cases hblank : isBlank c' with
    | true =>
      have hdot : c' ≠ '.' := by
        rintro rfl
        revert hblank
        decide
      simp [continuesName, hboundary c' rfl, hdot]
    | false =>
      obtain ⟨_, ⟨d, _, heq, -, hd, -⟩, -⟩ := h.exists_name
      rw [skipBlanks_of_not_blank hblank] at heq
      obtain ⟨rfl, -⟩ := List.cons.inj heq
      simpa [isWordChar_of_startsName hd] using hboundary c' rfl

/-- A text that starts with a mark has it as its first token. -/
theorem Lexes.head?_of_skipBlanks {t : Token} {c : Char} {rest : List Char} (h : Lexes cs ts)
    (ht : t.char? = some c) (hcs : TypeConversion.skipBlanks cs = c :: rest) :
    ts.head? = some t := by
  rcases h.front with ⟨hnil, -⟩ | ⟨_, _, _, _, hc, hmark, rfl, -⟩ | ⟨_, _, _, hname, -, -⟩
  · simp [hcs] at hnil
  · obtain ⟨rfl, -⟩ := List.cons.inj (hcs.symm.trans hmark)
    exact congrArg some (Token.eq_of_char? hc ht)
  · obtain ⟨_, _, heq, -, hstarts, -⟩ := hname
    obtain ⟨rfl, -⟩ := List.cons.inj (hcs.symm.trans heq)
    simp [startsName_of_char? ht] at hstarts

end

/-! ## What the reader splits off -/

theorem takeWhile_continuesName {word rest : List Char} (hword : ∀ d ∈ word, continuesName d = true)
    (hmax : ∀ d ∈ rest.head?, continuesName d = false) :
    (word ++ rest).takeWhile continuesName = word ∧
      (word ++ rest).dropWhile continuesName = rest := by
  have hrest : rest.takeWhile continuesName = [] ∧ rest.dropWhile continuesName = rest := by
    cases rest with
    | nil => simp
    | cons d rest => simp [hmax d rfl]
  rw [List.takeWhile_append_of_pos hword, List.dropWhile_append_of_pos hword]
  simp [hrest]

/-- The reader takes a name off a text as long as it can be. -/
theorem readName_eq_some_iff (cs : List Char) (name : String) (rest : List Char) :
    readName cs = some (name, rest) ↔ IsName cs name rest := by
  constructor
  · intro h
    cases cs with
    | nil => simp [readName] at h
    | cons c cs =>
      by_cases hc : startsName c = true
      · rw [readName, if_pos hc] at h
        obtain ⟨rfl, rfl⟩ := Prod.mk.inj (Option.some.inj h)
        refine ⟨c, cs.takeWhile continuesName, ?_, rfl, hc, ?_, ?_⟩
        · rw [List.takeWhile_append_dropWhile]
        · exact fun d hd => List.mem_takeWhile_imp hd
        · intro d hd
          have hnot := List.head?_dropWhile_not continuesName cs
          rwa [Option.mem_def.mp hd] at hnot
      · simp [readName, hc] at h
  · rintro ⟨c, word, rfl, rfl, hc, hword, hmax⟩
    obtain ⟨htake, hdrop⟩ := takeWhile_continuesName hword hmax
    simp [readName, hc, htake, hdrop]

/-- The reader takes a word off a text that does not go on with it. -/
theorem readKeyword_eq_some_iff (word cs rest : List Char) :
    readKeyword word cs = some rest ↔
      cs = word ++ rest ∧ ∀ c ∈ rest.head?, isWordChar c = false := by
  rw [readKeyword]
  by_cases hword : word.isPrefixOf cs = true
  · obtain ⟨after, rfl⟩ := List.isPrefixOf_iff_prefix.mp hword
    simp only [hword, if_true, List.drop_left, List.append_cancel_left_eq]
    cases after with
    | nil =>
      constructor
      · intro h
        obtain rfl : [] = rest := Option.some.inj h
        simp
      · rintro ⟨rfl, -⟩
        rfl
    | cons c after =>
      cases hc : isWordChar c with
      | true =>
        simp only [hc, if_true, reduceCtorEq, false_iff, not_and]
        rintro rfl hboundary
        simp [hboundary c rfl] at hc
      | false =>
        simp only [hc, Bool.false_eq_true, if_false, Option.some.injEq]
        constructor
        · rintro rfl
          exact ⟨rfl, by simpa using hc⟩
        · exact fun h => h.1
  · have hne : cs ≠ word ++ rest := by
      rintro rfl
      exact hword (List.isPrefixOf_iff_prefix.mpr (List.prefix_append _ _))
    simp [hword, hne]

end TypeConversion
