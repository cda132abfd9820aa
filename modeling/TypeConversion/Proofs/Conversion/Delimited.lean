import TypeConversion.Builtin.Elements
import Mathlib.Data.List.Basic

/-!
# Texts of elements are taken apart again

Texts that are joined by a delimiter are what the joined text is split into, if no character of the
delimiter occurs in any of them: a search from left to right finds the delimiters where they were
put, and nowhere else.  Where blanks around elements are dropped, and where a blank text has no
elements, the texts have to be without blanks at either end.

The other way round nothing is asked of the text: what a search has passed over and the delimiters
that it has found make up the text again, also where delimiters stand side by side or overlap.

**Results**

* `splitText_joinTexts`: joining and splitting;
* `splitElements_joinTexts`: so it is for the elements of a text, whatever the settings;
* `joinTexts_splitText`: splitting and joining;
* `joinTexts_splitElements`: so it is for the elements of a text, if no blanks are dropped.
-/

namespace TypeConversion

/-! ## Delimiters -/

theorem stripWord?_append (word rest : List Char) : stripWord? word (word ++ rest) = some rest := by
  induction word with
  | nil => rfl
  | cons c word ih => simpa [stripWord?] using ih

/-- A word that a text starts with is followed by the rest. -/
theorem eq_append_of_stripWord? {word cs rest : List Char} (h : stripWord? word cs = some rest) :
    cs = word ++ rest := by
  induction word generalizing cs with
  | nil => exact Option.some.inj h
  | cons w word ih =>
    cases cs with
    | nil => simp [stripWord?] at h
    | cons c cs =>
      rw [stripWord?] at h
      split at h
      · rename_i hc
        rw [hc, ih h, List.cons_append]
      · simp at h

section

variable {delimiter : List Char}

/-- A character that does not occur in the delimiter belongs to the part before it. -/
theorem splitParts_of_not_mem (hne : delimiter ≠ []) {c : Char} (hc : c ∉ delimiter)
    (part cs : List Char) :
    splitParts delimiter 0 part (c :: cs) = splitParts delimiter 0 (c :: part) cs := by
  cases delimiter with
  | nil => exact absurd rfl hne
  | cons d delimiter =>
    have hd : d ≠ c := fun h => hc (h ▸ List.mem_cons_self)
    rw [splitParts, stripWord?, if_neg hd]
    rfl

theorem splitParts_append (hne : delimiter ≠ []) {word : List Char}
    (hword : ∀ c ∈ word, c ∉ delimiter) (part rest : List Char) :
    splitParts delimiter 0 part (word ++ rest) =
      splitParts delimiter 0 (word.reverse ++ part) rest := by
  induction word generalizing part with
  | nil => rfl
  | cons c word ih =>
    rcases List.forall_mem_cons.mp hword with ⟨hc, hword⟩
    rw [List.cons_append, splitParts_of_not_mem hne hc, ih hword, List.reverse_cons,
      List.append_assoc, List.singleton_append]

/-- What is left of a delimiter is passed over. -/
theorem splitParts_skip (skipped part rest : List Char) :
    splitParts delimiter skipped.length part (skipped ++ rest) =
      splitParts delimiter 0 part rest := by
  induction skipped with
  | nil => rfl
  | cons c skipped ih => exact ih

/-- A delimiter ends a part. -/
theorem splitParts_delimiter (hne : delimiter ≠ []) (part rest : List Char) :
    splitParts delimiter 0 part (delimiter ++ rest) =
      part.reverse :: splitParts delimiter 0 [] rest := by
  cases delimiter with
  | nil => exact absurd rfl hne
  | cons d delimiter =>
    have hfound := stripWord?_append (d :: delimiter) rest
    rw [List.cons_append] at hfound
    rw [List.cons_append, splitParts, hfound, Option.isSome_some, if_pos rfl]
    exact congrArg _ (splitParts_skip delimiter [] rest)

/-- There is always a part, be it empty. -/
theorem splitParts_ne_nil (skip : Nat) (part cs : List Char) :
    splitParts delimiter skip part cs ≠ [] := by
  induction cs generalizing skip part with
  | nil => simp [splitParts]
  | cons c cs ih =>
    cases skip with
    | zero =>
      rw [splitParts]
      split
      · exact List.cons_ne_nil _ _
      · exact ih _ _
    | succ skip => exact ih _ _

end

theorem toList_joinTexts_cons (delimiter p q : String) (rest : List String) :
    (joinTexts delimiter (p :: q :: rest)).toList =
      p.toList ++ (delimiter.toList ++ (joinTexts delimiter (q :: rest)).toList) := by
  have hcons : joinTexts delimiter (p :: q :: rest) =
      p ++ delimiter ++ joinTexts delimiter (q :: rest) := rfl
  rw [hcons, String.toList_append, String.toList_append, List.append_assoc]

/-- Joined texts are what the joined text is split into. -/
theorem splitText_joinTexts {delimiter : String} (hne : delimiter ≠ "") {parts : List String}
    (hparts : parts ≠ []) (hapart : ∀ p ∈ parts, ∀ c ∈ p.toList, c ∉ delimiter.toList) :
    splitText delimiter.toList (joinTexts delimiter parts).toList = parts.map String.toList := by
  have hne : delimiter.toList ≠ [] := by simpa using hne
  have hsplit : splitText delimiter.toList (joinTexts delimiter parts).toList =
      splitParts delimiter.toList 0 [] (joinTexts delimiter parts).toList := by
    rw [splitText]
    exact hne
  rw [hsplit]
  clear hsplit
  induction parts with
  | nil => exact absurd rfl hparts
  | cons p rest ih =>
    rcases List.forall_mem_cons.mp hapart with ⟨hp, hrest⟩
    cases rest with
    | nil =>
      have hlast := splitParts_append hne hp [] []
      simpa [joinTexts, splitParts] using hlast
    | cons q rest =>
      rw [toList_joinTexts_cons, splitParts_append hne hp, splitParts_delimiter hne,
        ih (by simp) hrest]
      simp

/-- The parts that a search finds make up what it has read and what was left to read. -/
theorem toList_joinTexts_splitParts {delimiter : String} (hne : delimiter.toList ≠ [])
    (part cs : List Char) :
    (joinTexts delimiter ((splitParts delimiter.toList 0 part cs).map String.ofList)).toList =
      part.reverse ++ cs := by
  -- a delimiter is passed over as a whole, so the induction is on the length of the text
  induction hlength : cs.length using Nat.strongRecOn generalizing part cs with
  | ind n ih =>
    subst hlength
    cases cs with
    | nil => simp [splitParts, joinTexts]
    | cons c cs =>
      cases hfound : stripWord? delimiter.toList (c :: cs) with
      | none =>
        rw [splitParts, hfound, if_neg (by simp), ih _ (by simp) (c :: part) cs rfl]
        simp
      | some rest =>
        have hsplit := eq_append_of_stripWord? hfound
        have hshorter : rest.length < (c :: cs).length := by
          rw [hsplit, List.length_append]
          have := List.length_pos_iff.mpr hne
          omega
        have hrest := ih _ hshorter [] rest rfl
        rw [hsplit, splitParts_delimiter hne, List.map_cons]
        cases hparts : splitParts delimiter.toList 0 [] rest with
        | nil => exact absurd hparts (splitParts_ne_nil 0 [] rest)
        | cons q parts =>
          rw [hparts] at hrest
          rw [List.map_cons, toList_joinTexts_cons, ← List.map_cons (f := String.ofList), hrest]
          simp

theorem toList_joinTexts_empty (parts : List String) :
    (joinTexts "" parts).toList = parts.flatMap String.toList := by
  induction parts with
  | nil => rfl
  | cons p rest ih =>
    cases rest with
    | nil => simp [joinTexts]
    | cons q rest =>
      rw [toList_joinTexts_cons, ih, String.toList_empty, List.nil_append]
      rfl

/-- The parts that a text is split into make up the text. -/
theorem joinTexts_splitText (delimiter text : String) :
    joinTexts delimiter ((splitText delimiter.toList text.toList).map String.ofList) = text := by
  rw [← String.toList_inj]
  by_cases hempty : delimiter = ""
  · subst hempty
    rw [String.toList_empty, splitText, toList_joinTexts_empty]
    simp [List.flatMap_map]
  · have hne : delimiter.toList ≠ [] := by simpa using hempty
    rw [splitText]
    · simpa using toList_joinTexts_splitParts hne [] text.toList
    · exact hne

/-! ## Blanks -/

/-- A text that is not blank and has no blanks at either end. -/
structure IsUnpadded (text : String) : Prop where
  notBlank : isAllBlank text = false
  trimmed : trimmed text = text

/-- A text of a character or more, none of them blank. -/
theorem isUnpadded_of_forall {text : String} (hne : text.toList ≠ [])
    (h : ∀ c ∈ text.toList, isBlank c = false) : IsUnpadded text := by
  have hskip : ∀ cs : List Char, (∀ c ∈ cs, isBlank c = false) → skipBlanks cs = cs := by
    intro cs hcs
    cases cs with
    | nil => rfl
    | cons c cs => simp [skipBlanks, hcs c List.mem_cons_self]
  constructor
  · obtain ⟨c, hc⟩ := List.exists_mem_of_ne_nil _ hne
    rw [isAllBlank, ← Bool.not_eq_true, List.all_eq_true]
    intro hall
    exact Bool.false_ne_true ((h c hc).symm.trans (hall c hc))
  · have hreverse : ∀ c ∈ text.toList.reverse, isBlank c = false :=
      fun c hc => h c (List.mem_reverse.mp hc)
    rw [TypeConversion.trimmed, trimBlanks, hskip _ h, hskip _ hreverse, List.reverse_reverse,
      String.ofList_toList]

namespace IsUnpadded

variable {text : String}

theorem isEmpty_eq_false (h : IsUnpadded text) : text.isEmpty = false := by
  rw [← Bool.not_eq_true, String.isEmpty_iff]
  rintro rfl
  exact absurd h.notBlank (by decide)

end IsUnpadded

namespace Builtin

/-- The elements of joined texts are the texts. -/
theorem splitElements_joinTexts {ctx : ConversionContext}
    (hne : ctx.config.elementDelimiter ≠ "") {parts : List String}
    (hunpadded : ∀ p ∈ parts, IsUnpadded p)
    (hapart : ∀ p ∈ parts, ∀ c ∈ p.toList, c ∉ ctx.config.elementDelimiter.toList) :
    splitElements ctx (joinTexts ctx.config.elementDelimiter parts) = parts := by
  cases parts with
  | nil => rfl
  | cons p rest =>
    have hblank : isAllBlank (joinTexts ctx.config.elementDelimiter (p :: rest)) = false := by
      have hp := (hunpadded p List.mem_cons_self).notBlank
      rw [isAllBlank] at hp ⊢
      cases rest with
      | nil => exact hp
      | cons q rest =>
        rw [toList_joinTexts_cons, List.all_append, hp, Bool.false_and]
    have htrim : ∀ q ∈ p :: rest, (if ctx.config.trimElements then
        String.ofList (trimBlanks q.toList) else String.ofList q.toList) = q := by
      intro q hq
      split
      · exact (hunpadded q hq).trimmed
      · exact String.ofList_toList
    rw [splitElements, hblank, if_neg Bool.false_ne_true,
      splitText_joinTexts hne (by simp) hapart, List.map_map]
    exact (List.map_congr_left htrim).trans (List.map_id _)

/-- The elements of a text make it up, unless the blanks around them are dropped. -/
theorem joinTexts_splitElements {ctx : ConversionContext}
    (htrim : ctx.config.trimElements = false) {text : String} (hblank : isAllBlank text = false) :
    joinTexts ctx.config.elementDelimiter (splitElements ctx text) = text := by
  simp only [splitElements, hblank, htrim, Bool.false_eq_true, if_false]
  exact joinTexts_splitText ctx.config.elementDelimiter text

end Builtin

end TypeConversion
