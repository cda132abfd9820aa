import TypeConversion.Conversion.Converters
import Mathlib.Data.List.Basic
import Mathlib.Data.Prod.Lex

/-!
# The search among candidates

A search for a converter tries candidates one after the other: it passes over those that refuse the
types and ends at the first that does not.  The condition of that one holds or is cut off, and with
it the search.

Candidates are tried in the order of their list.  `find?_keyed` reads this order off keys that
increase along the list, and `find?_flatMap_idxOf` off the places where the groups of candidates
occur.
-/

namespace TypeConversion

namespace Converters

variable (ctx : ConversionContext) (source target : TypeDescriptor)

/-- Whether a search ends at a converter: its condition holds or is cut off. -/
def stopsAt (c : Converter) : Bool := c.accepts ctx source target ≠ some false

/-- Whether a converter turns the types down. -/
def Refuses (c : Converter) : Prop := c.accepts ctx source target = some false

theorem stopsAt_eq_false_iff (c : Converter) :
    stopsAt ctx source target c = false ↔ Refuses ctx source target c := by
  simp [stopsAt, Refuses]

theorem stopsAt_iff_not_refuses (c : Converter) :
    stopsAt ctx source target c = true ↔ ¬Refuses ctx source target c := by
  simp [stopsAt, Refuses]

/-- The answer of a search is that of the condition it ends at. -/
theorem firstAccepting_eq (cs : List Converter) :
    firstAccepting ctx source target cs =
      match cs.find? (stopsAt ctx source target) with
      | none => some none
      | some c => (c.accepts ctx source target).map fun _ => some c := by
  induction cs with
  | nil => rfl
  | cons c rest ih =>
    rw [firstAccepting]
    cases h : c.accepts ctx source target with
    | none => simp [stopsAt, h]
    | some b =>
      cases b with
      | true => simp [stopsAt, h]
      | false =>
        have hpass : stopsAt ctx source target c = false := by simp [stopsAt, h]
        rw [List.find?_cons_of_neg (by simp [hpass])]
        exact ih

/-- Along increasing keys a search ends at the candidate with the least key that is not refused. -/
theorem find?_keyed {κ : Type} [Preorder κ] (p : Converter → Bool) (entries : List (κ × Converter))
    (hsorted : entries.Pairwise fun a b => a.1 < b.1) (c : Converter) :
    (entries.map (·.2)).find? p = some c ↔
      ∃ k, (k, c) ∈ entries ∧ p c = true ∧ ∀ e ∈ entries, e.1 < k → p e.2 = false := by
  induction entries with
  | nil => simp
  | cons e rest ih =>
    rcases List.pairwise_cons.mp hsorted with ⟨hhead, htail⟩
    have ih := ih htail
    rw [List.map_cons]
    cases he : p e.2 with
    | true =>
      rw [List.find?_cons_of_pos he, Option.some.injEq]
      constructor
      · rintro rfl
        refine ⟨e.1, List.mem_cons_self, he, ?_⟩
        intro e' he' hlt
        rcases List.mem_cons.mp he' with rfl | he'
        · exact absurd hlt (lt_irrefl _)
        · exact absurd hlt (lt_asymm (hhead _ he'))
      · rintro ⟨k, hk, -, hall⟩
        rcases List.mem_cons.mp hk with rfl | hk
        · rfl
        · have := hall e List.mem_cons_self (hhead _ hk)
          simp [he] at this
    | false =>
      rw [List.find?_cons_of_neg (by simp [he]), ih]
      constructor
      · rintro ⟨k, hk, hc, hall⟩
        refine ⟨k, List.mem_cons_of_mem _ hk, hc, ?_⟩
        intro e' he' hlt
        rcases List.mem_cons.mp he' with rfl | he'
        · exact he
        · exact hall e' he' hlt
      · rintro ⟨k, hk, hc, hall⟩
        rcases List.mem_cons.mp hk with rfl | hk
        · simp [he] at hc
        · exact ⟨k, hk, hc, fun e' he' => hall e' (List.mem_cons_of_mem _ he')⟩

/--
When every entry of a list brings its group of candidates, a search ends in the group of the entry
that occurs first among those whose group does not refuse altogether.
-/
theorem find?_flatMap_idxOf {ι : Type} [DecidableEq ι] (p : Converter → Bool) (entries : List ι)
    (group : ι → List Converter) (c : Converter) :
    (entries.flatMap group).find? p = some c ↔
      ∃ a ∈ entries, (group a).find? p = some c ∧
        ∀ b ∈ entries, entries.idxOf b < entries.idxOf a → ∀ d ∈ group b, p d = false := by
  induction entries with
  | nil => simp
  | cons x rest ih =>
    rw [List.flatMap_cons, List.find?_append, Option.or_eq_some_iff, ih]
    constructor
    · rintro (hx | ⟨hx, a, ha, hc, hall⟩)
      · exact ⟨x, List.mem_cons_self, hx, fun b _ hb => by simp at hb⟩
      · have hne : a ≠ x := by
          rintro rfl
          simp [hx] at hc
        refine ⟨a, List.mem_cons_of_mem _ ha, hc, ?_⟩
        intro b hb hlt
        by_cases hbx : b = x
        · simpa [hbx] using hx
        · rw [List.idxOf_cons_ne _ (Ne.symm hbx), List.idxOf_cons_ne _ (Ne.symm hne)] at hlt
          exact hall b ((List.mem_cons.mp hb).resolve_left hbx) (by omega)
    · rintro ⟨a, ha, hc, hall⟩
      by_cases hax : a = x
      · exact .inl (hax ▸ hc)
      · have hidx : (x :: rest).idxOf a = rest.idxOf a + 1 :=
          List.idxOf_cons_ne _ (Ne.symm hax)
        have hx : ∀ d ∈ group x, p d = false :=
          hall x List.mem_cons_self (by rw [hidx, List.idxOf_cons_self]; omega)
        refine .inr ⟨by simpa using hx, a, (List.mem_cons.mp ha).resolve_left hax, hc, ?_⟩
        intro b hb hlt
        by_cases hbx : b = x
        · exact hbx ▸ hx
        · refine hall b (List.mem_cons_of_mem _ hb) ?_
          rw [hidx, List.idxOf_cons_ne _ (Ne.symm hbx)]
          omega

end Converters

end TypeConversion
