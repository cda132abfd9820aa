import Mathlib.Data.List.Infix
import Mathlib.Data.List.Nodup

/-!
# First occurrences

`List.eraseDups` keeps the first occurrence of every element.  So a part of a list may be left out
or put in wherever all its elements have occurred before, and a part may be replaced by any other
with the same first occurrences.
-/

namespace TypeConversion

variable {α : Type} [BEq α] [LawfulBEq α] {xs ys zs : List α}

theorem eraseDups_of_nodup (h : xs.Nodup) : xs.eraseDups = xs := by
  induction xs with
  | nil => rfl
  | cons x xs ih =>
    rcases List.nodup_cons.mp h with ⟨hx, hxs⟩
    have hfilter : (xs.filter fun other => !other == x) = xs :=
      List.filter_eq_self.mpr fun other hother => by
        have hne : other ≠ x := fun heq => hx (heq ▸ hother)
        simp [hne]
    rw [List.eraseDups_cons, hfilter, ih hxs]

theorem nodup_eraseDups (xs : List α) : xs.eraseDups.Nodup := by
  match xs with
  | [] => simp
  | x :: xs =>
    rw [List.eraseDups_cons, List.nodup_cons]
    exact ⟨by simp [List.mem_eraseDups], nodup_eraseDups _⟩
termination_by xs.length
decreasing_by exact Nat.lt_succ_of_le (List.length_filter_le ..)

theorem eraseDups_filter (p : α → Bool) (xs : List α) :
    (xs.filter p).eraseDups = xs.eraseDups.filter p := by
  match xs with
  | [] => rfl
  | x :: xs =>
    have ih := eraseDups_filter p (xs.filter fun other => !other == x)
    rw [List.eraseDups_cons, List.filter_cons, List.filter_cons]
    by_cases hx : p x = true
    · rw [if_pos hx, if_pos hx, List.eraseDups_cons, ← ih, List.filter_comm]
    · rw [if_neg hx, if_neg hx, ← ih]
      congr 1
      -- Only `x` is left out, and the filter leaves it out too.
      rw [List.filter_filter]
      refine List.filter_congr fun other _ => ?_
      by_cases heq : other = x
      · simp [heq, hx]
      · simp [heq]
termination_by xs.length
decreasing_by exact Nat.lt_succ_of_le (List.length_filter_le ..)

theorem removeAll_congr (h : ∀ x, x ∈ xs ↔ x ∈ ys) (zs : List α) :
    zs.removeAll xs = zs.removeAll ys := by
  refine List.filter_congr fun z _ => ?_
  simp [h]

/-- What has occurred before may be left out. -/
theorem eraseDups_append_of_subset (h : ys ⊆ xs) : (xs ++ ys).eraseDups = xs.eraseDups := by
  have hnone : ys.removeAll xs = [] :=
    List.filter_eq_nil_iff.mpr fun y hy => by simpa using h hy
  rw [List.eraseDups_append, hnone, List.eraseDups_nil, List.append_nil]

/-- Parts of a list may be replaced by others with the same first occurrences. -/
theorem eraseDups_append_congr {xs' ys' : List α} (hxs : xs.eraseDups = xs'.eraseDups)
    (hys : ys.eraseDups = ys'.eraseDups) : (xs ++ ys).eraseDups = (xs' ++ ys').eraseDups := by
  have hmem : ∀ x, x ∈ xs ↔ x ∈ xs' := fun x => by
    rw [← List.mem_eraseDups, hxs, List.mem_eraseDups]
  rw [List.eraseDups_append, List.eraseDups_append, hxs, removeAll_congr hmem]
  simp only [List.removeAll, eraseDups_filter, hys]

@[simp] theorem eraseDups_eraseDups (xs : List α) : xs.eraseDups.eraseDups = xs.eraseDups :=
  eraseDups_of_nodup (nodup_eraseDups xs)

/-- What has occurred before may be left out between other parts. -/
theorem eraseDups_append_append_of_subset (h : ys ⊆ xs) :
    (xs ++ (ys ++ zs)).eraseDups = (xs ++ zs).eraseDups := by
  rw [← List.append_assoc]
  exact eraseDups_append_congr (eraseDups_append_of_subset h) rfl

theorem eraseDups_prefix (h : xs <+: ys) : xs.eraseDups <+: ys.eraseDups := by
  rcases h with ⟨rest, rfl⟩
  rw [List.eraseDups_append]
  exact List.prefix_append ..

/-- What comes from elements that are left out, if it has occurred before, may be put in again. -/
theorem eraseDups_append_flatMap_filter {f : α → List α} {p : α → Bool}
    (h : ∀ y ∈ ys, p y = false → f y ⊆ xs) :
    (xs ++ (ys.filter p).flatMap f).eraseDups = (xs ++ ys.flatMap f).eraseDups := by
  induction ys generalizing xs with
  | nil => rfl
  | cons y ys ih =>
    rcases List.forall_mem_cons.mp h with ⟨hy, hys⟩
    rw [List.filter_cons, List.flatMap_cons]
    cases hp : p y with
    | true =>
      have hys : ∀ z ∈ ys, p z = false → f z ⊆ xs ++ f y := fun z hz hpz =>
        List.Subset.trans (hys z hz hpz) (List.subset_append_left ..)
      rw [if_pos rfl, List.flatMap_cons, ← List.append_assoc, ← List.append_assoc, ih hys]
    | false =>
      rw [if_neg Bool.false_ne_true, eraseDups_append_append_of_subset (hy hp), ih hys]

/-- What comes from an element need not come from its repetitions. -/
theorem eraseDups_flatMap_eraseDups (f : α → List α) (xs : List α) :
    (xs.eraseDups.flatMap f).eraseDups = (xs.flatMap f).eraseDups := by
  induction xs using List.reverseRecOn with
  | nil => rfl
  | append_singleton xs x ih =>
    rw [List.flatMap_append, List.flatMap_singleton]
    by_cases hx : x ∈ xs
    · have hmore : f x ⊆ xs.flatMap f := fun y hy => List.mem_flatMap.mpr ⟨x, hx, hy⟩
      rw [eraseDups_append_of_subset (by simpa using hx), ih, eraseDups_append_of_subset hmore]
    · have hnew : ([x].removeAll xs) = [x] := by simp [List.removeAll, hx]
      rw [List.eraseDups_append, hnew, eraseDups_of_nodup (List.nodup_singleton x),
        List.flatMap_append, List.flatMap_singleton]
      exact eraseDups_append_congr ih rfl

end TypeConversion
