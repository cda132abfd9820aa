import TypeConversion.Proofs.Dispatch.Candidates
import Mathlib.Data.List.Induction

/-!
# The log of registered converters

The converters of a service are the outcome of a log of registrations and removals.  A registration
enters a converter once for each of its pairs; it stays live until its pair is removed.

`atPair_apply` and `global_apply` say what one change does.  From these it follows what is left
after a log: `exists_keyed_atPair` and `exists_keyed_global` list the live registrations of a pair
and the converters without pairs, in the order of the log.
-/

namespace TypeConversion

/-- A change of the registered converters. -/
inductive ConverterChange where
  | add (c : Converter)
  | remove (pair : ConvertiblePair)

namespace ConverterChange

/-- The converters after a change; a registration that is refused changes nothing. -/
def apply (cs : Converters) : ConverterChange → Converters
  | add c =>
    match cs.add c with
    | .ok cs' => cs'
    | .error _ => cs
  | remove pair => (cs.remove pair).1

end ConverterChange

/-- A converter at one of its pairs, with its place in the log and that of the pair. -/
structure Registration where
  entry : Nat
  slot : Nat
  pair : ConvertiblePair
  converter : Converter

namespace Registration

/-- The registration is in the log, and its pair is not removed later. -/
def IsLive (log : List ConverterChange) (g : Registration) : Prop :=
  (∃ pairs, log[g.entry]? = some (.add g.converter) ∧ g.converter.pairs = some pairs ∧
      pairs[g.slot]? = some g.pair) ∧
    ∀ k, g.entry < k → log[k]? ≠ some (.remove g.pair)

/-- The live registrations after one more registration. -/
theorem isLive_append_add (log : List ConverterChange) (c : Converter) (g : Registration) :
    g.IsLive (log ++ [.add c]) ↔
      g.IsLive log ∨ g.entry = log.length ∧ g.converter = c ∧
        ∃ pairs, c.pairs = some pairs ∧ pairs[g.slot]? = some g.pair := by
  have hnew : (log ++ [ConverterChange.add c])[log.length]? = some (.add c) := by simp
  rcases lt_trichotomy g.entry log.length with hlt | heq | hgt
  · have hold : (log ++ [.add c])[g.entry]? = log[g.entry]? := List.getElem?_append_left hlt
    have hlater : (∀ k, g.entry < k → (log ++ [.add c])[k]? ≠ some (.remove g.pair)) ↔
        ∀ k, g.entry < k → log[k]? ≠ some (.remove g.pair) := by
      refine forall_congr' fun k => imp_congr_right fun _ => ?_
      rcases lt_trichotomy k log.length with hk | hk | hk
      · rw [List.getElem?_append_left hk]
      · simp [hk]
      · simp [List.getElem?_eq_none (Nat.le_of_lt hk), List.getElem?_append_right (Nat.le_of_lt hk),
          Nat.sub_ne_zero_of_lt hk]
    simp only [IsLive, hold, hlater, Nat.ne_of_lt hlt, false_and, or_false]
  · have hnone : log[g.entry]? = none := by simp [heq]
    have hlater : ∀ k, g.entry < k → (log ++ [.add c])[k]? ≠ some (.remove g.pair) := by
      intro k hk
      simp [List.getElem?_eq_none (l := log ++ [.add c]) (i := k) (by simp; omega)]
    constructor
    · rintro ⟨⟨pairs, hadd, hpairs, hslot⟩, -⟩
      obtain rfl : c = g.converter := by simpa [heq, hnew] using hadd
      exact .inr ⟨heq, rfl, pairs, hpairs, hslot⟩
    · rintro (⟨⟨pairs, hadd, -⟩, -⟩ | ⟨-, rfl, pairs, hpairs, hslot⟩)
      · simp [hnone] at hadd
      · exact ⟨⟨pairs, by rw [heq, hnew], hpairs, hslot⟩, hlater⟩
  · have hnone : (log ++ [.add c])[g.entry]? = none :=
      List.getElem?_eq_none (by simp; omega)
    have hnone' : log[g.entry]? = none := List.getElem?_eq_none (Nat.le_of_lt hgt)
    simp [IsLive, hnone, hnone', Nat.ne_of_gt hgt]

/-- The live registrations after one more removal. -/
theorem isLive_append_remove (log : List ConverterChange) (pair : ConvertiblePair)
    (g : Registration) :
    g.IsLive (log ++ [.remove pair]) ↔ g.IsLive log ∧ g.pair ≠ pair := by
  constructor
  · rintro ⟨⟨pairs, hadd, hpairs, hslot⟩, hlater⟩
    have hlt : g.entry < log.length := by
      by_contra hge
      rcases Nat.lt_or_eq_of_le (Nat.le_of_not_lt hge) with hgt | heq
      · rw [List.getElem?_eq_none (by simp; omega)] at hadd
        simp at hadd
      · simp [← heq] at hadd
    refine ⟨⟨⟨pairs, by rwa [List.getElem?_append_left hlt] at hadd, hpairs, hslot⟩, ?_⟩, ?_⟩
    · intro k hk hremove
      have hkl : k < log.length := (List.getElem?_eq_some_iff.mp hremove).1
      exact hlater k hk (by rwa [List.getElem?_append_left hkl])
    · rintro rfl
      exact hlater log.length hlt (by simp)
  · rintro ⟨⟨⟨pairs, hadd, hpairs, hslot⟩, hlater⟩, hne⟩
    have hlt : g.entry < log.length := (List.getElem?_eq_some_iff.mp hadd).1
    refine ⟨⟨pairs, by rwa [List.getElem?_append_left hlt], hpairs, hslot⟩, ?_⟩
    intro k hk hremove
    rcases lt_trichotomy k log.length with hkl | rfl | hkl
    · exact hlater k hk (by rwa [List.getElem?_append_left hkl] at hremove)
    · simp only [List.getElem?_concat_length, Option.some.injEq,
        ConverterChange.remove.injEq] at hremove
      exact hne hremove.symm
    · rw [List.getElem?_eq_none (by simp; omega)] at hremove
      simp at hremove

end Registration

namespace Converters

/-- The converters after all changes of a log. -/
def replay (log : List ConverterChange) : Converters := log.foldl ConverterChange.apply .empty

/-! ## One change -/

private theorem lookup_filter_pair_ne (table : List (ConvertiblePair × List Converter))
    (pair other : ConvertiblePair) :
    (table.filter (·.1 ≠ pair)).lookup other =
      if other = pair then none else table.lookup other := by
  induction table with
  | nil => simp
  | cons entry rest ih =>
    obtain ⟨key, cs⟩ := entry
    by_cases hk : key = pair
    · subst hk
      rw [List.filter_cons_of_neg (by simp), ih]
      by_cases ho : other = key
      · simp [ho]
      · have h : (other == key) = false := by simp [ho]
        simp only [List.lookup_cons, h]
    · rw [List.filter_cons_of_pos (by simp [hk])]
      by_cases ho : other = key
      · subst ho
        simp [hk]
      · have h : (other == key) = false := by simp [ho]
        simp only [List.lookup_cons, h, ih]

/-- Appending to the list of a pair leaves the lists of other pairs alone. -/
theorem lookup_appendAt (pair other : ConvertiblePair) (c : Converter)
    (table : List (ConvertiblePair × List Converter)) :
    ((appendAt pair c table).lookup other).getD [] =
      (table.lookup other).getD [] ++ if pair = other then [c] else [] := by
  induction table with
  | nil =>
    by_cases h : pair = other
    · simp [appendAt, h]
    · have h' : (other == pair) = false := by simp [Ne.symm h]
      simp [appendAt, List.lookup_cons, h, h']
  | cons entry rest ih =>
    obtain ⟨key, cs⟩ := entry
    rw [appendAt]
    by_cases hk : key = pair
    · subst hk
      by_cases ho : key = other
      · simp [ho]
      · have h : (other == key) = false := by simp [Ne.symm ho]
        simp [List.lookup_cons, h, ho]
    · rw [if_neg hk]
      by_cases ho : other = key
      · subst ho
        simp [Ne.symm hk]
      · have h : (other == key) = false := by simp [ho]
        simpa only [List.lookup_cons, h] using ih

/-- A converter at a pair, as often as it declares it. -/
def entriesAt (c : Converter) (pair : ConvertiblePair) : List Converter :=
  ((c.pairs.getD []).filter (· = pair)).map fun _ => c

private theorem lookup_foldl_appendAt (pair : ConvertiblePair) (c : Converter)
    (pairs : List ConvertiblePair) (table : List (ConvertiblePair × List Converter)) :
    ((pairs.foldl (fun table pair => appendAt pair c table) table).lookup pair).getD [] =
      (table.lookup pair).getD [] ++ (pairs.filter (· = pair)).map fun _ => c := by
  induction pairs generalizing table with
  | nil => simp
  | cons first rest ih =>
    rw [List.foldl_cons, ih, lookup_appendAt]
    by_cases h : first = pair
    · simp [h]
    · simp [h]

/-- What one change does to the converters of a pair. -/
theorem atPair_apply (cs : Converters) (change : ConverterChange) (pair : ConvertiblePair) :
    (change.apply cs).atPair pair =
      match change with
      | .add c => cs.atPair pair ++ entriesAt c pair
      | .remove removed => if pair = removed then [] else cs.atPair pair := by
  cases change with
  | add c =>
    simp only [ConverterChange.apply, add, entriesAt]
    cases hp : c.pairs with
    | none => by_cases hc : c.condition.isNone <;> simp [hc, atPair]
    | some pairs => exact lookup_foldl_appendAt pair c pairs cs.byPair
  | remove removed =>
    simp only [ConverterChange.apply, remove, atPair]
    rw [lookup_filter_pair_ne]
    by_cases h : pair = removed <;> simp [h]

/-- What one change does to the converters without pairs. -/
theorem global_apply (cs : Converters) (change : ConverterChange) :
    (change.apply cs).global =
      match change with
      | .add c => cs.global ++ if c.pairs = none ∧ c.condition.isSome then [c] else []
      | .remove _ => cs.global := by
  cases change with
  | add c =>
    simp only [ConverterChange.apply, add]
    cases hp : c.pairs with
    | none => cases hc : c.condition <;> simp
    | some pairs => simp
  | remove removed => rfl

/-! ## The whole log -/

theorem replay_append (log : List ConverterChange) (change : ConverterChange) :
    replay (log ++ [change]) = change.apply (replay log) := by
  simp [replay]

/-- The registrations of a pair that one more entry of a log brings, with their keys. -/
def keyedEntriesAt (c : Converter) (pair : ConvertiblePair) (n : Nat) :
    List ((ℕ ×ₗ ℕ) × Converter) :=
  ((c.pairs.getD []).zipIdx.filter (·.1 = pair)).map fun e => (toLex (n, e.2), c)

theorem map_snd_keyedEntriesAt (c : Converter) (pair : ConvertiblePair) (n : Nat) :
    (keyedEntriesAt c pair n).map (·.2) = entriesAt c pair := by
  have hfilter : ∀ (pairs : List ConvertiblePair) (k : Nat),
      ((pairs.zipIdx k).filter (·.1 = pair)).map (fun _ => c) =
        (pairs.filter (· = pair)).map fun _ => c := by
    intro pairs
    induction pairs with
    | nil => simp
    | cons first rest ih =>
      intro k
      by_cases h : first = pair <;> simp [List.zipIdx_cons, h, ih]
  rw [keyedEntriesAt, List.map_map]
  exact hfilter (c.pairs.getD []) 0

theorem pairwise_keyedEntriesAt (c : Converter) (pair : ConvertiblePair) (n : Nat) :
    (keyedEntriesAt c pair n).Pairwise fun a b => a.1 < b.1 := by
  have hslots : ((c.pairs.getD []).zipIdx.map (·.2)).Pairwise (· < ·) := by
    rw [List.zipIdx_map_snd]
    exact List.pairwise_lt_range'
  refine List.Pairwise.map _ (R := fun a b => a.2 < b.2) ?_
    (.filter _ (List.pairwise_map.mp hslots))
  intro a b hab
  exact Prod.Lex.toLex_lt_toLex.mpr (.inr ⟨rfl, hab⟩)

theorem mem_keyedEntriesAt_iff (c d : Converter) (pair : ConvertiblePair) (n i j : Nat) :
    (toLex (i, j), d) ∈ keyedEntriesAt c pair n ↔
      i = n ∧ d = c ∧ ∃ pairs, c.pairs = some pairs ∧ pairs[j]? = some pair := by
  cases hp : c.pairs with
  | none => simp [keyedEntriesAt, hp]
  | some pairs =>
    simp only [keyedEntriesAt, hp, Option.getD_some, List.mem_map, List.mem_filter,
      decide_eq_true_eq, Prod.exists, Prod.mk.injEq, EmbeddingLike.apply_eq_iff_eq,
      Option.some.injEq, exists_eq_left']
    constructor
    · rintro ⟨p, k, ⟨hk, rfl⟩, ⟨rfl, rfl⟩, rfl⟩
      exact ⟨rfl, rfl, List.mk_mem_zipIdx_iff_getElem?.mp hk⟩
    · rintro ⟨rfl, rfl, hj⟩
      exact ⟨pair, j, ⟨List.mk_mem_zipIdx_iff_getElem?.mpr hj, rfl⟩, ⟨rfl, rfl⟩, rfl⟩

/-- The live registrations of a pair, keyed by their places in the log, in increasing order. -/
theorem exists_keyed_atPair (log : List ConverterChange) (pair : ConvertiblePair) :
    ∃ entries : List ((ℕ ×ₗ ℕ) × Converter),
      (replay log).atPair pair = entries.map (·.2) ∧
      entries.Pairwise (fun a b => a.1 < b.1) ∧
      ∀ i j c, (toLex (i, j), c) ∈ entries ↔ (Registration.mk i j pair c).IsLive log := by
  induction log using List.reverseRecOn with
  | nil =>
    refine ⟨[], rfl, .nil, ?_⟩
    simp [Registration.IsLive]
  | append_singleton log change ih =>
    obtain ⟨entries, hmap, hsorted, hmem⟩ := ih
    rw [replay_append, atPair_apply]
    cases change with
    | add c =>
      refine ⟨entries ++ keyedEntriesAt c pair log.length, ?_, ?_, ?_⟩
      · rw [List.map_append, ← hmap, map_snd_keyedEntriesAt]
      · refine List.pairwise_append.mpr ⟨hsorted, pairwise_keyedEntriesAt .., ?_⟩
        rintro ⟨k, d⟩ hd ⟨l, e⟩ he
        obtain ⟨⟨i, j⟩, rfl⟩ := toLex.surjective k
        obtain ⟨⟨n, m⟩, rfl⟩ := toLex.surjective l
        obtain ⟨⟨_, hadd, -⟩, -⟩ := (hmem i j d).mp hd
        have hlt : i < log.length := (List.getElem?_eq_some_iff.mp hadd).1
        obtain ⟨rfl, -, -⟩ := (mem_keyedEntriesAt_iff ..).mp he
        exact Prod.Lex.toLex_lt_toLex.mpr (.inl hlt)
      · intro i j d
        rw [List.mem_append, hmem, mem_keyedEntriesAt_iff, Registration.isLive_append_add]
    | remove removed =>
      by_cases h : pair = removed
      · refine ⟨[], by simp [h], .nil, ?_⟩
        intro i j d
        rw [Registration.isLive_append_remove]
        simp [h]
      · refine ⟨entries, by simpa [h] using hmap, hsorted, ?_⟩
        intro i j d
        rw [hmem, Registration.isLive_append_remove]
        simp [h]

/-- A place of the log registers a converter without pairs, which has a condition. -/
def IsFallback (log : List ConverterChange) (i : Nat) (c : Converter) : Prop :=
  log[i]? = some (.add c) ∧ c.pairs = none ∧ c.condition.isSome

theorem isFallback_append (log : List ConverterChange) (change : ConverterChange) (i : Nat)
    (c : Converter) :
    IsFallback (log ++ [change]) i c ↔
      IsFallback log i c ∨
        i = log.length ∧ change = .add c ∧ c.pairs = none ∧ c.condition.isSome := by
  rcases lt_trichotomy i log.length with hlt | rfl | hgt
  · simp [IsFallback, List.getElem?_append_left hlt, Nat.ne_of_lt hlt]
  · simp [IsFallback]
  · have hnone : (log ++ [change])[i]? = none := List.getElem?_eq_none (by simp; omega)
    have hnone' : log[i]? = none := List.getElem?_eq_none (Nat.le_of_lt hgt)
    simp [IsFallback, hnone, hnone', Nat.ne_of_gt hgt]

/-- The converters without pairs, keyed by their places in the log, in increasing order. -/
theorem exists_keyed_global (log : List ConverterChange) :
    ∃ entries : List (ℕ × Converter),
      (replay log).global = entries.map (·.2) ∧
      entries.Pairwise (fun a b => a.1 < b.1) ∧
      ∀ i c, (i, c) ∈ entries ↔ IsFallback log i c := by
  induction log using List.reverseRecOn with
  | nil =>
    refine ⟨[], rfl, .nil, ?_⟩
    simp [IsFallback]
  | append_singleton log change ih =>
    obtain ⟨entries, hmap, hsorted, hmem⟩ := ih
    rw [replay_append, global_apply]
    cases change with
    | add c =>
      by_cases hc : c.pairs = none ∧ c.condition.isSome
      · refine ⟨entries ++ [(log.length, c)], ?_, ?_, ?_⟩
        · simp [hc, hmap]
        · refine List.pairwise_append.mpr ⟨hsorted, by simp, ?_⟩
          rintro ⟨i, d⟩ hd e he
          obtain rfl : e = (log.length, c) := by simpa using he
          exact (List.getElem?_eq_some_iff.mp ((hmem i d).mp hd).1).1
        · intro i d
          rw [List.mem_append, hmem, isFallback_append, List.mem_singleton, Prod.mk.injEq]
          refine or_congr_right (and_congr_right fun _ => ?_)
          constructor
          · rintro rfl
            exact ⟨rfl, hc⟩
          · rintro ⟨heq, -⟩
            exact ((ConverterChange.add.inj heq)).symm
      · refine ⟨entries, by simp only [hc, if_false, List.append_nil]; exact hmap, hsorted, ?_⟩
        intro i d
        rw [hmem, isFallback_append]
        constructor
        · exact .inl
        · rintro (h | ⟨-, heq, hd⟩)
          · exact h
          · obtain rfl := ConverterChange.add.inj heq
            exact absurd hd hc
    | remove removed =>
      refine ⟨entries, hmap, hsorted, ?_⟩
      intro i d
      rw [hmem, isFallback_append]
      simp

/-! ## Removals and refused registrations -/

/-- No pair is kept without converters. -/
def NoneVacant (table : List (ConvertiblePair × List Converter)) : Prop :=
  ∀ entry ∈ table, entry.2 ≠ []

theorem noneVacant_appendAt (pair : ConvertiblePair) (c : Converter)
    {table : List (ConvertiblePair × List Converter)} (h : NoneVacant table) :
    NoneVacant (appendAt pair c table) := by
  induction table with
  | nil => simp [NoneVacant, appendAt]
  | cons head rest ih =>
    obtain ⟨key, cs⟩ := head
    obtain ⟨hhead, hrest⟩ := List.forall_mem_cons.mp h
    rw [appendAt]
    by_cases hk : key = pair
    · rw [if_pos hk]
      exact List.forall_mem_cons.mpr ⟨by simp, hrest⟩
    · rw [if_neg hk]
      exact List.forall_mem_cons.mpr ⟨hhead, ih hrest⟩

theorem noneVacant_replay (log : List ConverterChange) : NoneVacant (replay log).byPair := by
  induction log using List.reverseRecOn with
  | nil => simp [NoneVacant, replay, empty]
  | append_singleton log change ih =>
    rw [replay_append]
    cases change with
    | add c =>
      simp only [ConverterChange.apply, add]
      cases hp : c.pairs with
      | none => cases hc : c.condition <;> exact ih
      | some pairs =>
        exact List.foldlRecOn (motive := NoneVacant) pairs _ ih
          fun _ h pair _ => noneVacant_appendAt pair c h
    | remove removed =>
      intro entry h
      exact ih entry (List.mem_of_mem_filter h)

/-- A removal finds something exactly if the pair has a live registration. -/
theorem remove_snd_iff (log : List ConverterChange) (pair : ConvertiblePair) :
    ((replay log).remove pair).2 = true ↔ ∃ g : Registration, g.IsLive log ∧ g.pair = pair := by
  obtain ⟨entries, hmap, -, hmem⟩ := exists_keyed_atPair log pair
  have hfound : ((replay log).remove pair).2 = true ↔ (replay log).atPair pair ≠ [] := by
    rw [remove, atPair]
    cases hl : (replay log).byPair.lookup pair with
    | none => simp
    | some cs =>
      have hin : (pair, cs) ∈ (replay log).byPair := by
        obtain ⟨l₁, l₂, heq, -⟩ := List.lookup_eq_some_iff.mp hl
        rw [heq]
        simp
      simpa using noneVacant_replay log _ hin
  rw [hfound, hmap, ne_eq, List.map_eq_nil_iff]
  constructor
  · intro hne
    obtain ⟨⟨k, c⟩, hk⟩ := List.exists_mem_of_ne_nil entries hne
    obtain ⟨⟨i, j⟩, rfl⟩ := toLex.surjective k
    exact ⟨⟨i, j, pair, c⟩, (hmem i j c).mp hk, rfl⟩
  · rintro ⟨⟨i, j, _, c⟩, hlive, rfl⟩ hnil
    have := (hmem i j c).mpr hlive
    simp [hnil] at this

/-- A registration is refused exactly if it has neither pairs nor a condition. -/
theorem add_eq_error_iff (cs : Converters) (c : Converter) (e : RegistrationError) :
    cs.add c = .error e ↔ c.pairs = none ∧ c.condition = none ∧ e = .notConditional c.name := by
  rw [add]
  cases hp : c.pairs with
  | none => cases hc : c.condition <;> simp [eq_comm]
  | some pairs => simp

/-- A refused registration changes nothing. -/
theorem replay_append_of_refused (log rest : List ConverterChange) (c : Converter)
    (e : RegistrationError) (h : (replay log).add c = .error e) :
    replay (log ++ .add c :: rest) = replay (log ++ rest) := by
  simp only [replay, List.foldl_append, List.foldl_cons]
  congr 1
  have h' : (log.foldl ConverterChange.apply empty).add c = .error e := h
  rw [ConverterChange.apply, h']

end Converters

end TypeConversion
