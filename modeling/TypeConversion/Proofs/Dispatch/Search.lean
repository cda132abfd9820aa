import TypeConversion.Proofs.Dispatch.ChangeLog

/-!
# The search read off the log

What a search finds depends only on the log of changes.  The live registrations whose pairs lie in
the hierarchies of source and target are ranked by the places of their pairs in these hierarchies,
the source first, and then by their places in the log.  The search ends at the one of least rank
that does not refuse; if there is none, at the first converter without pairs that does not refuse.

`replay_refines_log` is the main result.  It also says what registrations that are refused, removals
and the order of independent changes do to the outcome.
-/

namespace TypeConversion

namespace ConverterChange

/-- The pairs that a change touches. -/
def pairs : ConverterChange → List ConvertiblePair
  | add c => c.pairs.getD []
  | remove pair => [pair]

/-- Whether a change registers a converter without pairs. -/
def Pairless : ConverterChange → Prop
  | add c => c.pairs = none
  | remove _ => False

/-- Two changes that touch no common pair, and do not both register converters without pairs. -/
def Independent (a b : ConverterChange) : Prop :=
  (∀ pair ∈ a.pairs, pair ∉ b.pairs) ∧ ¬(a.Pairless ∧ b.Pairless)

end ConverterChange

namespace Registration

/-- The pair of the registration lies in the hierarchies of source and target. -/
def AppliesTo (r : Registry) (source target : Erasure) (g : Registration) : Prop :=
  g.pair.source ∈ r.classHierarchy source ∧ g.pair.target ∈ r.classHierarchy target

/-- The places of the pair in the hierarchies, the source first, and then the place in the log. -/
def rank (r : Registry) (source target : Erasure) (g : Registration) : ℕ ×ₗ ℕ ×ₗ ℕ ×ₗ ℕ :=
  toLex ((r.classHierarchy source).idxOf g.pair.source,
    toLex ((r.classHierarchy target).idxOf g.pair.target, toLex (g.entry, g.slot)))

end Registration

namespace Converters

variable (ctx : ConversionContext) (source target : TypeDescriptor)

/-- A live registration that applies to the types. -/
def IsCandidate (log : List ConverterChange) (g : Registration) : Prop :=
  g.IsLive log ∧ g.AppliesTo ctx.registry source.erasure target.erasure

/-- All registrations for pairs that apply to the types refuse them. -/
def AllRefuse (log : List ConverterChange) : Prop :=
  ∀ g, IsCandidate ctx source target log g → Refuses ctx source target g.converter

/-- The converter of a registration that does not refuse, while all of smaller rank do. -/
def IsLeast (log : List ConverterChange) (c : Converter) : Prop :=
  ∃ g, IsCandidate ctx source target log g ∧ g.converter = c ∧ ¬Refuses ctx source target c ∧
    ∀ g', IsCandidate ctx source target log g' →
      g'.rank ctx.registry source.erasure target.erasure <
        g.rank ctx.registry source.erasure target.erasure →
      Refuses ctx source target g'.converter

/-- The first converter without pairs that does not refuse. -/
def IsFirstFallback (log : List ConverterChange) (c : Converter) : Prop :=
  ∃ i, IsFallback log i c ∧ ¬Refuses ctx source target c ∧
    ∀ j d, IsFallback log j d → j < i → Refuses ctx source target d

/-- The converter at which a search ends. -/
def IsSelected (log : List ConverterChange) (c : Converter) : Prop :=
  IsLeast ctx source target log c ∨
    AllRefuse ctx source target log ∧ IsFirstFallback ctx source target log c

/-! ## The order of the candidates -/

/-- A candidate for a pair is at its place in the list of that pair. -/
theorem mem_candidates_iff (log : List ConverterChange) (c : Converter) :
    c ∈ (replay log).candidates ctx.registry source.erasure target.erasure ↔
      ∃ g, IsCandidate ctx source target log g ∧ g.converter = c := by
  simp only [candidates, List.mem_flatMap]
  constructor
  · rintro ⟨s, hs, t, ht, hc⟩
    rcases exists_keyed_atPair log ⟨s, t⟩ with ⟨entries, hmap, -, hmem⟩
    rw [hmap] at hc
    rcases List.mem_map.mp hc with ⟨⟨k, c⟩, hk, rfl⟩
    rcases toLex.surjective k with ⟨⟨i, j⟩, rfl⟩
    exact ⟨⟨i, j, ⟨s, t⟩, c⟩, ⟨(hmem i j c).mp hk, hs, ht⟩, rfl⟩
  · rintro ⟨⟨i, j, ⟨s, t⟩, c⟩, ⟨hlive, hs, ht⟩, rfl⟩
    rcases exists_keyed_atPair log ⟨s, t⟩ with ⟨entries, hmap, -, hmem⟩
    refine ⟨s, hs, t, ht, ?_⟩
    rw [hmap]
    exact List.mem_map_of_mem ((hmem i j c).mpr hlive)

/-- What a search among the candidates ends at. -/
theorem find?_candidates_iff (log : List ConverterChange) (c : Converter) :
    ((replay log).candidates ctx.registry source.erasure target.erasure).find?
        (stopsAt ctx source target) = some c ↔
      IsLeast ctx source target log c := by
  simp only [candidates, find?_flatMap_idxOf]
  constructor
  · rintro ⟨s, hs, ⟨t, ht, hc, hless⟩, hbefore⟩
    rcases exists_keyed_atPair log ⟨s, t⟩ with ⟨entries, hmap, hsorted, hmem⟩
    rw [hmap, find?_keyed _ _ hsorted] at hc
    rcases hc with ⟨k, hk, hstop, hall⟩
    rcases toLex.surjective k with ⟨⟨i, j⟩, rfl⟩
    refine ⟨⟨i, j, ⟨s, t⟩, c⟩, ⟨(hmem i j c).mp hk, hs, ht⟩, rfl,
      (stopsAt_iff_not_refuses ..).mp hstop, ?_⟩
    rintro ⟨i', j', ⟨s', t'⟩, c'⟩ ⟨hlive, hs', ht'⟩ hrank
    rcases exists_keyed_atPair log ⟨s', t'⟩ with ⟨entries', hmap', -, hmem'⟩
    have hc' : c' ∈ (replay log).atPair ⟨s', t'⟩ := by
      rw [hmap']
      exact List.mem_map_of_mem ((hmem' i' j' c').mpr hlive)
    rw [← stopsAt_eq_false_iff]
    rcases Prod.Lex.toLex_lt_toLex.mp hrank with hlt | ⟨heq, hrank⟩
    · exact hbefore s' hs' hlt c' (List.mem_flatMap.mpr ⟨t', ht', hc'⟩)
    · obtain rfl : s' = s := (List.idxOf_inj hs').mp heq
      rcases Prod.Lex.toLex_lt_toLex.mp hrank with hlt | ⟨heq, hkey⟩
      · exact hless t' ht' hlt c' hc'
      · obtain rfl : t' = t := (List.idxOf_inj ht').mp heq
        exact hall _ ((hmem i' j' c').mpr hlive) hkey
  · rintro ⟨⟨i, j, ⟨s, t⟩, c⟩, ⟨hlive, hs, ht⟩, rfl, hstop, hall⟩
    refine ⟨s, hs, ⟨t, ht, ?_, ?_⟩, ?_⟩
    · rcases exists_keyed_atPair log ⟨s, t⟩ with ⟨entries, hmap, hsorted, hmem⟩
      rw [hmap, find?_keyed _ _ hsorted]
      refine ⟨toLex (i, j), (hmem i j c).mpr hlive, (stopsAt_iff_not_refuses ..).mpr hstop, ?_⟩
      rintro ⟨k, d⟩ hd hlt
      rcases toLex.surjective k with ⟨⟨i', j'⟩, rfl⟩
      rw [stopsAt_eq_false_iff]
      exact hall ⟨i', j', ⟨s, t⟩, d⟩ ⟨(hmem i' j' d).mp hd, hs, ht⟩
        (Prod.Lex.toLex_lt_toLex.mpr (.inr ⟨rfl, Prod.Lex.toLex_lt_toLex.mpr (.inr ⟨rfl, hlt⟩)⟩))
    · intro t' ht' hlt d hd
      rcases exists_keyed_atPair log ⟨s, t'⟩ with ⟨entries, hmap, -, hmem⟩
      rw [hmap] at hd
      rcases List.mem_map.mp hd with ⟨⟨k, d⟩, hk, rfl⟩
      rcases toLex.surjective k with ⟨⟨i', j'⟩, rfl⟩
      rw [stopsAt_eq_false_iff]
      exact hall ⟨i', j', ⟨s, t'⟩, d⟩ ⟨(hmem i' j' d).mp hk, hs, ht'⟩
        (Prod.Lex.toLex_lt_toLex.mpr (.inr ⟨rfl, Prod.Lex.toLex_lt_toLex.mpr (.inl hlt)⟩))
    · intro s' hs' hlt d hd
      rcases List.mem_flatMap.mp hd with ⟨t', ht', hd⟩
      rcases exists_keyed_atPair log ⟨s', t'⟩ with ⟨entries, hmap, -, hmem⟩
      rw [hmap] at hd
      rcases List.mem_map.mp hd with ⟨⟨k, d⟩, hk, rfl⟩
      rcases toLex.surjective k with ⟨⟨i', j'⟩, rfl⟩
      rw [stopsAt_eq_false_iff]
      exact hall ⟨i', j', ⟨s', t'⟩, d⟩ ⟨(hmem i' j' d).mp hk, hs', ht'⟩
        (Prod.Lex.toLex_lt_toLex.mpr (.inl hlt))

/-- The search among the candidates ends nowhere exactly if all refuse. -/
theorem find?_candidates_eq_none_iff (log : List ConverterChange) :
    ((replay log).candidates ctx.registry source.erasure target.erasure).find?
        (stopsAt ctx source target) = none ↔
      AllRefuse ctx source target log := by
  rw [List.find?_eq_none]
  constructor
  · intro h g hg
    have := h g.converter ((mem_candidates_iff ..).mpr ⟨g, hg, rfl⟩)
    rwa [Bool.not_eq_true, stopsAt_eq_false_iff] at this
  · intro h c hc
    rcases (mem_candidates_iff ..).mp hc with ⟨g, hg, rfl⟩
    rw [Bool.not_eq_true, stopsAt_eq_false_iff]
    exact h g hg

/-- What a search among the converters without pairs ends at. -/
theorem find?_global_iff (log : List ConverterChange) (c : Converter) :
    (replay log).global.find? (stopsAt ctx source target) = some c ↔
      IsFirstFallback ctx source target log c := by
  rcases exists_keyed_global log with ⟨entries, hmap, hsorted, hmem⟩
  rw [hmap, find?_keyed _ _ hsorted]
  constructor
  · rintro ⟨i, hi, hstop, hall⟩
    refine ⟨i, (hmem i c).mp hi, (stopsAt_iff_not_refuses ..).mp hstop, ?_⟩
    intro j d hj hlt
    exact (stopsAt_eq_false_iff ..).mp (hall (j, d) ((hmem j d).mpr hj) hlt)
  · rintro ⟨i, hi, hstop, hall⟩
    refine ⟨i, (hmem i c).mpr hi, (stopsAt_iff_not_refuses ..).mpr hstop, ?_⟩
    rintro ⟨j, d⟩ hj hlt
    exact (stopsAt_eq_false_iff ..).mpr (hall j d ((hmem j d).mp hj) hlt)

theorem find?_global_eq_none_iff (log : List ConverterChange) :
    (replay log).global.find? (stopsAt ctx source target) = none ↔
      ∀ i c, IsFallback log i c → Refuses ctx source target c := by
  rcases exists_keyed_global log with ⟨entries, hmap, -, hmem⟩
  simp only [hmap, List.find?_eq_none, List.mem_map, Prod.exists, exists_eq_right,
    Bool.not_eq_true, stopsAt_eq_false_iff, hmem, forall_exists_index]
  exact forall_comm

/-- What a search through all converters ends at. -/
theorem find?_selected_iff (log : List ConverterChange) (c : Converter) :
    ((replay log).candidates ctx.registry source.erasure target.erasure ++
        (replay log).global).find? (stopsAt ctx source target) = some c ↔
      IsSelected ctx source target log c := by
  rw [List.find?_append, Option.or_eq_some_iff, find?_candidates_iff,
    find?_candidates_eq_none_iff, find?_global_iff, IsSelected]

/-- The search takes the converter at which it ends if its condition holds. -/
theorem find_eq_some_iff (log : List ConverterChange) (c : Converter) :
    (replay log).find ctx source target = some (some c) ↔
      IsSelected ctx source target log c ∧ c.accepts ctx source target = some true := by
  rw [find, firstAccepting_eq, ← find?_selected_iff]
  cases hfound : List.find? _ _ with
  | none => simp
  | some d =>
    simp only [Option.some.injEq]
    cases hd : d.accepts ctx source target with
    | none =>
      simp only [Option.map_none, reduceCtorEq, false_iff, not_and]
      rintro rfl
      simp [hd]
    | some b =>
      have hb : b = true := by
        have hstop := List.find?_some hfound
        simpa [stopsAt, hd] using hstop
      simp only [Option.map_some, Option.some.injEq]
      constructor
      · rintro rfl
        exact ⟨rfl, by rw [hd, hb]⟩
      · exact fun h => h.1

/-- The search is cut off if the condition of the converter at which it ends is. -/
theorem find_eq_none_iff (log : List ConverterChange) :
    (replay log).find ctx source target = none ↔
      ∃ c, IsSelected ctx source target log c ∧ c.accepts ctx source target = none := by
  rw [find, firstAccepting_eq]
  simp only [← find?_selected_iff]
  cases List.find? _ _ with
  | none => simp
  | some d => simp

/-- The search finds nothing if everything refuses. -/
theorem find_eq_some_none_iff (log : List ConverterChange) :
    (replay log).find ctx source target = some none ↔
      AllRefuse ctx source target log ∧
        ∀ i c, IsFallback log i c → Refuses ctx source target c := by
  rw [find, firstAccepting_eq, ← find?_candidates_eq_none_iff, ← find?_global_eq_none_iff,
    ← Option.or_eq_none_iff, ← List.find?_append]
  cases List.find? _ _ with
  | none => simp
  | some d => simp

/-! ## Independent changes -/

/-- What a search sees of the converters. -/
def SameEntries (cs ds : Converters) : Prop :=
  (∀ pair, cs.atPair pair = ds.atPair pair) ∧ cs.global = ds.global

theorem SameEntries.apply {cs ds : Converters} (h : SameEntries cs ds)
    (change : ConverterChange) : SameEntries (change.apply cs) (change.apply ds) := by
  constructor
  · intro pair
    rw [atPair_apply, atPair_apply, h.1 pair]
  · rw [global_apply, global_apply, h.2]

theorem SameEntries.foldl {cs ds : Converters} (h : SameEntries cs ds)
    (rest : List ConverterChange) :
    SameEntries (rest.foldl ConverterChange.apply cs) (rest.foldl ConverterChange.apply ds) := by
  induction rest generalizing cs ds with
  | nil => exact h
  | cons change rest ih => exact ih (h.apply change)

theorem SameEntries.find {cs ds : Converters} (h : SameEntries cs ds) :
    cs.find ctx source target = ds.find ctx source target := by
  have hcandidates : cs.candidates ctx.registry source.erasure target.erasure =
      ds.candidates ctx.registry source.erasure target.erasure := by
    simp only [candidates, h.1]
  rw [Converters.find, Converters.find, hcandidates, h.2]

/-- A converter has no entries at a pair that it does not declare. -/
theorem entriesAt_eq_nil {c : Converter} {pair : ConvertiblePair}
    (h : pair ∉ c.pairs.getD []) : entriesAt c pair = [] := by
  rw [entriesAt, List.map_eq_nil_iff, List.filter_eq_nil_iff]
  intro p hp
  simp only [decide_eq_true_eq]
  rintro rfl
  exact h hp

/-- Independent changes can be made in either order. -/
theorem sameEntries_swap (cs : Converters) {a b : ConverterChange} (h : a.Independent b) :
    SameEntries (b.apply (a.apply cs)) (a.apply (b.apply cs)) := by
  constructor
  · intro pair
    simp only [atPair_apply]
    cases a with
    | add c =>
      cases b with
      | add d =>
        by_cases hc : pair ∈ c.pairs.getD []
        · simp [entriesAt_eq_nil (h.1 pair hc)]
        · simp [entriesAt_eq_nil hc]
      | remove q =>
        by_cases hq : pair = q
        · subst hq
          have hc : pair ∉ c.pairs.getD [] := fun hc =>
            h.1 pair hc List.mem_cons_self
          simp [entriesAt_eq_nil hc]
        · simp [hq]
    | remove p =>
      cases b with
      | add d =>
        by_cases hp : pair = p
        · subst hp
          simp [entriesAt_eq_nil (h.1 pair List.mem_cons_self)]
        · simp [hp]
      | remove q => by_cases hp : pair = p <;> by_cases hq : pair = q <;> simp [hp, hq]
  · simp only [global_apply]
    cases a with
    | remove p => rfl
    | add c =>
      cases b with
      | remove q => rfl
      | add d =>
        by_cases hc : c.pairs = none
        · have hd : d.pairs ≠ none := fun hd => h.2 ⟨hc, hd⟩
          simp [hd]
        · simp [hc]

/-! ## The main result -/

/--
The converters after a log, described by the log alone.  Here the answer of a search is cut off if
the condition of the converter at which it ends is.
-/
theorem replay_refines_log (log : List ConverterChange) :
    (∀ ctx source target,
      (∀ c, (replay log).find ctx source target = some (some c) ↔
        IsSelected ctx source target log c ∧ c.accepts ctx source target = some true) ∧
      ((replay log).find ctx source target = none ↔
        ∃ c, IsSelected ctx source target log c ∧ c.accepts ctx source target = none) ∧
      ((replay log).find ctx source target = some none ↔
        AllRefuse ctx source target log ∧
          ∀ i c, IsFallback log i c → Refuses ctx source target c)) ∧
    (∀ c e, (replay log).add c = .error e ↔
      c.pairs = none ∧ c.condition = none ∧ e = .notConditional c.name) ∧
    (∀ c e rest, (replay log).add c = .error e →
      replay (log ++ .add c :: rest) = replay (log ++ rest)) ∧
    (∀ pair, ((replay log).remove pair).2 = true ↔
      ∃ g : Registration, g.IsLive log ∧ g.pair = pair) ∧
    (∀ pair other, ((replay log).remove pair).1.atPair other =
      if other = pair then [] else (replay log).atPair other) ∧
    (∀ pair, ((replay log).remove pair).1.global = (replay log).global) ∧
    ∀ a b rest, a.Independent b →
      ∀ ctx source target,
        (replay (log ++ a :: b :: rest)).find ctx source target =
          (replay (log ++ b :: a :: rest)).find ctx source target := by
  refine ⟨fun ctx source target => ⟨find_eq_some_iff ctx source target log,
    find_eq_none_iff ctx source target log, find_eq_some_none_iff ctx source target log⟩,
    add_eq_error_iff _, fun c e rest => replay_append_of_refused log rest c e,
    remove_snd_iff log,
    fun pair other => atPair_apply (replay log) (.remove pair) other, fun _ => rfl, ?_⟩
  intro a b rest h ctx source target
  refine SameEntries.find ctx source target ?_
  simp only [replay, List.foldl_append, List.foldl_cons]
  exact (sameEntries_swap _ h).foldl rest

end Converters

end TypeConversion
