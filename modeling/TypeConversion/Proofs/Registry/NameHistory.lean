import TypeConversion.Registry.Bootstrap
import TypeConversion.Proofs.Registry.Codec
import TypeConversion.Proofs.Registry.Names

/-!
# Classes that are found by their names

A registry comes about by changes: classes are entered, replaced and declared in steps, type
variables are entered and replaced, the index is built anew, the whole is written and read again.
All of them keep the index pointing every name to a class of that name.  They need not keep every
class in the index under its name, though.  Two classes have one name after one of them was renamed
to the name of the other.  If now the class that the name points to is renamed once more, the name
is taken out of the index, and the other class is lost until its name is entered again.

**Results**

* `indexSound_change`: every change keeps an index that points every name to a class of that name;
* `finds_of_enters`, `not_finds_of_drops`, `finds_iff_of_kept`: whether a name is found after a
  change;
* `lookup?_finds_iff_not_lost`: after any changes of the empty registry or of the bootstrap
  registry, the names in the index point to classes of these names, and the name of a class finds
  such a class exactly if it has not been lost.
-/

namespace TypeConversion

/-- A change of a registry. -/
inductive RegistryChange where
  | intern (name : String)
  | add (d : ClassDef)
  | define (c : ClassId) (d : ClassDef)
  /-- Declares a class in steps, of which some may fail. -/
  | declare (name : String) (steps : List DraftStep)
  | addTypeParam (d : TypeParamDef)
  | defineTypeParam (v : TypeVarId) (d : TypeParamDef)
  | reindex
  /-- Writes the registry and reads it again; if its text is not read, the registry stays. -/
  | reload

namespace Registry

/-- The registry after a change. -/
def change (r : Registry) : RegistryChange → Registry
  | .intern name => (r.intern name).1
  | .add d => (r.add d).1
  | .define c d => r.define c d
  | .declare name steps => (r.declare name steps).1
  | .addTypeParam d => (r.addTypeParam d).1
  | .defineTypeParam v d => r.defineTypeParam v d
  | .reindex => r.reindex
  | .reload => (ofText? r.toText).getD r

/-- The registry after changes, of which the last one stands first. -/
def after (start : Registry) : List RegistryChange → Registry
  | [] => start
  | last :: earlier => (start.after earlier).change last

/-- A change enters a name if it gives a class the name, or builds the whole index. -/
def Enters (r : Registry) (name : String) : RegistryChange → Prop
  | .intern other => other = name
  | .add d => d.name = name
  | .define c d => d.name = name ∧ ∃ old, r.class? c = some old ∧ old.name ≠ name
  | .declare other _ => other = name
  | .reindex => True
  | .reload => (ofText? r.toText).isSome
  | .addTypeParam _ | .defineTypeParam _ _ => False

/-- A change drops a name if it renames a class that has it while another class has it, too. -/
def Drops (r : Registry) (name : String) : RegistryChange → Prop
  | .define c d =>
    d.name ≠ name ∧ (∃ old, r.class? c = some old ∧ old.name = name) ∧
      ∃ c' d', c' ≠ c ∧ r.class? c' = some d' ∧ d'.name = name
  | _ => False

/-- A name is lost if a change dropped it and none has entered it since. -/
def Lost (start : Registry) (name : String) : List RegistryChange → Prop
  | [] => False
  | last :: earlier =>
    ¬(start.after earlier).Enters name last ∧
      ((start.after earlier).Drops name last ∨ start.Lost name earlier)

/-- Every name in the index points to a class of that name. -/
def IndexSound (r : Registry) : Prop :=
  ∀ name c, r.index.find? name = some c → r.nameOf? c = some name

/-! ## The size of a registry -/

theorem size_define (r : Registry) (c : ClassId) (d : ClassDef) :
    (r.define c d).classes.size = r.classes.size := by
  rw [define]
  split
  · rfl
  · exact Array.size_setIfInBounds

theorem size_push (r : Registry) (d : ClassDef) :
    (r.push d).classes.size = r.classes.size + 1 :=
  Array.size_push ..

theorem size_le_intern (r : Registry) (name : String) :
    r.classes.size ≤ (r.intern name).1.classes.size := by
  rw [intern]
  split
  · exact Nat.le_refl _
  · rw [size_push]
    omega

theorem keeps_start (r : Registry) (name : String) (steps : List DraftStep) :
    (ClassDraft.start r name).Keeps (steps.foldl ClassDraft.step (ClassDraft.start r name)) :=
  ClassDraft.keeps_steps _ steps

theorem size_declare (r : Registry) (name : String) (steps : List DraftStep) :
    (r.declare name steps).1.classes.size = (r.intern name).1.classes.size := by
  have hsize := (r.keeps_start name steps).sameNames.size_eq
  rw [declare, ClassDraft.finish]
  split
  · exact hsize
  · rw [size_define]
    exact hsize

theorem reload_eq (r : Registry) : r.change .reload = r.reindex ∨ r.change .reload = r := by
  rw [change]
  cases hread : ofText? r.toText with
  | none => exact .inr rfl
  | some r' => exact .inl (ofText?_toText_iff.mp hread).2.symm

theorem size_le_change (r : Registry) (change : RegistryChange) :
    r.classes.size ≤ (r.change change).classes.size := by
  cases change with
  | intern name => exact r.size_le_intern name
  | add d =>
    rw [Registry.change, add]
    split
    · exact Nat.le_of_eq (size_define ..).symm
    · rw [size_push]
      omega
  | define c d => exact Nat.le_of_eq (size_define ..).symm
  | declare name steps =>
    rw [Registry.change, size_declare]
    exact r.size_le_intern name
  | addTypeParam d | defineTypeParam v d | reindex => exact Nat.le_refl _
  | reload =>
    rcases r.reload_eq with h | h
    all_goals exact Nat.le_of_eq (congrArg (·.classes.size) h).symm

/-! ## Entries point to classes of their names -/

theorem SameNames.indexSound {r r' : Registry} (h : SameNames r r') (hr : r.IndexSound) :
    r'.IndexSound := by
  intro name c hc
  rw [h.index_eq] at hc
  rw [h.nameOf?_eq]
  exact hr name c hc

theorem indexSound_push {r : Registry} (hr : r.IndexSound) {d : ClassDef}
    (hsize : (r.push d).classes.size ≤ UInt32.size) : (r.push d).IndexSound := by
  rw [size_push] at hsize
  intro name c hc
  rw [find?_push] at hc
  split at hc
  · rename_i hname
    obtain rfl := Option.some.inj hc
    rw [hname]
    exact nameOf?_push_nextClass (by omega) d
  · exact nameOf?_push_of_some d (hr name c hc)

theorem indexSound_define {r : Registry} (hr : r.IndexSound) (c : ClassId) (d : ClassDef) :
    (r.define c d).IndexSound := by
  cases hold : r.nameOf? c with
  | none =>
    rw [define_of_none hold]
    exact hr
  | some old =>
    intro name c' hc'
    rw [find?_define hold] at hc'
    rw [nameOf?_define hold]
    split_ifs at hc' with hsame hname hdropped
    · have hname := hr name c' hc'
      split
      · rename_i heq
        rw [heq, hold] at hname
        rw [← hsame, hname]
      · exact hname
    · obtain rfl := Option.some.inj hc'
      rw [if_pos rfl, hname]
    · have hname' := hr name c' hc'
      have hne : c' ≠ c := by
        rintro rfl
        exact hdropped (Option.some.inj (hname'.symm.trans hold))
      rw [if_neg hne]
      exact hname'

theorem class?_of_mem_numbered {r : Registry} (hsize : r.classes.size ≤ UInt32.size) {c : ClassId}
    {d : ClassDef} (h : (c, d) ∈ r.numbered) : r.class? c = some d := by
  rcases List.mem_map.mp h with ⟨⟨d', i⟩, hmem, heq⟩
  obtain ⟨rfl, rfl⟩ := Prod.mk.inj heq
  rw [List.mk_mem_zipIdx_iff_getElem?, Array.getElem?_toList] at hmem
  have hlt : i < r.classes.size := (Array.getElem?_eq_some_iff.mp hmem).1
  have hback : i.toUInt32.toNat = i := by
    rw [Nat.toUInt32_eq, UInt32.toNat_ofNat_of_lt' (by omega)]
  rw [class?]
  dsimp only
  rw [hback, hmem]

theorem indexSound_reindex {r : Registry} (hsize : r.classes.size ≤ UInt32.size) :
    r.reindex.IndexSound := by
  intro name c hc
  rcases exists_of_find?_reindex hc with ⟨d, hd, hname⟩
  exact nameOf?_eq_some_iff.mpr ⟨d, class?_of_mem_numbered (r := r) hsize hd, hname⟩

theorem indexSound_intern {r : Registry} (hr : r.IndexSound) {name : String}
    (hsize : (r.intern name).1.classes.size ≤ UInt32.size) : (r.intern name).1.IndexSound := by
  rw [intern] at hsize ⊢
  split
  · exact hr
  · rename_i hnew
    rw [hnew] at hsize
    exact indexSound_push hr hsize

/-- The class of an interned name has it. -/
theorem nameOf?_intern {r : Registry} (hr : r.IndexSound) {name : String}
    (hsize : (r.intern name).1.classes.size ≤ UInt32.size) :
    (r.intern name).1.nameOf? (r.intern name).2 = some name := by
  rw [intern] at hsize ⊢
  split
  · rename_i c hc
    exact hr name c hc
  · rename_i hnew
    rw [hnew] at hsize
    have hpushed : (r.push { name := name }).classes.size ≤ UInt32.size := hsize
    rw [size_push] at hpushed
    exact nameOf?_push_nextClass (by omega) _

/-- Declaring a class in steps does with names what interning its name does. -/
theorem sameNames_declare {r : Registry} (hr : r.IndexSound) {name : String}
    {steps : List DraftStep} (hsize : (r.declare name steps).1.classes.size ≤ UInt32.size) :
    SameNames (r.intern name).1 (r.declare name steps).1 := by
  rw [size_declare] at hsize
  have hkeeps := r.keeps_start name steps
  have hnames : SameNames (r.intern name).1 _ := hkeeps.sameNames
  rw [declare, ClassDraft.finish]
  split
  · exact hnames
  · refine hnames.trans (sameNames_define fun other hother => ?_)
    have hid : (r.intern name).1.nameOf? _ = some other := (hnames.nameOf?_eq _).symm.trans hother
    rw [hkeeps.id_eq] at hid
    rw [ClassDraft.withEnumParent_name, hkeeps.name_eq]
    exact Option.some.inj (hid.symm.trans (nameOf?_intern hr hsize))

/-- Adding a class enters it as a new one or replaces the one that has its name. -/
theorem add_eq {r : Registry} (hr : r.IndexSound) (d : ClassDef) :
    (∃ c, r.index.find? d.name = some c ∧ SameNames r (r.add d).1) ∨
      r.index.find? d.name = none ∧ (r.add d).1 = r.push d := by
  cases hfind : r.index.find? d.name with
  | none =>
    refine .inr ⟨rfl, ?_⟩
    rw [add, hfind]
  | some c =>
    refine .inl ⟨c, rfl, ?_⟩
    rw [add, hfind]
    refine sameNames_define fun name hname => ?_
    exact Option.some.inj (hname.symm.trans (hr d.name c hfind))

/-- Every change keeps the index sound, as long as there are numbers for all classes. -/
theorem indexSound_change {r : Registry} (hr : r.IndexSound) {change : RegistryChange}
    (hsize : (r.change change).classes.size ≤ UInt32.size) : (r.change change).IndexSound := by
  cases change with
  | intern name => exact indexSound_intern hr hsize
  | add d =>
    rcases add_eq hr d with ⟨c, -, hsame⟩ | ⟨-, hpush⟩
    · exact hsame.indexSound hr
    · rw [Registry.change, hpush] at hsize ⊢
      exact indexSound_push hr hsize
  | define c d => exact indexSound_define hr c d
  | declare name steps =>
    refine (sameNames_declare hr hsize).indexSound (indexSound_intern hr ?_)
    rwa [Registry.change, size_declare] at hsize
  | addTypeParam d | defineTypeParam v d => exact SameNames.indexSound ⟨rfl, rfl⟩ hr
  | reindex => exact indexSound_reindex (r := r) hsize
  | reload =>
    have hsize' := Nat.le_trans (r.size_le_change .reload) hsize
    rcases r.reload_eq with h | h
    · rw [h]
      exact indexSound_reindex hsize'
    · rw [h]
      exact hr

/-! ## Names that are found -/

/-- A name is found if the index holds it. -/
def Finds (r : Registry) (name : String) : Prop := ∃ c, r.index.find? name = some c

theorem finds_push_iff {r : Registry} {d : ClassDef} {name : String} :
    (r.push d).Finds name ↔ d.name = name ∨ r.Finds name := by
  simp only [Finds, find?_push]
  by_cases h : name = d.name
  · simp [h]
  · simp [h, Ne.symm h]

theorem finds_intern (r : Registry) (name : String) : (r.intern name).1.Finds name := by
  rw [intern]
  split
  · rename_i c hc
    exact ⟨c, hc⟩
  · exact finds_push_iff.mpr (.inl rfl)

theorem SameNames.finds_iff {r r' : Registry} (h : SameNames r r') {name : String} :
    r'.Finds name ↔ r.Finds name := by
  rw [Finds, h.index_eq, Finds]

/-- Every name of a class is found in a new index. -/
theorem finds_reindex {r : Registry} {name : String} (hname : name ∈ r.classNames) :
    r.reindex.Finds name := by
  rcases List.mem_map.mp hname with ⟨d, hd, rfl⟩
  have hmem : d ∈ r.numbered.map (·.2) := by
    rw [numbered, List.map_map]
    exact (List.zipIdx_map_fst 0 r.classes.toList).symm ▸ hd
  rcases List.mem_map.mp hmem with ⟨⟨c, d'⟩, hcd, rfl⟩
  exact exists_find?_reindex hcd

/-- What is entered is found. -/
theorem finds_of_enters {r : Registry} (hr : r.IndexSound) {change : RegistryChange}
    (hsize : (r.change change).classes.size ≤ UInt32.size) {name : String}
    (hname : name ∈ (r.change change).classNames) (h : r.Enters name change) :
    (r.change change).Finds name := by
  cases change with
  | intern other =>
    obtain rfl : other = name := h
    exact r.finds_intern other
  | add d =>
    obtain rfl : d.name = name := h
    rcases add_eq hr d with ⟨c, hc, hsame⟩ | ⟨-, hpush⟩
    · exact hsame.finds_iff.mpr ⟨c, hc⟩
    · rw [Registry.change, hpush]
      exact finds_push_iff.mpr (.inl rfl)
  | define c d =>
    rcases h with ⟨rfl, old, hold, hne⟩
    have hnameOf := nameOf?_eq_some_iff.mpr ⟨old, hold, rfl⟩
    refine ⟨c, ?_⟩
    rw [Registry.change, find?_define hnameOf, if_neg hne, if_pos rfl]
  | declare other steps =>
    obtain rfl : other = name := h
    exact (sameNames_declare hr hsize).finds_iff.mpr (r.finds_intern other)
  | addTypeParam d | defineTypeParam v d => exact h.elim
  | reindex => exact finds_reindex (r := r) hname
  | reload =>
    have hread : r.change .reload = r.reindex := by
      rcases Option.isSome_iff_exists.mp h with ⟨r', hr'⟩
      rw [change, hr', (ofText?_toText_iff.mp hr').2, Option.getD_some]
    rw [hread] at hname ⊢
    exact finds_reindex hname

/-- What is dropped is not found. -/
theorem not_finds_of_drops {r : Registry} {change : RegistryChange} {name : String}
    (h : r.Drops name change) : ¬(r.change change).Finds name := by
  cases change with
  | define c d =>
    rcases h with ⟨hne, hold, -⟩
    have hnameOf := nameOf?_eq_some_iff.mpr hold
    rintro ⟨c', hc'⟩
    rw [Registry.change, find?_define hnameOf, if_neg (Ne.symm hne), if_neg (Ne.symm hne),
      if_pos rfl] at hc'
    exact absurd hc' (by simp)
  | intern | add | declare | addTypeParam | defineTypeParam | reindex | reload => exact h.elim

theorem finds_define_iff_of_kept {r : Registry} {c : ClassId} {d : ClassDef}
    (hsize : (r.define c d).classes.size ≤ UInt32.size) {name : String}
    (hname : name ∈ (r.define c d).classNames) (henters : ¬r.Enters name (.define c d))
    (hdrops : ¬r.Drops name (.define c d)) :
    name ∈ r.classNames ∧ ((r.define c d).Finds name ↔ r.Finds name) := by
  cases hold : r.nameOf? c with
  | none =>
    rw [define_of_none hold] at hname ⊢
    exact ⟨hname, Iff.rfl⟩
  | some old =>
    by_cases hsame : old = d.name
    · have h : SameNames r (r.define c d) := sameNames_define fun other hother =>
        (Option.some.inj (hother.symm.trans hold)).trans hsame
      exact ⟨h.classNames_eq ▸ hname, h.finds_iff⟩
    · have hne : name ≠ d.name := by
        rintro rfl
        rcases nameOf?_eq_some_iff.mp hold with ⟨before, hbefore, rfl⟩
        exact henters ⟨rfl, before, hbefore, hsame⟩
      -- the name is that of a class which is not replaced
      rcases exists_nameOf?_of_mem hsize hname with ⟨c', hc'⟩
      rw [nameOf?_define hold] at hc'
      split at hc'
      · exact absurd (Option.some.inj hc').symm hne
      · rename_i hother
        have hnameOld : name ≠ old := by
          rintro rfl
          rcases nameOf?_eq_some_iff.mp hc' with ⟨d', hd', hd'Name⟩
          exact hdrops ⟨Ne.symm hne, nameOf?_eq_some_iff.mp hold, c', d', hother, hd', hd'Name⟩
        refine ⟨mem_classNames_of_nameOf? hc', ?_⟩
        rw [Finds, Finds, find?_define hold, if_neg hsame, if_neg hne, if_neg hnameOld]

/-- What is neither entered nor dropped was there before and is found if it was. -/
theorem finds_iff_of_kept {r : Registry} (hr : r.IndexSound) {change : RegistryChange}
    (hsize : (r.change change).classes.size ≤ UInt32.size) {name : String}
    (hname : name ∈ (r.change change).classNames) (henters : ¬r.Enters name change)
    (hdrops : ¬r.Drops name change) :
    name ∈ r.classNames ∧ ((r.change change).Finds name ↔ r.Finds name) := by
  have hsame {r'} (h : SameNames r r') (hname : name ∈ r'.classNames) :
      name ∈ r.classNames ∧ (r'.Finds name ↔ r.Finds name) :=
    ⟨h.classNames_eq ▸ hname, h.finds_iff⟩
  have hpush {d} (hne : d.name ≠ name) (hname : name ∈ (r.push d).classNames) :
      name ∈ r.classNames ∧ ((r.push d).Finds name ↔ r.Finds name) := by
    rw [classNames_push, List.mem_append, List.mem_singleton] at hname
    exact ⟨hname.resolve_right (Ne.symm hne), finds_push_iff.trans (or_iff_right hne)⟩
  have hintern {other} (hne : other ≠ name) (hname : name ∈ (r.intern other).1.classNames) :
      name ∈ r.classNames ∧ ((r.intern other).1.Finds name ↔ r.Finds name) := by
    rw [intern] at hname ⊢
    split at hname
    · exact hsame (.refl r) hname
    · exact hpush hne hname
  cases change with
  | intern other => exact hintern henters hname
  | add d =>
    rcases add_eq hr d with ⟨c, -, h⟩ | ⟨-, h⟩
    · exact hsame h hname
    · rw [Registry.change, h] at hname ⊢
      exact hpush henters hname
  | define c d => exact finds_define_iff_of_kept hsize hname henters hdrops
  | declare other steps =>
    have h := sameNames_declare hr hsize
    have hkept := hintern henters (h.classNames_eq ▸ hname)
    exact ⟨hkept.1, h.finds_iff.trans hkept.2⟩
  | addTypeParam d | defineTypeParam v d => exact hsame ⟨rfl, rfl⟩ hname
  | reindex => exact absurd trivial henters
  | reload =>
    have hread : r.change .reload = r := by
      rw [change, Option.not_isSome_iff_eq_none.mp henters, Option.getD_none]
    rw [hread] at hname ⊢
    exact hsame (.refl r) hname

/-! ## Histories -/

/-- The index stays sound through all changes. -/
theorem indexSound_after {start : Registry} (hstart : start.IndexSound)
    {history : List RegistryChange}
    (hsize : (start.after history).classes.size ≤ UInt32.size) :
    (start.after history).IndexSound := by
  induction history with
  | nil => exact hstart
  | cons last earlier ih =>
    exact indexSound_change (ih (Nat.le_trans (size_le_change ..) hsize)) hsize

/-- The names of classes that are found are those that were not lost. -/
theorem finds_after_iff {start : Registry} (hstart : start.IndexSound)
    (hall : ∀ name ∈ start.classNames, start.Finds name) {history : List RegistryChange}
    (hsize : (start.after history).classes.size ≤ UInt32.size) {name : String}
    (hname : name ∈ (start.after history).classNames) :
    (start.after history).Finds name ↔ ¬start.Lost name history := by
  induction history with
  | nil => exact iff_of_true (hall name hname) id
  | cons last earlier ih =>
    have hsizeBefore := Nat.le_trans (size_le_change ..) hsize
    have hsound := indexSound_after hstart hsizeBefore
    by_cases henters : (start.after earlier).Enters name last
    · exact iff_of_true (finds_of_enters hsound hsize hname henters) fun hlost => hlost.1 henters
    · by_cases hdrops : (start.after earlier).Drops name last
      · exact iff_of_false (not_finds_of_drops hdrops) fun hkept =>
          hkept ⟨henters, .inl hdrops⟩
      · rcases finds_iff_of_kept hsound hsize hname henters hdrops with ⟨hbefore, hfinds⟩
        rw [Lost, after, hfinds, ih hsizeBefore hbefore]
        tauto

/-- A name that the index holds is looked up in it, and no other name finds a class of that name. -/
theorem exists_lookup?_iff_finds {r : Registry} (hr : r.IndexSound) (name : String) :
    (∃ c d, r.lookup? name = some c ∧ r.class? c = some d ∧ d.name = name) ↔ r.Finds name := by
  constructor
  · rintro ⟨c, d, hlookup, hd, hname⟩
    rw [lookup?] at hlookup
    cases hfind : r.index.find? name with
    | some c' => exact ⟨c', hfind⟩
    | none =>
      -- the class of the name in the implicit package has a longer name
      rw [hfind] at hlookup
      dsimp only at hlookup
      split at hlookup
      · simp at hlookup
      · rcases nameOf?_eq_some_iff.mp (hr _ c hlookup) with ⟨d', hd', hlong⟩
        obtain rfl : d = d' := Option.some.inj (hd.symm.trans hd')
        have hlength := congrArg String.length (hlong.symm.trans hname)
        simp [implicitPackage] at hlength
  · rintro ⟨c, hc⟩
    rcases nameOf?_eq_some_iff.mp (hr name c hc) with ⟨d, hd, hname⟩
    refine ⟨c, d, ?_, hd, hname⟩
    rw [lookup?, hc]

theorem indexSound_empty : empty.IndexSound := by
  intro name c hc
  simp [empty] at hc

theorem indexSound_bootstrap : bootstrap.IndexSound :=
  indexSound_reindex (by decide)

theorem finds_bootstrap {name : String} (h : name ∈ bootstrap.classNames) : bootstrap.Finds name :=
  finds_reindex h

/--
Whatever the changes of the empty registry or of the bootstrap registry, as long as there are
numbers for all classes: every name in the index points to a class of that name, and the name of a
class finds such a class exactly if the name has not been lost.
-/
theorem lookup?_finds_iff_not_lost {start : Registry} (hstart : start = empty ∨ start = bootstrap)
    {history : List RegistryChange}
    (hsize : (start.after history).classes.size ≤ UInt32.size) :
    (∀ name c, (start.after history).index.find? name = some c →
      ∃ d, (start.after history).class? c = some d ∧ d.name = name) ∧
    ∀ c d, (start.after history).class? c = some d →
      ((∃ c' d', (start.after history).lookup? d.name = some c' ∧
        (start.after history).class? c' = some d' ∧ d'.name = d.name) ↔
          ¬start.Lost d.name history) := by
  have hbase : start.IndexSound ∧ ∀ name ∈ start.classNames, start.Finds name := by
    rcases hstart with rfl | rfl
    · exact ⟨indexSound_empty, by simp [classNames, empty]⟩
    · exact ⟨indexSound_bootstrap, fun _ => finds_bootstrap⟩
  have hsound := indexSound_after hbase.1 hsize
  refine ⟨fun name c hc => nameOf?_eq_some_iff.mp (hsound name c hc), fun c d hd => ?_⟩
  have hname := mem_classNames_of_nameOf? (nameOf?_eq_some_iff.mpr ⟨d, hd, rfl⟩)
  rw [exists_lookup?_iff_finds hsound, finds_after_iff hbase.1 hbase.2 hsize hname]

/-- Two classes, of which the first is renamed to the name of the second and back. -/
def renamedBack : List RegistryChange :=
  [.define ⟨0⟩ { name := "A" }, .define ⟨0⟩ { name := "B" }, .intern "B", .intern "A"]

theorem lookup?_finds_iff_not_lost_renamedBack :
    (empty.after renamedBack).classes.size ≤ UInt32.size ∧
    (∀ name c, (empty.after renamedBack).index.find? name = some c →
      ∃ d, (empty.after renamedBack).class? c = some d ∧ d.name = name) ∧
    ∀ c d, (empty.after renamedBack).class? c = some d →
      ((∃ c' d', (empty.after renamedBack).lookup? d.name = some c' ∧
        (empty.after renamedBack).class? c' = some d' ∧ d'.name = d.name) ↔
          ¬empty.Lost d.name renamedBack) := by
  have hsize : (empty.after renamedBack).classes.size ≤ UInt32.size := by decide
  exact ⟨hsize, lookup?_finds_iff_not_lost (.inl rfl) hsize⟩

/-- The second class is not found by its name any more. -/
theorem renamedBack_not_found :
    ∃ d, (empty.after renamedBack).class? ⟨1⟩ = some d ∧
      (empty.after renamedBack).lookup? d.name = none :=
  ⟨{ name := "B" }, by decide, by decide⟩

end Registry

end TypeConversion
