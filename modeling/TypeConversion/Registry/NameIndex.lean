import TypeConversion.Types.Expr

/-!
# The name index

The index finds classes by their names.  It holds every name at most once; entering a name again
points it to the new class.
-/

namespace TypeConversion

/-- Names with the classes they point to. -/
structure NameIndex where
  entries : List (String × ClassId)
deriving Inhabited

namespace NameIndex

def empty : NameIndex := ⟨[]⟩

/-- The class a name points to. -/
def find? (i : NameIndex) (name : String) : Option ClassId :=
  i.entries.lookup name

/-- The index without a name. -/
def erase (i : NameIndex) (name : String) : NameIndex :=
  ⟨i.entries.filter (·.1 ≠ name)⟩

/-- The index with a name pointing to a class. -/
def insert (i : NameIndex) (name : String) (c : ClassId) : NameIndex :=
  ⟨(name, c) :: (i.erase name).entries⟩

@[simp] theorem find?_empty (name : String) : empty.find? name = none := rfl

private theorem lookup_filter_ne (entries : List (String × ClassId)) (name other : String) :
    (entries.filter (·.1 ≠ name)).lookup other =
      if other = name then none else entries.lookup other := by
  induction entries with
  | nil => simp
  | cons entry rest ih =>
    obtain ⟨key, c⟩ := entry
    by_cases hk : key = name
    · subst hk
      rw [List.filter_cons_of_neg (by simp), ih]
      by_cases ho : other = key
      · simp [ho]
      · have h : (other == key) = false := by simp [ho]
        simp only [List.lookup_cons, h]
    · rw [List.filter_cons_of_pos (by simp [hk])]
      by_cases ho : other = key
      · subst ho
        simp [hk]
      · have h : (other == key) = false := by simp [ho]
        simp only [List.lookup_cons, h, ih]

theorem find?_erase (i : NameIndex) (name other : String) :
    (i.erase name).find? other = if other = name then none else i.find? other :=
  lookup_filter_ne i.entries name other

theorem find?_insert (i : NameIndex) (name other : String) (c : ClassId) :
    (i.insert name c).find? other = if other = name then some c else i.find? other := by
  by_cases h : other = name
  · simp [find?, insert, h]
  · have h' : (other == name) = false := by simp [h]
    simp only [find?, insert, List.lookup_cons, h', h, if_false]
    exact (find?_erase i name other).trans (by simp [h, find?])

end NameIndex

end TypeConversion
