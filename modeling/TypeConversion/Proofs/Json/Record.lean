import TypeConversion.Json.Record
import TypeConversion.Proofs.FirstOccurrences
import TypeConversion.Proofs.Json.Text

/-!
# Records are read as they were written

A record is written as an object that has its fields as members, each under its own name.  Reading
this object finds every field under its name.  The reader goes down to a given depth, so what is
read is what was written exactly if that is nested no deeper; this is asked of every type with a
JSON form, together with the form being plain, and passes from the elements of a list to the list.

**Results**

* `asRecord?_object_iff`: a record is read exactly if its fields are, one level further in;
* `Faithful.list`: lists are read as written if their elements are.
-/

namespace TypeConversion.Json

variable {α : Type}

/-! ## Depth -/

theorem nestingElements_le_iff {elements : List Json} {depth : Nat} :
    nestingElements elements ≤ depth ↔ ∀ e ∈ elements, e.nesting ≤ depth := by
  induction elements with
  | nil => simp [nestingElements]
  | cons e elements ih => rw [nestingElements, Nat.max_le, ih, List.forall_mem_cons]

theorem nesting_array_le_iff {elements : List Json} {depth : Nat} :
    (array elements).nesting ≤ depth ↔
      ∃ inner, enter depth = some inner ∧ ∀ e ∈ elements, e.nesting ≤ inner := by
  rw [nesting]
  cases depth with
  | zero => simp [enter]
  | succ depth => simp [enter, nestingElements_le_iff]

theorem nesting_object_le_iff {members : List (String × Json)} {depth : Nat} :
    (object members).nesting ≤ depth ↔
      ∃ inner, enter depth = some inner ∧ nestingMembers members ≤ inner := by
  rw [nesting]
  cases depth with
  | zero => simp [enter]
  | succ depth => simp [enter]

@[simp] theorem nesting_string (text : String) : (string text).nesting = 0 := rfl

@[simp] theorem nesting_integer (i : Int) : (integer i).nesting = 0 := rfl

@[simp] theorem nestingMembers_nil : nestingMembers [] = 0 := rfl

@[simp] theorem nestingMembers_cons_le_iff {key : String} {value : Json}
    {members : List (String × Json)} {depth : Nat} :
    nestingMembers ((key, value) :: members) ≤ depth ↔
      value.nesting ≤ depth ∧ nestingMembers members ≤ depth := by
  rw [nestingMembers, Nat.max_le]

theorem nestingMembers_le_iff {members : List (String × Json)} {depth : Nat} :
    nestingMembers members ≤ depth ↔ ∀ m ∈ members, m.2.nesting ≤ depth := by
  induction members with
  | nil => simp
  | cons m members ih => rw [nestingMembers_cons_le_iff, ih, List.forall_mem_cons]

/-! ## Values of a type -/

@[simp] theorem plain_object_nil : (object []).Plain :=
  .object fun _ h => absurd h List.not_mem_nil

@[simp] theorem plain_object_cons {key : String} {value : Json} {members : List (String × Json)} :
    (object ((key, value) :: members)).Plain ↔ value.Plain ∧ (object members).Plain := by
  constructor
  · rintro (_ | _ | _ | _ | _ | h)
    exact ⟨h (key, value) List.mem_cons_self, .object fun m hm => h m (List.mem_cons_of_mem _ hm)⟩
  · rintro ⟨hvalue, _ | _ | _ | _ | _ | h⟩
    exact .object fun m hm => (List.mem_cons.mp hm).elim (fun hm => hm ▸ hvalue) (h m)

/--
A value is faithful to its JSON form if that is plain and is read as the value, exactly where the
reader goes deep enough.
-/
structure Faithful (read : Nat → Json → Option α) (write : α → Json) (x : α) : Prop where
  plain : (write x).Plain
  read_iff : ∀ depth y, read depth (write x) = some y ↔ (write x).nesting ≤ depth ∧ x = y

theorem faithful_string (text : String) : Faithful (fun _ => asString?) .string text where
  plain := .string text
  read_iff depth y := by simp [asString?]

/-- Elements that are read alike are read together. -/
theorem mapM_eq_some_iff {read : Json → Option α} {write : α → Json} (readable : Json → Prop) :
    ∀ (xs ys : List α),
      (∀ x ∈ xs, ∀ y, read (write x) = some y ↔ readable (write x) ∧ x = y) →
        ((xs.map write).mapM read = some ys ↔ (∀ e ∈ xs.map write, readable e) ∧ xs = ys)
  | [], ys, _ => by simp [eq_comm]
  | x :: xs, ys, h => by
    have hx := h x List.mem_cons_self
    have hxs := fun ys => mapM_eq_some_iff readable xs ys fun z hz => h z (List.mem_cons_of_mem _ hz)
    rw [List.map_cons, List.mapM_cons]
    simp only [Option.bind_eq_bind, Option.bind_eq_some_iff, hx, hxs, Option.pure_def,
      Option.some.injEq, List.forall_mem_cons]
    constructor
    · rintro ⟨_, ⟨hread, rfl⟩, _, ⟨hreads, rfl⟩, rfl⟩
      exact ⟨⟨hread, hreads⟩, rfl⟩
    · rintro ⟨⟨hread, hreads⟩, rfl⟩
      exact ⟨x, ⟨hread, rfl⟩, xs, ⟨hreads, rfl⟩, rfl⟩

/-- A list is faithful if its elements are. -/
theorem Faithful.list {read : Nat → Json → Option α} {write : α → Json} {xs : List α}
    (h : ∀ x ∈ xs, Faithful read write x) : Faithful (asList? read) (list write) xs where
  plain := by
    refine .array fun e he => ?_
    rcases List.mem_map.mp he with ⟨x, hx, rfl⟩
    exact (h x hx).plain
  read_iff depth ys := by
    rw [Json.list, nesting_array_le_iff, asList?, Option.bind_eq_bind, Option.bind_eq_some_iff]
    have helements := fun inner => mapM_eq_some_iff (·.nesting ≤ inner) xs ys
      fun x hx y => (h x hx).read_iff inner y
    constructor
    · rintro ⟨inner, henter, hread⟩
      rcases (helements inner).mp hread with ⟨hdepth, hxs⟩
      exact ⟨⟨inner, henter, hdepth⟩, hxs⟩
    · rintro ⟨⟨inner, henter, hdepth⟩, hxs⟩
      exact ⟨inner, henter, (helements inner).mpr ⟨hdepth, hxs⟩⟩

/-- Reads a value that may be `null`. -/
def orNull (read : Json → Option α) : Json → Option (Option α)
  | null => some none
  | value => (read value).map some

/-- An optional value is faithful if the value that it holds is and is not written as `null`. -/
theorem Faithful.optional {read : Nat → Json → Option α} {write : α → Json} {x : Option α}
    (h : ∀ v ∈ x, Faithful read write v) (hnull : ∀ v ∈ x, write v ≠ null) :
    Faithful (fun depth => orNull (read depth)) (optional write) x where
  plain := by
    cases x with
    | none => exact .null
    | some v => exact (h v rfl).plain
  read_iff depth y := by
    cases x with
    | none => simp [Json.optional, orNull, nesting]
    | some v =>
      have hread : orNull (read depth) (write v) = (read depth (write v)).map some := by
        rw [orNull]
        exact hnull v rfl
      rw [Json.optional, hread]
      simp only [Option.map_eq_some_iff, (h v rfl).read_iff]
      constructor
      · rintro ⟨_, ⟨hdepth, rfl⟩, rfl⟩
        exact ⟨hdepth, rfl⟩
      · rintro ⟨hdepth, rfl⟩
        exact ⟨v, ⟨hdepth, rfl⟩, rfl⟩

/-! ## Records -/

/-- The record of an object that has exactly the wanted members. -/
theorem record?_object {names : List String} {members : List (String × Json)}
    (hnames : members.map (·.1) = names) (hnodup : names.Nodup) :
    record? names (object members) = some ⟨false, members⟩ := by
  have hknown : (members.filter fun m => names.contains m.1) = members := by
    refine List.filter_eq_self.mpr fun m hm => ?_
    rw [← hnames, List.contains_iff_mem]
    exact List.mem_map_of_mem hm
  rw [record?]
  dsimp only
  rw [hknown, hnames, eraseDups_of_nodup hnodup, if_pos]
  rw [← hnames, List.length_map]

/-- What holds of a record that is read holds one level further in of its fields. -/
theorem asRecord?_object_iff {names : List String} {read : Nat → Record → Option α}
    {members : List (String × Json)} {y : α} {p : Prop} (hnames : members.map (·.1) = names)
    (hnodup : names.Nodup)
    (hread : ∀ depth, read depth ⟨false, members⟩ = some y ↔ nestingMembers members ≤ depth ∧ p)
    (depth : Nat) :
    asRecord? names read depth (object members) = some y ↔
      (object members).nesting ≤ depth ∧ p := by
  rw [asRecord?, record?_object hnames hnodup, nesting_object_le_iff]
  simp only [Option.bind_eq_bind, Option.bind_some, Option.bind_eq_some_iff, hread]
  constructor
  · rintro ⟨inner, henter, hdepth, hp⟩
    exact ⟨⟨inner, henter, hdepth⟩, hp⟩
  · rintro ⟨⟨inner, henter, hdepth⟩, hp⟩
    exact ⟨inner, henter, hdepth, hp⟩

/-- A record is faithful if its object is plain and its fields are read as they were written. -/
theorem Faithful.record {names : List String} {read : Nat → Record → Option α} {write : α → Json}
    {members : List (String × Json)} {x : α} (hwrite : write x = object members)
    (hnames : members.map (·.1) = names) (hnodup : names.Nodup) (hplain : (object members).Plain)
    (hread : ∀ depth y,
      read depth ⟨false, members⟩ = some y ↔ nestingMembers members ≤ depth ∧ x = y) :
    Faithful (asRecord? names read) write x where
  plain := hwrite ▸ hplain
  read_iff depth y := by
    rw [hwrite]
    exact asRecord?_object_iff hnames hnodup (fun depth => hread depth y) depth

/-! ## Fields -/

theorem lookup_cons {fields : List (String × Json)} {key name : String} {value : Json} :
    ((key, value) :: fields).lookup name = if name = key then some value else fields.lookup name := by
  split
  · rename_i h
    rw [h, List.lookup_cons_self]
  · rename_i h
    rw [List.lookup_cons, beq_false_of_ne h]

theorem lookup_of_mem {fields : List (String × Json)} (hnodup : (fields.map (·.1)).Nodup)
    {field : String × Json} (h : field ∈ fields) : fields.lookup field.1 = some field.2 := by
  induction fields with
  | nil => simp at h
  | cons first fields ih =>
    rcases first with ⟨key, value⟩
    rcases List.nodup_cons.mp hnodup with ⟨hkey, hnodup⟩
    rw [lookup_cons]
    rcases List.mem_cons.mp h with rfl | h
    · exact if_pos rfl
    · have hne : field.1 ≠ key := fun heq => hkey (List.mem_map.mpr ⟨field, h, heq⟩)
      rw [if_neg hne]
      exact ih hnodup h

/-- Two lists whose members are read alike in pairs are read alike. -/
theorem mapM_eq_mapM {β γ : Type} {f : β → Option α} {g : γ → Option α} :
    ∀ {xs : List β} {ys : List γ}, xs.length = ys.length →
      (∀ pair ∈ xs.zip ys, f pair.1 = g pair.2) → xs.mapM f = ys.mapM g
  | [], [], _, _ => rfl
  | x :: xs, y :: ys, hlength, h => by
    have hfirst : f x = g y := h (x, y) (by simp)
    have hrest : xs.mapM f = ys.mapM g :=
      mapM_eq_mapM (by simpa using hlength) fun pair hpair => h pair (by simp [hpair])
    rw [List.mapM_cons, List.mapM_cons, hfirst, hrest]

namespace Record

/-- Reading every field under its name is reading the values in order. -/
theorem mapM_required_zip {names : List String} {values : List Json} (positional : Bool)
    (read : Json → Option α) (hnodup : names.Nodup) (hlength : names.length = values.length) :
    (names.mapM fun name => (mk positional (names.zip values)).required name read) =
      values.mapM read := by
  have hkeys : (names.zip values).map (·.1) = names := List.map_fst_zip (Nat.le_of_eq hlength)
  refine mapM_eq_mapM hlength fun field hfield => ?_
  rw [required, lookup_of_mem (by rwa [hkeys]) hfield, Option.bind_some]

variable {positional : Bool} {fields : List (String × Json)} {key name : String} {value : Json}
  {read : Json → Option α}

@[simp] theorem required_cons :
    (mk positional ((key, value) :: fields)).required name read =
      if name = key then read value else (mk positional fields).required name read := by
  simp only [required, lookup_cons]
  split_ifs <;> rfl

@[simp] theorem withDefault_cons {default : α} :
    (mk positional ((key, value) :: fields)).withDefault name default read =
      if name = key then read value else (mk positional fields).withDefault name default read := by
  simp only [withDefault, lookup_cons]
  split_ifs <;> rfl

@[simp] theorem nullable_cons :
    (mk positional ((key, value) :: fields)).nullable name read =
      if name = key then orNull read value else (mk positional fields).nullable name read := by
  simp only [nullable, lookup_cons]
  by_cases h : name = key
  · rw [if_pos h, if_pos h]
    cases value <;> rfl
  · rw [if_neg h, if_neg h]

end Record

end TypeConversion.Json
