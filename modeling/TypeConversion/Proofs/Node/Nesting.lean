import TypeConversion.Proofs.Node.Resolution
import TypeConversion.Node.Site
import TypeConversion.Registry.Bootstrap

/-!
# Nesting, level by level

The node of a method parameter some levels down is the one that is reached from the node of the
parameter by as many single steps down.  A step leads from an array to its component; from any other
node it leads to an argument of the first of the node and its superclasses that has any.

Levels are counted from 1, and the argument to take is kept under the level that is reached by
taking it.  A parameter that was built step by step has choices for no level below its own, so that
going deeper adds a level and, with it, the choice that is made there, and leaves the levels above
as they are.

**Results**

* `finds_descend_iff`: one level down is one step down;
* `MethodParameter.Built.choices_le`: choices are made at levels that were reached;
* `ofMethodParameter_entered`: one level deeper, by one step from the level before;
* `descendFrom_add`: levels down in two stretches;
* `nested_stepwise`: both for paths of any length;
* `nested_stepwise_tables`: a path that mixes arrays, choices, defaults and superclasses.
-/

namespace TypeConversion

open Walk

namespace MethodParameter

/--
The parameters that are made from a place in a declaration by looking at it through a class, going a
level deeper, and choosing the type argument to take at the level that is reached.
-/
inductive Built : MethodParameter → Prop
  | declared (declaring : ClassId) (method : String) (index : ParameterIndex) :
    Built { declaring := declaring, method := method, index := index }
  | seenThrough {p : MethodParameter} (c : ClassId) : Built p → Built { p with containing := some c }
  | nested {p : MethodParameter} : Built p → Built p.nested
  | withTypeIndex {p : MethodParameter} (position : Nat) : Built p → Built (p.withTypeIndex position)

/-- Choices are made at levels that were reached. -/
theorem Built.choices_le {p : MethodParameter} (h : p.Built) :
    1 ≤ p.level ∧ ∀ choice ∈ p.choices, choice.1 ≤ p.level := by
  induction h with
  | declared => exact ⟨Nat.le_refl 1, fun _ h => absurd h List.not_mem_nil⟩
  | seenThrough _ _ ih => exact ih
  | nested _ ih => exact ⟨Nat.le_succ_of_le ih.1, fun choice h => Nat.le_succ_of_le (ih.2 choice h)⟩
  | withTypeIndex position _ ih =>
    refine ⟨ih.1, fun choice h => ?_⟩
    rcases List.mem_cons.mp h with rfl | h
    · exact Nat.le_refl _
    · exact ih.2 choice (List.mem_filter.mp h).1

/-- A level deeper, where a type argument may be chosen. -/
def entered (p : MethodParameter) : Option Nat → MethodParameter
  | none => p.nested
  | some position => p.nested.withTypeIndex position

/-- Deeper along a path, whose entries are the choices at its levels. -/
def along (p : MethodParameter) (path : List (Option Nat)) : MethodParameter :=
  path.foldl entered p

variable {p : MethodParameter}

theorem Built.entered (h : p.Built) (choice : Option Nat) : (p.entered choice).Built := by
  cases choice with
  | none => exact h.nested
  | some position => exact h.nested.withTypeIndex position

@[simp] theorem level_entered (choice : Option Nat) :
    (p.entered choice).level = p.level + 1 := by
  cases choice <;> rfl

/-- The place of the declaration, and the class through which it is seen, stay as they are. -/
theorem declaredType_entered (r : Registry) (choice : Option Nat) :
    (p.entered choice).declaredType r = p.declaredType r ∧
      (p.entered choice).declaring = p.declaring ∧
      (p.entered choice).containingClass = p.containingClass := by
  cases choice <;> exact ⟨rfl, rfl, rfl⟩

theorem lookup_filter_ne (choices : List (Nat × Nat)) {k l : Nat} (h : l ≠ k) :
    (choices.filter (·.1 ≠ k)).lookup l = choices.lookup l := by
  induction choices with
  | nil => rfl
  | cons choice rest ih =>
    by_cases hk : choice.1 = k
    · rw [List.filter_cons_of_neg (by simpa using hk), ih, List.lookup_cons]
      have hne : (l == choice.1) = false := by simpa [hk] using h
      rw [hne]
    · rw [List.filter_cons_of_pos (by simpa using hk), List.lookup_cons, List.lookup_cons, ih]

theorem typeIndex?_withTypeIndex (position level : Nat) :
    (p.withTypeIndex position).typeIndex? level =
      if level = p.level then some position else p.typeIndex? level := by
  simp only [typeIndex?, withTypeIndex, List.lookup_cons]
  by_cases h : level = p.level
  · simp [h]
  · have hne : (level == p.level) = false := by simpa using h
    rw [hne, if_neg h, lookup_filter_ne _ h]

/-- What was chosen at the levels above stays chosen. -/
theorem typeIndex?_entered_of_le (choice : Option Nat) {level : Nat} (h : level ≤ p.level) :
    (p.entered choice).typeIndex? level = p.typeIndex? level := by
  cases choice with
  | none => rfl
  | some position =>
    have hne : level ≠ p.nested.level := Nat.ne_of_lt (Nat.lt_succ_of_le h)
    rw [entered, typeIndex?_withTypeIndex, if_neg hne]
    rfl

/-- At the new level the entry is chosen, and nothing else. -/
theorem Built.typeIndex?_entered (h : p.Built) (choice : Option Nat) :
    (p.entered choice).typeIndex? (p.level + 1) = choice := by
  cases choice with
  | none =>
    refine List.lookup_eq_none_iff.mpr fun entry hentry => ?_
    have hle := h.choices_le.2 entry hentry
    simpa using (Nat.ne_of_lt (Nat.lt_succ_of_le hle)).symm
  | some position => exact (typeIndex?_withTypeIndex position _).trans (if_pos rfl)

end MethodParameter

namespace Node

variable {r : Registry}

/-! ## Steps down -/

/--
The type arguments of the first of a node and its superclasses that has any; none, if there is no
such class.
-/
inductive FirstArguments (r : Registry) : Option Node → List (Option Node) → Prop
  | none : FirstArguments r none []
  | here {n : Node} {args : List (Option Node)} (generics : GenericsAre r n args) (any : args ≠ []) :
    FirstArguments r (some n) args
  | above {n : Node} {s : Option Node} {args : List (Option Node)} (generics : GenericsAre r n [])
    (super : Finds (fun limit => superType r limit n) s) (above : FirstArguments r s args) :
    FirstArguments r (some n) args

/-- The chosen argument, or else the last one, if there is one. -/
def selected (args : List (Option Node)) : Option Nat → Option Node
  | some i => args[i]?.join
  | none => args.getLast?.join

/-- A step down: to the component of an array, or to a selected argument. -/
inductive StepsDown (r : Registry) (choice : Option Nat) : Option Node → Option Node → Prop
  | none : StepsDown r choice none none
  | component {n : Node} {c : Option Node} (array : ArrayIs r n true) (component : ComponentIs r n c) :
    StepsDown r choice (some n) c
  | argument {n : Node} {args : List (Option Node)} (array : ArrayIs r n false)
    (arguments : FirstArguments r (some n) args) :
    StepsDown r choice (some n) (selected args choice)

/-- Steps down, one for each entry of a path. -/
inductive WalksDown (r : Registry) : List (Option Nat) → Option Node → Option Node → Prop
  | nil (n : Option Node) : WalksDown r [] n n
  | cons {choice : Option Nat} {path : List (Option Nat)} {n m l : Option Node}
    (step : StepsDown r choice n m) (rest : WalksDown r path m l) :
    WalksDown r (choice :: path) n l

theorem climb_steady (n : Option Node) : Steady fun limit => climb r limit n := by
  intro limit
  induction limit generalizing n with
  | zero =>
    intro more _
    cases n with
    | none => simp [climb]
    | some n => exact .of_none _
  | succ limit ih =>
    intro more hle
    obtain ⟨more, rfl⟩ : ∃ k, more = k + 1 := ⟨more - 1, by omega⟩
    have hle : limit ≤ more := by omega
    cases n with
    | none => simp [climb]
    | some n =>
      dsimp only
      rw [climb, climb]
      refine (generics_steady r n limit more hle).bind fun args => ?_
      cases args with
      | nil => exact (superType_steady r n limit more hle).bind fun s => ih s more hle
      | cons _ _ => exact .refl _

/-- The arguments of what a climb stops at are the first ones. -/
theorem firstArguments_of_climb {limit : Nat} {n owner : Option Node} {args : List (Option Node)}
    (hclimb : climb r limit n = some owner)
    (hargs : Finds (fun limit => genericsOption r limit owner) args) :
    FirstArguments r n args := by
  induction limit generalizing n with
  | zero =>
    cases n with
    | none =>
      obtain rfl : none = owner := Option.some.inj hclimb
      obtain rfl : [] = args := Option.some.inj (finds_const_iff.mp hargs)
      exact .none
    | some n => simp [climb] at hclimb
  | succ limit ih =>
    cases n with
    | none =>
      obtain rfl : none = owner := Option.some.inj hclimb
      obtain rfl : [] = args := Option.some.inj (finds_const_iff.mp hargs)
      exact .none
    | some n =>
      rw [climb] at hclimb
      obtain ⟨own, hown, hclimb⟩ := Option.bind_eq_some_iff.mp hclimb
      cases own with
      | nil =>
        obtain ⟨s, hs, hclimb⟩ := Option.bind_eq_some_iff.mp hclimb
        exact .above ⟨limit, hown⟩ ⟨limit, hs⟩ (ih hclimb)
      | cons first rest =>
        obtain rfl : some n = owner := Option.some.inj hclimb
        obtain rfl := Finds.eq_of_some (generics_steady r n) hargs hown
        exact .here hargs (List.cons_ne_nil _ _)

theorem finds_climb_of_firstArguments {n : Option Node} {args : List (Option Node)}
    (h : FirstArguments r n args) :
    ∃ owner, Finds (fun limit => climb r limit n) owner ∧
      Finds (fun limit => genericsOption r limit owner) args := by
  induction h with
  | none => exact ⟨none, ⟨0, rfl⟩, finds_const_iff.mpr rfl⟩
  | @here n args hgenerics hsome =>
    obtain ⟨limit, hargs⟩ := hgenerics
    exact ⟨some n, ⟨limit + 1, by simp [climb, hargs, hsome]⟩, limit, hargs⟩
  | @above n s args hgenerics hsuper _ ih =>
    obtain ⟨owner, hclimb, hargs⟩ := ih
    have hgo : Finds (fun limit => do climb r limit (← superType r limit n)) owner :=
      (finds_bind_iff (superType_steady r n) climb_steady).mpr ⟨s, hsuper, hclimb⟩
    have hup : Finds (fun limit => do
        if (← generics r limit n).isEmpty then climb r limit (← superType r limit n)
        else return some n) owner :=
      (finds_bind_iff (generics_steady r n) fun args =>
        Steady.ite ((superType_steady r n).bind climb_steady) (.const _)).mpr ⟨[], hgenerics, hgo⟩
    exact ⟨owner, (finds_succ_iff rfl).mpr hup, hargs⟩

/-- An argument of the first of a node and its superclasses that has any. -/
def argumentBelow (r : Registry) (limit : Nat) (n : Node) (choice : Option Nat) :
    Walk (Option Node) := do
  let owner ← climb r limit (some n)
  return selected (← genericsOption r limit owner) choice

theorem argumentBelow_steady (n : Node) (choice : Option Nat) :
    Steady fun limit => argumentBelow r limit n choice :=
  (climb_steady _).bind fun owner => (genericsOption_steady r owner).bind fun _ => .const _

theorem finds_argumentBelow_iff (n : Node) (choice : Option Nat) (m : Option Node) :
    Finds (fun limit => argumentBelow r limit n choice) m ↔
      ∃ args, FirstArguments r (some n) args ∧ m = selected args choice := by
  constructor
  · rintro ⟨limit, h⟩
    obtain ⟨owner, hclimb, h⟩ := Option.bind_eq_some_iff.mp h
    obtain ⟨args, hargs, h⟩ := Option.bind_eq_some_iff.mp h
    exact ⟨args, firstArguments_of_climb hclimb ⟨limit, hargs⟩, (Option.some.inj h).symm⟩
  · rintro ⟨args, hargs, rfl⟩
    obtain ⟨owner, hclimb, hargs⟩ := finds_climb_of_firstArguments hargs
    have hsteady (owner : Option Node) : Steady fun limit =>
        (do return selected (← genericsOption r limit owner) choice : Walk (Option Node)) :=
      (genericsOption_steady r owner).bind fun _ => .const _
    exact (finds_bind_iff (climb_steady _) hsteady).mpr ⟨owner, hclimb,
      (finds_bind_iff (genericsOption_steady r owner) fun _ => .const _).mpr
        ⟨args, hargs, finds_const_iff.mpr rfl⟩⟩

/-- One level down, with the choice read from the arguments as a whole. -/
theorem descend_some (limit : Nat) (n : Node) (choice : Option Nat) :
    descend r limit (some n) choice = (do
      if ← isArray r limit n then componentType r limit n
      else argumentBelow r limit n choice) := by
  have hat (owner : Option Node) (args : List (Option Node)) (i : Nat)
      (h : genericsOption r limit owner = some args) :
      getGeneric r limit [i] owner = some args[i]?.join := by
    cases hi : args[i]? <;> simp [getGeneric, genericAt, h, hi]
  rw [descend]
  refine congrArg _ (funext fun array => ?_)
  cases array with
  | true => rfl
  | false =>
    rw [if_neg Bool.false_ne_true, if_neg Bool.false_ne_true, argumentBelow]
    refine congrArg _ (funext fun owner => ?_)
    cases h : genericsOption r limit owner with
    | none => rfl
    | some args =>
      cases choice with
      | some i => exact hat owner args i h
      | none =>
        cases args with
        | nil => rfl
        | cons first rest =>
          have hlast := hat owner (first :: rest) rest.length h
          simpa [selected, List.getLast?_eq_getElem?] using hlast

theorem descend_steady (n : Option Node) (choice : Option Nat) :
    Steady fun limit => descend r limit n choice := by
  cases n with
  | none => exact .const _
  | some n =>
    simp only [descend_some]
    exact (isArray_steady r n).bind fun array =>
      .ite (componentType_steady r n) (argumentBelow_steady n choice)

/-- One level down is one step down. -/
theorem finds_descend_iff (choice : Option Nat) (n m : Option Node) :
    Finds (fun limit => descend r limit n choice) m ↔ StepsDown r choice n m := by
  cases n with
  | none =>
    refine finds_const_iff.trans ⟨fun h => ?_, fun h => ?_⟩
    · obtain rfl : none = m := Option.some.inj h
      exact .none
    · cases h
      rfl
  | some n =>
    simp only [descend_some]
    rw [finds_bind_iff (isArray_steady r n) fun array =>
      .ite (componentType_steady r n) (argumentBelow_steady n choice)]
    constructor
    · rintro ⟨array, harray, h⟩
      cases array with
      | true => exact .component harray h
      | false =>
        obtain ⟨args, hargs, rfl⟩ := (finds_argumentBelow_iff n choice m).mp h
        exact .argument harray hargs
    · intro h
      cases h with
      | component harray hcomponent => exact ⟨true, harray, hcomponent⟩
      | argument harray hargs =>
        exact ⟨false, harray, (finds_argumentBelow_iff n choice _).mpr ⟨_, hargs, rfl⟩⟩

/-! ## Levels -/

/-- Levels down in two stretches. -/
theorem descendFrom_add (limit : Nat) (choices : Nat → Option Nat) (level a b : Nat)
    (n : Option Node) :
    descendFrom r limit choices level (a + b) n = (do
      descendFrom r limit choices (level + a) b (← descendFrom r limit choices level a n)) := by
  induction a generalizing level n with
  | zero => simp [descendFrom]
  | succ a ih =>
    have hlevel : level + 1 + a = level + (a + 1) := by omega
    rw [show a + 1 + b = a + b + 1 by omega, descendFrom, descendFrom, bind_assoc]
    refine congrArg _ (funext fun next => ?_)
    rw [ih, hlevel]

/-- Only the choices at the levels that are entered matter. -/
theorem descendFrom_congr (limit : Nat) {choices choices' : Nat → Option Nat} {level level' count : Nat}
    (h : ∀ k, 1 ≤ k → k ≤ count → choices (level + k) = choices' (level' + k)) (n : Option Node) :
    descendFrom r limit choices level count n = descendFrom r limit choices' level' count n := by
  induction count generalizing level level' n with
  | zero => rfl
  | succ count ih =>
    rw [descendFrom, descendFrom, h 1 (Nat.le_refl 1) (by omega)]
    refine congrArg _ (funext fun next => ih (fun k hk hle => ?_) next)
    have hnext := h (1 + k) (by omega) (by omega)
    rwa [← Nat.add_assoc, ← Nat.add_assoc] at hnext

/-- Levels of a node in two stretches, the second with the choices that are left. -/
theorem nested_add (limit : Nat) (choices : Nat → Option Nat) (a b : Nat) (ha : 1 ≤ a) (hb : 1 ≤ b)
    (n : Option Node) :
    nested r limit (a + b - 1) choices n = (do
      nested r limit b (fun level => choices (level + (a - 1))) (← nested r limit a choices n)) := by
  have hcount : a + b - 1 - 1 = (a - 1) + (b - 1) := by omega
  simp only [nested]
  rw [hcount, descendFrom_add]
  refine congrArg _ (funext fun next => descendFrom_congr limit (fun k _ _ => ?_) next)
  rw [Nat.add_right_comm]

/-! ## Method parameters -/

/-- One level deeper than a parameter is one level down from where it is. -/
theorem nested_entered {p : MethodParameter} (hp : p.Built) (choice : Option Nat) (limit : Nat)
    (n : Option Node) :
    nested r limit (p.entered choice).level (p.entered choice).typeIndex? n = (do
      descend r limit (← nested r limit p.level p.typeIndex? n) choice) := by
  have hlevel := hp.choices_le.1
  have hcount : (p.entered choice).level - 1 = (p.level - 1) + 1 := by
    rw [MethodParameter.level_entered]; omega
  rw [nested, hcount, descendFrom_add, nested]
  have hfirst : descendFrom r limit (p.entered choice).typeIndex? 1 (p.level - 1) n =
      descendFrom r limit p.typeIndex? 1 (p.level - 1) n :=
    descendFrom_congr limit (fun k _ hk =>
      MethodParameter.typeIndex?_entered_of_le choice (by omega)) n
  rw [hfirst]
  refine congrArg _ (funext fun m => ?_)
  have hnext : 1 + (p.level - 1) + 1 = p.level + 1 := by omega
  rw [descendFrom, hnext, hp.typeIndex?_entered choice]
  exact bind_pure _

/-- The node of a parameter one level deeper, by one step from the level before. -/
theorem ofMethodParameter_entered {p : MethodParameter} (hp : p.Built) (choice : Option Nat)
    (limit : Nat) :
    ofMethodParameter r limit (p.entered choice) = (do
      match ← ofMethodParameter r limit p with
      | .error e => return .error e
      | .ok n => return .ok (← descend r limit n choice)) := by
  obtain ⟨htype, hdeclaring, hcontaining⟩ := p.declaredType_entered r choice
  rw [ofMethodParameter, ofMethodParameter, htype]
  match p.declaredType r with
  | .error e => rfl
  | .ok none => rfl
  | .ok (some t) =>
    dsimp only
    rw [hdeclaring, hcontaining]
    simp only [nested_entered hp, bind_assoc, pure_bind]

theorem descendFrom_steady (choices : Nat → Option Nat) (level count : Nat) (n : Option Node) :
    Steady fun limit => descendFrom r limit choices level count n := by
  induction count generalizing level n with
  | zero => exact .const _
  | succ count ih => exact (descend_steady n _).bind fun next => ih (level + 1) next

theorem ofMethodParameter_steady (p : MethodParameter) :
    Steady fun limit => ofMethodParameter r limit p := by
  cases h : p.declaredType r with
  | error e => simpa only [ofMethodParameter, h] using .const _
  | ok declared =>
    cases declared with
    | none => simpa only [ofMethodParameter, h] using .const _
    | some t =>
      have hseen : Steady fun limit => seenFrom r limit p.declaring p.containingClass t :=
        (asErasure_steady r _ _).bind fun _ => .const _
      simp only [ofMethodParameter, h]
      exact hseen.bind fun n => (descendFrom_steady _ _ _ _).bind fun _ => .const _

/-- Where steps down lead from the node of a parameter; errors stay as they are. -/
def NavigatesTo (r : Registry) (path : List (Option Nat)) (before : Except TypeError (Option Node))
    (result : Except TypeError (Option Node)) : Prop :=
  match before with
  | .error e => result = .error e
  | .ok n => ∃ m, WalksDown r path n m ∧ result = .ok m

theorem navigatesTo_nil_iff (before result : Except TypeError (Option Node)) :
    NavigatesTo r [] before result ↔ result = before := by
  cases before with
  | error e => exact Iff.rfl
  | ok n =>
    constructor
    · rintro ⟨m, hwalk, rfl⟩
      cases hwalk
      rfl
    · rintro rfl
      exact ⟨n, .nil n, rfl⟩

theorem navigatesTo_cons_iff (choice : Option Nat) (path : List (Option Nat))
    (before result : Except TypeError (Option Node)) :
    NavigatesTo r (choice :: path) before result ↔
      ∃ next, NavigatesTo r [choice] before next ∧ NavigatesTo r path next result := by
  cases before with
  | error e => exact ⟨fun h => ⟨.error e, rfl, h⟩, fun ⟨_, hnext, h⟩ => by cases hnext; exact h⟩
  | ok n =>
    constructor
    · rintro ⟨l, hwalk, rfl⟩
      obtain _ | ⟨hstep, hrest⟩ := hwalk
      exact ⟨.ok _, ⟨_, .cons hstep (.nil _), rfl⟩, l, hrest, rfl⟩
    · rintro ⟨_, ⟨m, hwalk, rfl⟩, l, hrest, rfl⟩
      obtain _ | ⟨hstep, hnil⟩ := hwalk
      cases hnil
      exact ⟨l, .cons hstep hrest, rfl⟩

theorem finds_ofMethodParameter_entered_iff {p : MethodParameter} (hp : p.Built)
    (choice : Option Nat) (result : Except TypeError (Option Node)) :
    Finds (fun limit => ofMethodParameter r limit (p.entered choice)) result ↔
      ∃ before, Finds (fun limit => ofMethodParameter r limit p) before ∧
        NavigatesTo r [choice] before result := by
  have hgo : ∀ before : Except TypeError (Option Node), Steady fun limit =>
      (match before with
        | .error e => return .error e
        | .ok n => return .ok (← descend r limit n choice) :
        Walk (Except TypeError (Option Node))) := by
    intro before
    cases before with
    | error e => exact .const _
    | ok n => exact (descend_steady n choice).bind fun _ => .const _
  simp only [ofMethodParameter_entered hp]
  rw [finds_bind_iff (ofMethodParameter_steady p) hgo]
  refine exists_congr fun before => and_congr_right fun _ => ?_
  cases before with
  | error e => exact finds_const_iff.trans (by simp [NavigatesTo, eq_comm])
  | ok n =>
    refine (finds_bind_iff (descend_steady n choice) fun _ => .const _).trans ?_
    constructor
    · rintro ⟨m, hstep, h⟩
      exact ⟨m, .cons ((finds_descend_iff choice n m).mp hstep) (.nil m),
        (Option.some.inj (finds_const_iff.mp h)).symm⟩
    · rintro ⟨m, hwalk, rfl⟩
      obtain _ | ⟨hstep, hnil⟩ := hwalk
      cases hnil
      exact ⟨m, (finds_descend_iff choice n m).mpr hstep, finds_const_iff.mpr rfl⟩

/-- The node of a parameter along a path, by one step for each entry from where it is. -/
theorem finds_ofMethodParameter_along_iff {p : MethodParameter} (hp : p.Built)
    (path : List (Option Nat)) (result : Except TypeError (Option Node)) :
    Finds (fun limit => ofMethodParameter r limit (p.along path)) result ↔
      ∃ before, Finds (fun limit => ofMethodParameter r limit p) before ∧
        NavigatesTo r path before result := by
  induction path generalizing p with
  | nil =>
    simp only [navigatesTo_nil_iff, exists_eq_right']
    rfl
  | cons choice path ih =>
    have hrest := ih (hp.entered choice)
    simp only [finds_ofMethodParameter_entered_iff hp] at hrest
    simp only [navigatesTo_cons_iff choice path]
    refine hrest.trans ⟨?_, ?_⟩
    · rintro ⟨next, ⟨before, hbefore, hstep⟩, hlead⟩
      exact ⟨before, hbefore, next, hstep, hlead⟩
    · rintro ⟨before, hbefore, next, hstep, hlead⟩
      exact ⟨next, ⟨before, hbefore, hstep⟩, hlead⟩

/--
Going down by levels is going down step by step: along a path from a method parameter, with the
choices kept by the parameter, and over levels of any node in two stretches.
-/
theorem nested_stepwise (r : Registry) :
    (∀ p : MethodParameter, p.Built → ∀ path result,
      Finds (fun limit => ofMethodParameter r limit (p.along path)) result ↔
        (∃ e, Finds (fun limit => ofMethodParameter r limit p) (.error e) ∧ result = .error e) ∨
          ∃ n m, Finds (fun limit => ofMethodParameter r limit p) (.ok n) ∧ WalksDown r path n m ∧
            result = .ok m) ∧
    ∀ limit choices a b n, 1 ≤ a → 1 ≤ b →
      nested r limit (a + b - 1) choices n = (do
        nested r limit b (fun level => choices (level + (a - 1)))
          (← nested r limit a choices n)) := by
  refine ⟨fun p hp path result => ?_, fun limit choices a b n ha hb =>
    nested_add limit choices a b ha hb n⟩
  refine (finds_ofMethodParameter_along_iff hp path result).trans ⟨?_, ?_⟩
  · rintro ⟨before, hbefore, hlead⟩
    cases before with
    | error e => exact .inl ⟨e, hbefore, hlead⟩
    | ok n =>
      obtain ⟨m, hwalk, rfl⟩ := hlead
      exact .inr ⟨n, m, hbefore, hwalk, rfl⟩
  · rintro (⟨e, hbefore, rfl⟩ | ⟨n, m, hbefore, hwalk, rfl⟩)
    · exact ⟨.error e, hbefore, rfl⟩
    · exact ⟨.ok n, hbefore, m, hwalk, rfl⟩

/--
A class `Base<T>` with a method on arrays of `T`, a class `Names` of lists of strings without
arguments of its own, and a class `Tables` that extends `Base<Map<String, Names>>`.
-/
def tables : Registry :=
  let wk := Bootstrap.wellKnown
  let base := { Registry.bootstrap with typeParams := Registry.bootstrap.typeParams.push ⟨"T", []⟩ }
  ((base.push
    { name := "Base", typeParams := [⟨18⟩],
      methods := [⟨"m", [], [⟨"items", .genericArray (.typeVar ⟨18⟩), []⟩], none, []⟩] }).push
    { name := "Names",
      superClass := some (.parameterized wk.arrayList [.ofClass wk.string] none) }).push
    { name := "Tables",
      superClass := some (.parameterized ⟨37⟩
        [.parameterized wk.map [.ofClass wk.string, .ofClass ⟨38⟩] none] none) }

/-- The parameter of the method of `Base`, seen through `Tables`. -/
def tableItems : MethodParameter :=
  { declaring := ⟨37⟩, method := "m", index := .param 0, containing := some ⟨39⟩ }

/--
From the array to the map, whatever was chosen there, then to the last argument of the map, and from
that class, which has no arguments, to the first one of its superclass.
-/
theorem nested_stepwise_tables :
    tableItems.Built ∧
      (∃ n, ofMethodParameter tables 20 (tableItems.along [some 5, none, some 0]) =
          some (.ok (some n)) ∧
        resolve tables 20 n = some (some (.ofClass Bootstrap.wellKnown.string)) ∧
        ∃ start, Finds (fun limit => ofMethodParameter tables limit tableItems) (.ok start) ∧
          WalksDown tables [some 5, none, some 0] start (some n)) ∧
      ∀ limit n choices, nested tables limit (2 + 3 - 1) choices n = (do
        nested tables limit 3 (fun level => choices (level + (2 - 1)))
          (← nested tables limit 2 choices n)) := by
  have hbuilt : tableItems.Built := .seenThrough ⟨39⟩ (.declared ⟨37⟩ "m" (.param 0))
  have hcomputed : ∃ n, ofMethodParameter tables 20 (tableItems.along [some 5, none, some 0]) =
      some (.ok (some n)) ∧
        resolve tables 20 n = some (some (.ofClass Bootstrap.wellKnown.string)) :=
    ⟨_, rfl, by decide +kernel⟩
  obtain ⟨n, hfound, hresolve⟩ := hcomputed
  refine ⟨hbuilt, ⟨n, hfound, hresolve, ?_⟩, fun limit n choices =>
    (nested_stepwise tables).2 limit choices 2 3 n (by decide) (by decide)⟩
  obtain ⟨e, -, h⟩ | ⟨start, m, hstart, hwalk, h⟩ :=
    ((nested_stepwise tables).1 _ hbuilt [some 5, none, some 0] _).mp ⟨20, hfound⟩
  · cases h
  · cases h
    exact ⟨start, hstart, hwalk⟩

end Node

end TypeConversion
