import TypeConversion.Proofs.Assignable.Plan

/-!
# The branches of a check

A comparison opens others, as far as the answers of those before them ask for it.  A check ends
under some limit exactly when the tree of comparisons opened in this way has no infinite branch,
which is `ends_iff_acc`.
-/

namespace TypeConversion

namespace Node

open Walk

/-- Two optional nodes to be compared under a guard. -/
structure Comparison where
  ours : Option Node
  theirs : Option Node
  guard : Option Guard

/-- The comparison by which a bound of a wildcard accepts a node. -/
def boundComparison (kind : WildcardKind) (bound type : Node) : Comparison :=
  match kind with
  | .upper => ⟨some bound, some type, none⟩
  | .lower => ⟨some type, some bound, none⟩

variable (r : Registry)

namespace Comparison

/-- The check of a comparison. -/
def check (c : Comparison) (limit : Nat) : Walk (Bool × Option Guard) :=
  assignableFrom limit r r c.ours c.theirs c.guard

/-- The check ends under some limit. -/
def Ends (c : Comparison) : Prop := ∃ limit, (c.check r limit).isSome

/-- What the check answers, and the guard that it leaves. -/
def Answers (c : Comparison) (holds : Bool) (guard : Option Guard) : Prop :=
  Finds (c.check r) (holds, guard)

/-- What the check answers, whatever guard it leaves. -/
def Decides (c : Comparison) (holds : Bool) : Prop := ∃ guard, c.Answers r holds guard

end Comparison

/-- A bound of a wildcard is found to accept a node. -/
def Accepts (kind : WildcardKind) (bound type : Node) : Prop :=
  ∃ guard, (boundComparison kind bound type).Answers r true guard

/-- All pairs of arguments are found assignable, from one guard to another. -/
def Passes (pairs : List (Option Node × Option Node)) (before after : Option Guard) : Prop :=
  Finds (fun limit => assignableArgs limit r r pairs before) (true, after)

/-- What a comparison comes down to. -/
def PlanIs (n other : Node) (guard : Option Guard) (p : Plan) : Prop :=
  Finds (fun limit => plan r r limit n other guard) p

/-- A comparison that another one makes in order to find its own answer. -/
inductive Opens : Comparison → Comparison → Prop
  | components {n other : Node} {guard : Option Guard} {c otherComponent : Option Node}
      (hplan : PlanIs r n other guard (.components c otherComponent)) :
      Opens ⟨some n, some other, guard⟩ ⟨c, otherComponent, none⟩
  | bounds {n other : Node} {guard : Option Guard} {kind : WildcardKind}
      {before after types types' : List Node} {bound type : Node}
      (hplan : PlanIs r n other guard
        (.bounds kind (before ++ bound :: after) (types ++ type :: types')))
      (hbefore : ∀ b ∈ before, ∀ t ∈ types ++ type :: types', Accepts r kind b t)
      (htypes : ∀ t ∈ types, Accepts r kind bound t) :
      Opens ⟨some n, some other, guard⟩ (boundComparison kind bound type)
  | arguments {n other : Node} {guard reached : Option Guard}
      {before after : List (Option Node × Option Node)} {arg otherArg : Option Node}
      (hplan : PlanIs r n other guard (.arguments (before ++ (arg, otherArg) :: after)))
      (hbefore : Passes r before (some ((n.expr, other.expr) :: guard.getD [])) reached) :
      Opens ⟨some n, some other, guard⟩ ⟨arg, otherArg, reached⟩

variable {r}

/-! ## The checks are steady -/

theorem acceptsEach_cons (limit : Nat) (kind : WildcardKind) (bound type : Node)
    (rest : List Node) :
    acceptsEach (limit + 1) r r kind bound (type :: rest) = (do
      let (holds, _) ← (boundComparison kind bound type).check r limit
      if holds then acceptsEach limit r r kind bound rest else return false) := by
  cases kind <;> rfl

theorem PlanIs.unique {n other : Node} {guard : Option Guard} {p q : Plan}
    (hp : PlanIs r n other guard p) (hq : PlanIs r n other guard q) : p = q :=
  Finds.unique (plan_steady r r n other guard) hp hq

/-- The check and its parts, treated together. -/
theorem checks_extend (limit : Nat) : ∀ more, limit ≤ more →
    (∀ c : Comparison, Extends (c.check r limit) (c.check r more)) ∧
    (∀ pairs guard, Extends (assignableArgs limit r r pairs guard)
      (assignableArgs more r r pairs guard)) ∧
    (∀ kind bounds types, Extends (acceptsAll limit r r kind bounds types)
      (acceptsAll more r r kind bounds types)) ∧
    ∀ kind bound types, Extends (acceptsEach limit r r kind bound types)
      (acceptsEach more r r kind bound types) := by
  induction limit with
  | zero =>
    intro more _
    refine ⟨fun c => .of_none _, ?_, ?_, ?_⟩
    · intro pairs guard
      cases pairs with
      | nil => simp [assignableArgs]
      | cons _ _ => exact .of_none _
    · intro kind bounds types
      cases bounds with
      | nil => simp [acceptsAll]
      | cons _ _ => exact .of_none _
    · intro kind bound types
      cases types with
      | nil => simp [acceptsEach]
      | cons _ _ => exact .of_none _
  | succ limit ih =>
    intro more hle
    obtain ⟨more, rfl⟩ : ∃ k, more = k + 1 := ⟨more - 1, by omega⟩
    have hle : limit ≤ more := by omega
    rcases ih more hle with ⟨hcheck, hargs, hall, heach⟩
    refine ⟨?_, ?_, ?_, ?_⟩
    · rintro ⟨n, other, guard⟩
      cases n with
      | none => simp [Comparison.check, assignableFrom]
      | some n =>
        cases other with
        | none => simp [Comparison.check, assignableFrom]
        | some other =>
          simp only [Comparison.check, assignableFrom_eq]
          refine (plan_steady r r n other guard limit more hle).bind fun p => ?_
          cases p with
          | decided holds => exact .refl _
          | components c otherComponent =>
            exact (hcheck ⟨c, otherComponent, none⟩).bind fun _ => .refl _
          | bounds kind bounds types => exact (hall kind bounds types).bind fun _ => .refl _
          | arguments pairs => exact hargs pairs _
    · intro pairs guard
      cases pairs with
      | nil => simp [assignableArgs]
      | cons pair rest =>
        rw [assignableArgs, assignableArgs]
        refine (hcheck ⟨pair.1, pair.2, guard⟩).bind ?_
        rintro ⟨holds, reached⟩
        cases holds with
        | true => exact hargs rest reached
        | false => exact .refl _
    · intro kind bounds types
      cases bounds with
      | nil => simp [acceptsAll]
      | cons bound rest =>
        rw [acceptsAll, acceptsAll]
        refine (heach kind bound types).bind fun holds => ?_
        cases holds with
        | true => exact hall kind rest types
        | false => exact .refl _
    · intro kind bound types
      cases types with
      | nil => simp [acceptsEach]
      | cons type rest =>
        rw [acceptsEach_cons, acceptsEach_cons]
        refine (hcheck _).bind ?_
        rintro ⟨holds, reached⟩
        cases holds with
        | true => exact heach kind bound rest
        | false => exact .refl _

theorem check_steady (c : Comparison) : Steady (c.check r) :=
  fun limit more hle => (checks_extend limit more hle).1 c

theorem assignableArgs_steady (pairs : List (Option Node × Option Node))
    (guard : Option Guard) : Steady fun limit => assignableArgs limit r r pairs guard :=
  fun limit more hle => (checks_extend limit more hle).2.1 pairs guard

theorem acceptsAll_steady (kind : WildcardKind) (bounds types : List Node) :
    Steady fun limit => acceptsAll limit r r kind bounds types :=
  fun limit more hle => (checks_extend limit more hle).2.2.1 kind bounds types

theorem acceptsEach_steady (kind : WildcardKind) (bound : Node)
    (types : List Node) : Steady fun limit => acceptsEach limit r r kind bound types :=
  fun limit more hle => (checks_extend limit more hle).2.2.2 kind bound types

theorem carryOut_steady (n other : Node) (guard : Option Guard) (p : Plan) :
    Steady fun limit => carryOut r r limit n other guard p := by
  cases p with
  | decided holds => exact .const _
  | components c otherComponent =>
    exact (check_steady ⟨c, otherComponent, none⟩).bind fun _ => .const _
  | bounds kind bounds types =>
    exact (acceptsAll_steady kind bounds types).bind fun _ => .const _
  | arguments pairs => exact assignableArgs_steady pairs _

/-! ## What lists of comparisons answer -/

theorem Comparison.Answers.unique {c : Comparison} {holds holds' : Bool}
    {guard guard' : Option Guard} (h : c.Answers r holds guard)
    (h' : c.Answers r holds' guard') : holds = holds' ∧ guard = guard' := by
  have heq := Finds.unique (check_steady c) h h'
  exact ⟨congrArg Prod.fst heq, congrArg Prod.snd heq⟩

theorem finds_assignableArgs_nil_iff (guard : Option Guard) (answer : Bool × Option Guard) :
    Finds (fun limit => assignableArgs limit r r [] guard) answer ↔ answer = (true, guard) := by
  simp only [assignableArgs, finds_const_iff, Option.some.injEq]
  exact eq_comm

theorem finds_assignableArgs_cons_iff (n other : Option Node)
    (rest : List (Option Node × Option Node)) (guard : Option Guard)
    (answer : Bool × Option Guard) :
    Finds (fun limit => assignableArgs limit r r ((n, other) :: rest) guard) answer ↔
      ∃ holds reached, (Comparison.mk n other guard).Answers r holds reached ∧
        if holds then Finds (fun limit => assignableArgs limit r r rest reached) answer
        else answer = (false, reached) := by
  rw [finds_succ_iff rfl]
  simp only [assignableArgs]
  have hrest : ∀ first : Bool × Option Guard, Steady fun limit =>
      (match first with
        | (holds, reached) =>
          if holds then assignableArgs limit r r rest reached else pure (false, reached) :
        Walk (Bool × Option Guard)) := by
    rintro ⟨holds, reached⟩
    cases holds with
    | true => exact assignableArgs_steady rest reached
    | false => exact .const _
  refine (finds_bind_iff (check_steady ⟨n, other, guard⟩) hrest).trans ?_
  simp only [Prod.exists]
  refine exists_congr fun holds => exists_congr fun reached => and_congr_right fun _ => ?_
  cases holds with
  | true => rfl
  | false =>
    simp only [Bool.false_eq_true, if_false, finds_const_iff, Option.pure_def, Option.some.injEq]
    exact eq_comm

/-- A single pair of arguments is compared as it is. -/
theorem finds_assignableArgs_singleton_iff (n other : Option Node) (guard : Option Guard)
    (holds : Bool) (after : Option Guard) :
    Finds (fun limit => assignableArgs limit r r [(n, other)] guard) (holds, after) ↔
      (Comparison.mk n other guard).Answers r holds after := by
  rw [finds_assignableArgs_cons_iff]
  constructor
  · rintro ⟨first, reached, hfirst, hrest⟩
    obtain ⟨rfl, rfl⟩ : holds = first ∧ after = reached := by
      cases first <;> simpa [finds_assignableArgs_nil_iff] using hrest
    exact hfirst
  · intro hfirst
    refine ⟨holds, after, hfirst, ?_⟩
    cases holds <;> simp [finds_assignableArgs_nil_iff]

theorem finds_acceptsEach_cons_iff (kind : WildcardKind) (bound type : Node)
    (rest : List Node) (holds : Bool) :
    Finds (fun limit => acceptsEach limit r r kind bound (type :: rest)) holds ↔
      ∃ first guard, (boundComparison kind bound type).Answers r first guard ∧
        if first then Finds (fun limit => acceptsEach limit r r kind bound rest) holds
        else holds = false := by
  rw [finds_succ_iff rfl]
  simp only [acceptsEach_cons]
  have hrest : ∀ first : Bool × Option Guard, Steady fun limit =>
      (match first with
        | (first, _) =>
          if first then acceptsEach limit r r kind bound rest else pure false : Walk Bool) := by
    rintro ⟨first, guard⟩
    cases first with
    | true => exact acceptsEach_steady kind bound rest
    | false => exact .const _
  refine (finds_bind_iff (check_steady (boundComparison kind bound type)) hrest).trans ?_
  simp only [Prod.exists]
  refine exists_congr fun first => exists_congr fun guard => and_congr_right fun _ => ?_
  cases first with
  | true => rfl
  | false =>
    simp only [Bool.false_eq_true, if_false, finds_const_iff, Option.pure_def, Option.some.injEq]
    exact eq_comm

theorem finds_acceptsAll_cons_iff (kind : WildcardKind) (bound : Node)
    (rest types : List Node) (holds : Bool) :
    Finds (fun limit => acceptsAll limit r r kind (bound :: rest) types) holds ↔
      ∃ first, Finds (fun limit => acceptsEach limit r r kind bound types) first ∧
        if first then Finds (fun limit => acceptsAll limit r r kind rest types) holds
        else holds = false := by
  rw [finds_succ_iff rfl]
  simp only [acceptsAll]
  have hrest : ∀ first : Bool, Steady fun limit =>
      (if first then acceptsAll limit r r kind rest types else pure false : Walk Bool) := by
    intro first
    cases first with
    | true => exact acceptsAll_steady kind rest types
    | false => exact .const _
  refine (finds_bind_iff (acceptsEach_steady kind bound types) hrest).trans ?_
  refine exists_congr fun first => and_congr_right fun _ => ?_
  cases first with
  | true => rfl
  | false =>
    simp only [Bool.false_eq_true, if_false, finds_const_iff, Option.pure_def, Option.some.injEq]
    exact eq_comm

theorem passes_cons_iff (n other : Option Node)
    (rest : List (Option Node × Option Node)) (before after : Option Guard) :
    Passes r ((n, other) :: rest) before after ↔
      ∃ reached, (Comparison.mk n other before).Answers r true reached ∧
        Passes r rest reached after := by
  rw [Passes, finds_assignableArgs_cons_iff]
  constructor
  · rintro ⟨holds, reached, hfirst, hrest⟩
    cases holds with
    | true => exact ⟨reached, hfirst, hrest⟩
    | false => simp at hrest
  · rintro ⟨reached, hfirst, hrest⟩
    exact ⟨true, reached, hfirst, hrest⟩

/-- A pair among others is found assignable after those before it. -/
theorem passes_append_cons_iff (n other : Option Node)
    (before rest : List (Option Node × Option Node)) (guard after : Option Guard) :
    Passes r (before ++ (n, other) :: rest) guard after ↔
      ∃ reached next, Passes r before guard reached ∧
        (Comparison.mk n other reached).Answers r true next ∧ Passes r rest next after := by
  induction before generalizing guard with
  | nil =>
    rw [List.nil_append, passes_cons_iff]
    constructor
    · rintro ⟨next, hfirst, hrest⟩
      exact ⟨guard, next, (finds_assignableArgs_nil_iff ..).mpr rfl, hfirst, hrest⟩
    · rintro ⟨reached, next, hbefore, hfirst, hrest⟩
      obtain ⟨-, rfl⟩ := Prod.mk.inj ((finds_assignableArgs_nil_iff ..).mp hbefore)
      exact ⟨next, hfirst, hrest⟩
  | cons p before ih =>
    rcases p with ⟨m, otherArg⟩
    rw [List.cons_append]
    simp only [passes_cons_iff, ih]
    constructor
    · rintro ⟨first, hp, reached, next, hbefore, hrest⟩
      exact ⟨reached, next, ⟨first, hp, hbefore⟩, hrest⟩
    · rintro ⟨reached, next, ⟨first, hp, hbefore⟩, hrest⟩
      exact ⟨first, hp, reached, next, hbefore, hrest⟩

/-- A bound is found to accept all nodes if it accepts each. -/
theorem finds_acceptsEach_true_iff (kind : WildcardKind) (bound : Node) (types : List Node) :
    Finds (fun limit => acceptsEach limit r r kind bound types) true ↔
      ∀ t ∈ types, Accepts r kind bound t := by
  induction types with
  | nil => simp [acceptsEach, finds_const_iff]
  | cons t rest ih =>
    rw [finds_acceptsEach_cons_iff, List.forall_mem_cons, ← ih]
    constructor
    · rintro ⟨first, guard, hfirst, hrest⟩
      cases first with
      | true => exact ⟨⟨guard, hfirst⟩, hrest⟩
      | false => simp at hrest
    · rintro ⟨⟨guard, hfirst⟩, hrest⟩
      exact ⟨true, guard, hfirst, hrest⟩

/-- The same for all bounds of a wildcard. -/
theorem finds_acceptsAll_true_iff (kind : WildcardKind) (bounds types : List Node) :
    Finds (fun limit => acceptsAll limit r r kind bounds types) true ↔
      ∀ b ∈ bounds, ∀ t ∈ types, Accepts r kind b t := by
  induction bounds with
  | nil => simp [acceptsAll, finds_const_iff]
  | cons b rest ih =>
    rw [finds_acceptsAll_cons_iff, List.forall_mem_cons, ← ih, ← finds_acceptsEach_true_iff]
    constructor
    · rintro ⟨first, hfirst, hrest⟩
      cases first with
      | true => exact ⟨hfirst, hrest⟩
      | false => simp at hrest
    · rintro ⟨hfirst, hrest⟩
      exact ⟨true, hfirst, hrest⟩

/-- A single bound accepts a single node if the comparison of the two says so. -/
theorem finds_acceptsAll_singleton_iff (kind : WildcardKind) (bound type : Node) (holds : Bool) :
    Finds (fun limit => acceptsAll limit r r kind [bound] [type]) holds ↔
      (boundComparison kind bound type).Decides r holds := by
  have heach : Finds (fun limit => acceptsEach limit r r kind bound [type]) holds ↔
      (boundComparison kind bound type).Decides r holds := by
    rw [finds_acceptsEach_cons_iff]
    constructor
    · rintro ⟨first, guard, hfirst, hrest⟩
      obtain rfl : holds = first := by
        cases first <;> simpa [acceptsEach, finds_const_iff, eq_comm] using hrest
      exact ⟨guard, hfirst⟩
    · rintro ⟨guard, hfirst⟩
      refine ⟨holds, guard, hfirst, ?_⟩
      cases holds <;> simp [acceptsEach, finds_const_iff]
  rw [finds_acceptsAll_cons_iff, ← heach]
  constructor
  · rintro ⟨first, hfirst, hrest⟩
    obtain rfl : holds = first := by
      cases first <;> simpa [acceptsAll, finds_const_iff, eq_comm] using hrest
    exact hfirst
  · intro hfirst
    refine ⟨holds, hfirst, ?_⟩
    cases holds <;> simp [acceptsAll, finds_const_iff]

/-! ## What a comparison answers -/

/-- A comparison is answered by carrying out its plan. -/
theorem Comparison.answers_iff (n other : Node) (guard after : Option Guard) (holds : Bool) :
    (Comparison.mk (some n) (some other) guard).Answers r holds after ↔
      ∃ p, PlanIs r n other guard p ∧
        Finds (fun limit => carryOut r r limit n other guard p) (holds, after) := by
  rw [Answers, finds_succ_iff rfl]
  simp only [check, assignableFrom_eq]
  exact finds_bind_iff (plan_steady r r n other guard) (carryOut_steady n other guard)

/-- Nothing is assignable from or to what is missing. -/
theorem Comparison.answers_of_missing {ours theirs : Option Node}
    (h : ours = none ∨ theirs = none) (guard after : Option Guard) (holds : Bool) :
    (Comparison.mk ours theirs guard).Answers r holds after ↔ holds = false ∧ after = guard := by
  have hcheck : ∀ limit, (Comparison.mk ours theirs guard).check r (limit + 1) =
      some (false, guard) := by
    intro limit
    rcases h with rfl | rfl
    · rfl
    · cases ours <;> rfl
  rw [Answers, finds_succ_iff rfl]
  simp only [hcheck, finds_const_iff, Option.some.injEq, Prod.mk.injEq, eq_comm]

theorem finds_carryOut_decided_iff (n other : Node) (guard after : Option Guard)
    (holds decided : Bool) :
    Finds (fun limit => carryOut r r limit n other guard (.decided decided)) (holds, after) ↔
      holds = decided ∧ after = guard := by
  simp only [carryOut, finds_const_iff, Option.some.injEq, Prod.mk.injEq, eq_comm]

theorem finds_carryOut_components_iff (n other : Node) (guard after : Option Guard)
    (c otherComponent : Option Node) (holds : Bool) :
    Finds (fun limit => carryOut r r limit n other guard (.components c otherComponent))
      (holds, after) ↔
      (Comparison.mk c otherComponent none).Decides r holds ∧ after = guard := by
  refine (finds_bind_iff (check_steady ⟨c, otherComponent, none⟩) fun _ => .const _).trans ?_
  simp only [Prod.exists, finds_const_iff, Option.pure_def, Option.some.injEq, Prod.mk.injEq]
  constructor
  · rintro ⟨holds, reached, hfirst, rfl, rfl⟩
    exact ⟨⟨reached, hfirst⟩, rfl⟩
  · rintro ⟨⟨reached, hfirst⟩, rfl⟩
    exact ⟨holds, reached, hfirst, rfl, rfl⟩

theorem finds_carryOut_bounds_iff (n other : Node) (guard after : Option Guard)
    (kind : WildcardKind) (bounds types : List Node) (holds : Bool) :
    Finds (fun limit => carryOut r r limit n other guard (.bounds kind bounds types))
      (holds, after) ↔
      Finds (fun limit => acceptsAll limit r r kind bounds types) holds ∧ after = guard := by
  refine (finds_bind_iff (acceptsAll_steady kind bounds types) fun _ => .const _).trans ?_
  simp only [finds_const_iff, Option.pure_def, Option.some.injEq, Prod.mk.injEq]
  constructor
  · rintro ⟨holds, hholds, rfl, rfl⟩
    exact ⟨hholds, rfl⟩
  · rintro ⟨hholds, rfl⟩
    exact ⟨holds, hholds, rfl, rfl⟩

theorem isAssignableFrom_steady (n other : Option Node) :
    Steady fun limit => isAssignableFrom limit r r n other :=
  (check_steady ⟨n, other, none⟩).bind fun _ => .const _

/-- What the check of two nodes answers is decided at the top, without a guard. -/
theorem finds_isAssignableFrom_iff (n other : Option Node) (holds : Bool) :
    Finds (fun limit => isAssignableFrom limit r r n other) holds ↔
      (Comparison.mk n other none).Decides r holds := by
  refine (finds_bind_iff (check_steady ⟨n, other, none⟩) fun _ => .const _).trans ?_
  simp only [Prod.exists, finds_const_iff, Option.pure_def, Option.some.injEq]
  constructor
  · rintro ⟨holds, reached, hfirst, rfl⟩
    exact ⟨reached, hfirst⟩
  · rintro ⟨reached, hfirst⟩
    exact ⟨holds, reached, hfirst, rfl⟩

/-! ## Guards inside type arguments -/

/-- Where there was a guard there is one afterwards. -/
theorem isSome_guard_of_checks (limit : Nat) :
    (∀ (c : Comparison) answer, c.guard.isSome → c.check r limit = some answer →
      answer.2.isSome) ∧
    ∀ pairs (guard : Option Guard) answer, guard.isSome →
      assignableArgs limit r r pairs guard = some answer → answer.2.isSome := by
  induction limit with
  | zero =>
    refine ⟨fun c answer _ h => by simp [Comparison.check, assignableFrom] at h, ?_⟩
    intro pairs guard answer hguard h
    cases pairs with
    | nil =>
      obtain rfl := Option.some.inj (show some (true, guard) = some answer from h)
      exact hguard
    | cons pair rest => simp [assignableArgs] at h
  | succ limit ih =>
    obtain ⟨hcheck, hargs⟩ := ih
    constructor
    · rintro ⟨n, other, guard⟩ answer hguard h
      cases n with
      | none =>
        obtain rfl := Option.some.inj (show some (false, guard) = some answer from h)
        exact hguard
      | some n =>
        cases other with
        | none =>
          obtain rfl := Option.some.inj (show some (false, guard) = some answer from h)
          exact hguard
        | some other =>
          rw [Comparison.check, assignableFrom_eq] at h
          obtain ⟨p, -, h⟩ := Option.bind_eq_some_iff.mp h
          cases p with
          | decided holds =>
            obtain rfl := Option.some.inj h
            exact hguard
          | components c otherComponent =>
            obtain ⟨first, -, h⟩ := Option.bind_eq_some_iff.mp h
            obtain rfl := Option.some.inj h
            exact hguard
          | bounds kind bounds types =>
            obtain ⟨holds, -, h⟩ := Option.bind_eq_some_iff.mp h
            obtain rfl := Option.some.inj h
            exact hguard
          | arguments pairs => exact hargs pairs _ answer rfl h
    · intro pairs guard answer hguard h
      cases pairs with
      | nil =>
        obtain rfl := Option.some.inj (show some (true, guard) = some answer from h)
        exact hguard
      | cons pair rest =>
        rw [assignableArgs] at h
        obtain ⟨⟨holds, reached⟩, hfirst, h⟩ := Option.bind_eq_some_iff.mp h
        have hreached : reached.isSome := hcheck ⟨pair.1, pair.2, guard⟩ _ hguard hfirst
        cases holds with
        | true => exact hargs rest reached answer hreached h
        | false =>
          obtain rfl := Option.some.inj h
          exact hreached

theorem Passes.exists_guard {pairs : List (Option Node × Option Node)} {guard : Guard}
    {after : Option Guard} (h : Passes r pairs (some guard) after) :
    ∃ reached, after = some reached := by
  obtain ⟨limit, h⟩ := h
  exact Option.isSome_iff_exists.mp ((isSome_guard_of_checks limit).2 _ _ _ rfl h)

/-- Pairs of arguments that hold one after the other, if each does once it comes to be compared. -/
theorem exists_passes_of_reached {pairs : List (Option Node × Option Node)} {guard : Option Guard}
    (h : ∀ before arg otherArg after reached, pairs = before ++ (arg, otherArg) :: after →
      Passes r before guard reached →
      ∃ next, (Comparison.mk arg otherArg reached).Answers r true next) :
    ∃ reached, Passes r pairs guard reached := by
  induction pairs generalizing guard with
  | nil => exact ⟨guard, (finds_assignableArgs_nil_iff ..).mpr rfl⟩
  | cons pair rest ih =>
    obtain ⟨n, other⟩ := pair
    have hnil : Passes r [] guard guard := (finds_assignableArgs_nil_iff ..).mpr rfl
    obtain ⟨next, hfirst⟩ := h [] n other rest guard rfl hnil
    obtain ⟨reached, hrest⟩ := ih fun before arg otherArg after reached heq hbefore =>
      h ((n, other) :: before) arg otherArg after reached (by rw [heq]; rfl)
        ((passes_cons_iff ..).mpr ⟨next, hfirst, hbefore⟩)
    exact ⟨reached, (passes_cons_iff ..).mpr ⟨next, hfirst, hrest⟩⟩

/-- Pairs that are found assignable under every guard are so one after the other. -/
theorem exists_passes {pairs : List (Option Node × Option Node)}
    (hpair : ∀ p ∈ pairs, ∀ guard : Guard, ∃ after,
      (Comparison.mk p.1 p.2 (some guard)).Answers r true after)
    (guard : Guard) : ∃ after, Passes r pairs (some guard) after := by
  refine exists_passes_of_reached fun before arg otherArg after reached heq hbefore => ?_
  obtain ⟨next, rfl⟩ := hbefore.exists_guard
  exact hpair (arg, otherArg) (by simp [heq]) next

/-! ## Checks that end open only comparisons that end -/

/-- The argument pairs that come to be compared are compared under smaller limits. -/
theorem exists_check_of_assignableArgs {limit : Nat}
    {before after : List (Option Node × Option Node)} {arg otherArg : Option Node}
    {guard reached : Option Guard}
    (hends : (assignableArgs limit r r (before ++ (arg, otherArg) :: after) guard).isSome)
    (hbefore : Passes r before guard reached) :
    ∃ l < limit, ((Comparison.mk arg otherArg reached).check r l).isSome := by
  induction before generalizing limit guard with
  | nil =>
    rcases Prod.mk.inj ((finds_assignableArgs_nil_iff guard _).mp hbefore) with ⟨-, rfl⟩
    cases limit with
    | zero => simp [assignableArgs] at hends
    | succ limit =>
      rw [List.nil_append, assignableArgs] at hends
      exact ⟨limit, by omega, Option.isSome_of_isSome_bind hends⟩
  | cons pair before ih =>
    rcases pair with ⟨n, other⟩
    rcases (passes_cons_iff ..).mp hbefore with ⟨next, hfirst, hbefore⟩
    cases limit with
    | zero => simp [assignableArgs] at hends
    | succ limit =>
      rcases Option.isSome_iff_exists.mp hends with ⟨answer, hanswer⟩
      rw [List.cons_append, assignableArgs] at hanswer
      rcases Option.bind_eq_some_iff.mp hanswer with ⟨⟨holds, next'⟩, hcheck, hrest⟩
      rcases hfirst.unique (.intro limit hcheck) with ⟨rfl, rfl⟩
      rcases ih (Option.isSome_iff_exists.mpr ⟨answer, hrest⟩) hbefore with ⟨l, hl, hsome⟩
      exact ⟨l, by omega, hsome⟩

/-- The same for the nodes that a bound has to accept. -/
theorem exists_check_of_acceptsEach {limit : Nat} {kind : WildcardKind}
    {bound type : Node} {types types' : List Node}
    (hends : (acceptsEach limit r r kind bound (types ++ type :: types')).isSome)
    (htypes : ∀ t ∈ types, Accepts r kind bound t) :
    ∃ l < limit, ((boundComparison kind bound type).check r l).isSome := by
  induction types generalizing limit with
  | nil =>
    cases limit with
    | zero => simp [acceptsEach] at hends
    | succ limit =>
      rw [List.nil_append, acceptsEach_cons] at hends
      exact ⟨limit, by omega, Option.isSome_of_isSome_bind hends⟩
  | cons t types ih =>
    rcases htypes t List.mem_cons_self with ⟨guard, hfirst⟩
    cases limit with
    | zero => simp [acceptsEach] at hends
    | succ limit =>
      rcases Option.isSome_iff_exists.mp hends with ⟨answer, hanswer⟩
      rw [List.cons_append, acceptsEach_cons] at hanswer
      rcases Option.bind_eq_some_iff.mp hanswer with ⟨⟨holds, guard'⟩, hcheck, hrest⟩
      rcases hfirst.unique (.intro limit hcheck) with ⟨rfl, -⟩
      obtain ⟨l, hl, hsome⟩ := ih (Option.isSome_iff_exists.mpr ⟨answer, hrest⟩)
        fun t ht => htypes t (List.mem_cons_of_mem _ ht)
      exact ⟨l, by omega, hsome⟩

/-- The same for all bounds of a wildcard. -/
theorem exists_check_of_acceptsAll {limit : Nat} {kind : WildcardKind}
    {bound type : Node} {before after types types' : List Node}
    (hends : (acceptsAll limit r r kind (before ++ bound :: after)
      (types ++ type :: types')).isSome)
    (hbefore : ∀ b ∈ before, ∀ t ∈ types ++ type :: types', Accepts r kind b t)
    (htypes : ∀ t ∈ types, Accepts r kind bound t) :
    ∃ l < limit, ((boundComparison kind bound type).check r l).isSome := by
  induction before generalizing limit with
  | nil =>
    cases limit with
    | zero => simp [acceptsAll] at hends
    | succ limit =>
      rw [List.nil_append, acceptsAll] at hends
      obtain ⟨l, hl, hsome⟩ :=
        exists_check_of_acceptsEach (Option.isSome_of_isSome_bind hends) htypes
      exact ⟨l, by omega, hsome⟩
  | cons b before ih =>
    have hfirst := (finds_acceptsEach_true_iff ..).mpr (hbefore b List.mem_cons_self)
    cases limit with
    | zero => simp [acceptsAll] at hends
    | succ limit =>
      rcases Option.isSome_iff_exists.mp hends with ⟨answer, hanswer⟩
      rw [List.cons_append, acceptsAll] at hanswer
      rcases Option.bind_eq_some_iff.mp hanswer with ⟨holds, heach, hrest⟩
      obtain rfl := hfirst.eq_of_some (acceptsEach_steady kind b _) heach
      obtain ⟨l, hl, hsome⟩ := ih (Option.isSome_iff_exists.mpr ⟨answer, hrest⟩)
        fun b hb => hbefore b (List.mem_cons_of_mem _ hb)
      exact ⟨l, by omega, hsome⟩

/-- What a check that ends opens ends under a smaller limit. -/
theorem exists_check_of_opens {limit : Nat} {c d : Comparison}
    (hends : (c.check r limit).isSome) (hopens : Opens r c d) :
    ∃ l < limit, (d.check r l).isSome := by
  cases limit with
  | zero => simp [Comparison.check, assignableFrom] at hends
  | succ limit =>
    have hcarry : ∀ {n other guard p}, PlanIs r n other guard p →
        ((Comparison.mk (some n) (some other) guard).check r (limit + 1)).isSome →
        (carryOut r r limit n other guard p).isSome := by
      intro n other guard p hplan hsome
      rw [Comparison.check, assignableFrom_eq] at hsome
      rcases Option.isSome_iff_exists.mp hsome with ⟨answer, hanswer⟩
      rcases Option.bind_eq_some_iff.mp hanswer with ⟨q, hq, hanswer⟩
      obtain rfl := hplan.unique (.intro limit hq)
      exact Option.isSome_iff_exists.mpr ⟨answer, hanswer⟩
    have hsmaller : (∃ l < limit, (d.check r l).isSome) →
        ∃ l < limit + 1, (d.check r l).isSome := by
      rintro ⟨l, hl, hsome⟩
      exact ⟨l, by omega, hsome⟩
    cases hopens with
    | components hplan =>
      exact ⟨limit, by omega, Option.isSome_of_isSome_bind (hcarry hplan hends)⟩
    | bounds hplan hbefore htypes =>
      exact hsmaller (exists_check_of_acceptsAll
        (Option.isSome_of_isSome_bind (hcarry hplan hends)) hbefore htypes)
    | arguments hplan hbefore =>
      exact hsmaller (exists_check_of_assignableArgs (hcarry hplan hends) hbefore)

/-! ## Checks end if all comparisons opened do -/

theorem Comparison.Ends.exists_answers {c : Comparison} (h : c.Ends r) :
    ∃ holds guard, c.Answers r holds guard := by
  rcases h with ⟨limit, h⟩
  rcases Option.isSome_iff_exists.mp h with ⟨⟨holds, guard⟩, h⟩
  exact ⟨holds, guard, .intro limit h⟩

/-- Argument pairs find an answer if those that come to be compared do. -/
theorem exists_assignableArgs {pairs : List (Option Node × Option Node)}
    {guard : Option Guard}
    (h : ∀ before arg otherArg after reached, pairs = before ++ (arg, otherArg) :: after →
      Passes r before guard reached → (Comparison.mk arg otherArg reached).Ends r) :
    ∃ answer, Finds (fun limit => assignableArgs limit r r pairs guard) answer := by
  induction pairs generalizing guard with
  | nil => exact ⟨_, (finds_assignableArgs_nil_iff ..).mpr rfl⟩
  | cons pair rest ih =>
    rcases pair with ⟨n, other⟩
    have hnil : Passes r [] guard guard := (finds_assignableArgs_nil_iff ..).mpr rfl
    rcases (h [] n other rest guard rfl hnil).exists_answers with ⟨holds, next, hfirst⟩
    cases holds with
    | false =>
      exact ⟨_, (finds_assignableArgs_cons_iff ..).mpr ⟨false, next, hfirst, rfl⟩⟩
    | true =>
      have hrest : ∃ answer, Finds (fun limit => assignableArgs limit r r rest next) answer := by
        refine ih fun before arg otherArg after reached heq hbefore => ?_
        refine h ((n, other) :: before) arg otherArg after reached (by rw [heq]; rfl) ?_
        exact (passes_cons_iff ..).mpr ⟨next, hfirst, hbefore⟩
      rcases hrest with ⟨answer, hanswer⟩
      exact ⟨answer, (finds_assignableArgs_cons_iff ..).mpr ⟨true, next, hfirst, hanswer⟩⟩

/-- The same for the nodes that a bound has to accept; if it does, it accepts each. -/
theorem exists_acceptsEach (kind : WildcardKind) (bound : Node)
    (types : List Node)
    (h : ∀ before type after, types = before ++ type :: after →
      (∀ t ∈ before, Accepts r kind bound t) → (boundComparison kind bound type).Ends r) :
    ∃ holds, Finds (fun limit => acceptsEach limit r r kind bound types) holds ∧
      (holds = true → ∀ t ∈ types, Accepts r kind bound t) := by
  induction types with
  | nil => exact ⟨true, ⟨0, by simp [acceptsEach]⟩, by simp⟩
  | cons type rest ih =>
    obtain ⟨first, guard, hfirst⟩ := (h [] type rest rfl (by simp)).exists_answers
    cases first with
    | false =>
      exact ⟨false, (finds_acceptsEach_cons_iff ..).mpr ⟨false, guard, hfirst, rfl⟩, by simp⟩
    | true =>
      obtain ⟨holds, hholds, hall⟩ := ih fun before t after heq hbefore =>
        h (type :: before) t after (by rw [heq]; rfl)
          (List.forall_mem_cons.mpr ⟨⟨guard, hfirst⟩, hbefore⟩)
      exact ⟨holds, (finds_acceptsEach_cons_iff ..).mpr ⟨true, guard, hfirst, hholds⟩,
        fun heq => List.forall_mem_cons.mpr ⟨⟨guard, hfirst⟩, hall heq⟩⟩

/-- The same for all bounds of a wildcard. -/
theorem exists_acceptsAll (kind : WildcardKind) (bounds types : List Node)
    (h : ∀ before bound after types₁ type types₂, bounds = before ++ bound :: after →
      types = types₁ ++ type :: types₂ →
      (∀ b ∈ before, ∀ t ∈ types, Accepts r kind b t) →
      (∀ t ∈ types₁, Accepts r kind bound t) → (boundComparison kind bound type).Ends r) :
    ∃ holds, Finds (fun limit => acceptsAll limit r r kind bounds types) holds := by
  induction bounds with
  | nil => exact ⟨true, 0, by simp [acceptsAll]⟩
  | cons bound rest ih =>
    obtain ⟨first, hfirst, hall⟩ := exists_acceptsEach kind bound types
      fun types₁ type types₂ heq htypes =>
        h [] bound rest types₁ type types₂ rfl heq (by simp) htypes
    cases first with
    | false =>
      exact ⟨false, (finds_acceptsAll_cons_iff ..).mpr ⟨false, hfirst, rfl⟩⟩
    | true =>
      obtain ⟨holds, hholds⟩ := ih fun before b after types₁ type types₂ heq htypes hbefore =>
        h (bound :: before) b after types₁ type types₂ (by rw [heq]; rfl) htypes
          (List.forall_mem_cons.mpr ⟨hall rfl, hbefore⟩)
      exact ⟨holds, (finds_acceptsAll_cons_iff ..).mpr ⟨true, hfirst, hholds⟩⟩

/-- A check ends if all comparisons that it opens end. -/
theorem ends_of_opens (hr : r.Acyclic) {c : Comparison} (h : ∀ d, Opens r c d → d.Ends r) :
    c.Ends r := by
  rcases c with ⟨n, other, guard⟩
  cases n with
  | none => exact ⟨1, by simp [Comparison.check, assignableFrom]⟩
  | some n =>
    cases other with
    | none => exact ⟨1, by simp [Comparison.check, assignableFrom]⟩
    | some other =>
      rcases (plan_total hr n other guard).finds with ⟨p, hplan⟩
      have hcarry : ∃ answer, Finds (fun limit => carryOut r r limit n other guard p) answer := by
        cases p with
        | decided holds => exact ⟨_, 0, rfl⟩
        | components c otherComponent =>
          rcases (h _ (.components hplan)).exists_answers with ⟨holds, reached, l, hl⟩
          exact ⟨(holds, guard), l, Option.bind_eq_some_iff.mpr ⟨_, hl, rfl⟩⟩
        | bounds kind bounds types =>
          obtain ⟨holds, l, hl⟩ := exists_acceptsAll kind bounds types
            fun before bound after types₁ type types₂ hb ht hbefore htypes => by
              subst hb ht
              exact h _ (.bounds hplan hbefore htypes)
          exact ⟨(holds, guard), l, Option.bind_eq_some_iff.mpr ⟨_, hl, rfl⟩⟩
        | arguments pairs =>
          refine exists_assignableArgs fun before arg otherArg after reached heq hbefore => ?_
          subst heq
          exact h _ (.arguments hplan hbefore)
      rcases hcarry with ⟨answer, hanswer⟩
      rcases (Comparison.answers_iff ..).mpr ⟨p, hplan, hanswer⟩ with ⟨limit, hlimit⟩
      exact ⟨limit, Option.isSome_iff_exists.mpr ⟨answer, hlimit⟩⟩

/-- A check ends exactly when its comparisons are opened to an end. -/
theorem ends_iff_acc (hr : r.Acyclic) (c : Comparison) :
    c.Ends r ↔ Acc (fun d c => Opens r c d) c := by
  constructor
  · rintro ⟨limit, h⟩
    induction limit using Nat.strong_induction_on generalizing c with
    | _ limit ih =>
    refine Acc.intro c fun d hd => ?_
    rcases exists_check_of_opens h hd with ⟨l, hl, hsome⟩
    exact ih l hl d hsome
  · intro h
    induction h with
    | intro c _ ih => exact ends_of_opens hr ih

end Node

end TypeConversion
