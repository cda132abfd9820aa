import TypeConversion.Node.Text
import TypeConversion.Proofs.Node.Resolution

/-!
# How nodes are displayed

The text of a node as a relation between nodes and texts, and the rules by which it is found: that
of an array from that of its component, that of a class from its name and from the texts of its type
arguments.

**Results**

* `display_steady`: a larger limit does not change the text of a node;
* `displayIs_array`, `displayIs_of_resolvesTo`: the texts of arrays and of classes.
-/

namespace TypeConversion

namespace Node

open Walk

variable (r : Registry)

/-- The text of an optional node. -/
def DisplayIs (n : Option Node) (text : String) : Prop :=
  Finds (fun limit => display r limit n) text

/-- The texts of several nodes. -/
def DisplaysAre (ns : List (Option Node)) (texts : List String) : Prop :=
  Finds (fun limit => displayAll r limit ns) texts

/-! ## Larger limits -/

theorem isOpenVariable_steady (n : Node) : Steady fun limit => isOpenVariable r limit n := by
  intro limit more hle
  change Extends (isOpenVariable r limit n) (isOpenVariable r more n)
  rw [isOpenVariable, isOpenVariable]
  cases n.expr with
  | typeVar v =>
    refine (resolveInContext_steady r n.context v limit more hle).bind ?_
    intro bound
    exact .refl _
  | plain _ | parameterized _ _ _ | genericArray _ | wildcard _ _ => exact .refl _

/-- The text of a node and the texts of several, which are found from each other. -/
theorem displaying_extends (limit : Nat) : ∀ more, limit ≤ more →
    (∀ n, Extends (display r limit n) (display r more n)) ∧
    (∀ ns, Extends (displayAll r limit ns) (displayAll r more ns)) := by
  induction limit with
  | zero =>
    intro more _
    constructor
    · intro n
      cases n with
      | none => simp [display]
      | some n => exact .of_none _
    · intro ns
      cases ns with
      | nil => simp [displayAll]
      | cons n rest => exact .of_none _
  | succ limit ih =>
    intro more hle
    obtain ⟨more, rfl⟩ : ∃ k, more = k + 1 := ⟨more - 1, by omega⟩
    have hle : limit ≤ more := by omega
    obtain ⟨hone, hall⟩ := ih more hle
    constructor
    · intro n
      cases n with
      | none => simp [display]
      | some n =>
        rw [display, display]
        refine (isArray_steady r n limit more hle).bind ?_
        rintro (_ | _)
        · refine (resolve_steady r n limit more hle).bind ?_
          rintro (_ | e)
          · exact .refl _
          refine (isOpenVariable_steady r n limit more hle).bind ?_
          rintro (_ | _)
          · refine (generics_steady r n limit more hle).bind ?_
            rintro (_ | ⟨arg, args⟩)
            · exact .refl _
            · exact (hall _).bind fun _ => .refl _
          · exact .refl _
        · refine (componentType_steady r n limit more hle).bind ?_
          intro c
          exact (hone c).bind fun _ => .refl _
    · intro ns
      cases ns with
      | nil => simp [displayAll]
      | cons n rest =>
        rw [displayAll, displayAll]
        refine (hone n).bind fun text => ?_
        exact (hall rest).bind fun _ => .refl _

/-- The text of a node does not depend on the limit, once there is one. -/
theorem display_steady (n : Option Node) : Steady fun limit => display r limit n :=
  fun limit more hle => (displaying_extends r limit more hle).1 n

theorem displayAll_steady (ns : List (Option Node)) : Steady fun limit => displayAll r limit ns :=
  fun limit more hle => (displaying_extends r limit more hle).2 ns

/-! ## Texts of nodes -/

variable {r}

/-- The text of an array is that of its component with a pair of brackets. -/
theorem displayIs_array {n : Node} {c : Option Node} {text : String} (harray : ArrayIs r n true)
    (hcomponent : ComponentIs r n c) (htext : DisplayIs r c text) :
    DisplayIs r (some n) (text ++ "[]") := by
  obtain ⟨limit, harray, hcomponent, htext⟩ :=
    ((harray.eventually (isArray_steady r n)).and
      ((hcomponent.eventually (componentType_steady r n)).and
        (htext.eventually (display_steady r c)))).exists
  exact .intro (limit + 1) (by simp [display, harray, hcomponent, htext])

/-- A class is displayed by its name and its type arguments, if it has any. -/
theorem displayIs_of_resolvesTo {n : Node} {e : Erasure} {args : List (Option Node)}
    {texts : List String} (harray : ArrayIs r n false) (he : ResolvesTo r n (some e))
    (hclass : n.expr.isClass = true) (hargs : GenericsAre r n args)
    (htexts : DisplaysAre r args texts) :
    DisplayIs r (some n) (if args = [] then r.erasureName e
      else r.erasureName e ++ "<" ++ joinTexts ", " texts ++ ">") := by
  have hopen : ∀ limit, isOpenVariable r limit n = some false := by
    intro limit
    rw [isOpenVariable]
    cases h : n.expr <;> first | rfl | simp [h, TypeExpr.isClass] at hclass
  obtain ⟨limit, harray, he, hargs, htexts⟩ :=
    ((harray.eventually (isArray_steady r n)).and
      ((he.eventually (resolve_steady r n)).and
        ((hargs.eventually (generics_steady r n)).and
          (htexts.eventually (displayAll_steady r args))))).exists
  refine .intro (limit + 1) ?_
  cases args with
  | nil => simp [display, harray, he, hopen, hargs]
  | cons arg rest => simp [display, harray, he, hopen, hargs, htexts]

theorem displaysAre_nil : DisplaysAre r [] [] := .intro 0 rfl

theorem displaysAre_cons {n : Option Node} {ns : List (Option Node)} {text : String}
    {texts : List String} (htext : DisplayIs r n text) (htexts : DisplaysAre r ns texts) :
    DisplaysAre r (n :: ns) (text :: texts) := by
  obtain ⟨limit, htext, htexts⟩ :=
    ((htext.eventually (display_steady r n)).and
      (htexts.eventually (displayAll_steady r ns))).exists
  exact .intro (limit + 1) (by simp [displayAll, htext, htexts])

/-- Wherever there are nodes, there are texts. -/
theorem DisplaysAre.ne_nil {ns : List (Option Node)} {texts : List String}
    (h : DisplaysAre r ns texts) (hns : ns ≠ []) : texts ≠ [] := by
  obtain ⟨limit, h⟩ := h
  cases ns with
  | nil => exact absurd rfl hns
  | cons n rest =>
    cases limit with
    | zero => simp [displayAll] at h
    | succ limit =>
      obtain ⟨text, -, h⟩ := Option.bind_eq_some_iff.mp h
      obtain ⟨texts', -, h⟩ := Option.bind_eq_some_iff.mp h
      obtain rfl : text :: texts' = texts := Option.some.inj h
      simp

end Node

end TypeConversion
