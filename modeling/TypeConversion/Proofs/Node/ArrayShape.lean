import TypeConversion.Proofs.Node.Resolution
import TypeConversion.Registry.Bootstrap

/-!
# Arrays, their components and their erasures

Whether a node is an array, what it consists of and what it resolves to are three walks.  They take
the same single steps, until one of them comes to a node that is a class or an array; such an array
is an erasure with dimensions, an array of a type expression, or the array of a node.  In each of
these forms the three answers fit together, and so they do for every node from which steps lead
there.

**Results**

* `ResolvesTo.shape`: a node that resolves to an erasure is an array if the erasure is one, and
  consists of what resolves to the component of the erasure;
* `ComponentIs.resolvesTo`: a node whose component resolves to an erasure resolves to the array of
  it;
* `shape_agrees`: both together.
-/

namespace TypeConversion

namespace Node

open Walk

variable {r : Registry}

/-- A node that is written as an erasure consists of what resolves to the component of that. -/
theorem exists_componentIs_of_plain {n : Node} {e : Erasure} (h : n.expr = .plain e) :
    ∃ c, ComponentIs r n c ∧ Finds (fun limit => resolveOption r limit c) e.component? := by
  cases n with
  | written t context =>
    obtain rfl : t = .plain e := by simpa using h
    refine ⟨_, (componentIs_plain_iff ..).mpr rfl, ?_⟩
    cases e.component? with
    | none => exact finds_const_iff.mpr rfl
    | some c => exact (resolvesTo_of_plain (expr_written ..) _).mpr rfl
  | arrayOf m =>
    refine ⟨some m, (componentIs_arrayOf_iff ..).mpr rfl, ?_⟩
    rw [expr] at h
    rcases m.expr.arrayOf_cases with ⟨a, array, ha, harray, hexpr⟩ | hexpr
    · obtain rfl : array = e := by simpa [hexpr] using h
      rw [Erasure.component?_of_array? harray]
      exact (resolvesTo_of_plain ha _).mpr rfl
    · simp [hexpr] at h
  | applied raw params given => simp [expr] at h

/-- Where a class or an array resolves to an erasure, its shape is that of the erasure. -/
theorem shape_of_final {n : Node} {e : Erasure} (hfinal : n.expr.isFinal = true)
    (he : ResolvesTo r n (some e)) :
    ArrayIs r n e.isArray ∧
      ∃ c, ComponentIs r n c ∧ Finds (fun limit => resolveOption r limit c) e.component? := by
  cases hexpr : n.expr with
  | plain a =>
    obtain rfl : e = a := by simpa using (resolvesTo_of_plain hexpr _).mp he
    exact ⟨(arrayIs_of_plain hexpr _).mpr rfl, exists_componentIs_of_plain hexpr⟩
  | genericArray t =>
    obtain ⟨c, hc, hfound⟩ := (resolvesTo_of_genericArray hexpr _).mp he
    cases c with
    | none => simp at hfound
    | some c =>
      obtain ⟨found, hcomponent, heq⟩ := hfound
      obtain ⟨k, rfl, hk⟩ := Option.bind_eq_some_iff.mp heq.symm
      rw [Erasure.isArray_of_array? hk, Erasure.component?_of_array? hk]
      exact ⟨(arrayIs_of_genericArray hexpr _).mpr rfl, some c, hc, hcomponent⟩
  | parameterized _ _ _ | wildcard _ _ | typeVar _ => simp [hexpr, TypeExpr.isFinal] at hfinal

/-- Where a node resolves to an erasure, its shape is that of the erasure. -/
theorem ResolvesTo.shape {n : Node} {e : Erasure} (he : ResolvesTo r n (some e)) :
    ArrayIs r n e.isArray ∧
      ∃ c, ComponentIs r n c ∧ Finds (fun limit => resolveOption r limit c) e.component? := by
  obtain ⟨limit, hlimit⟩ := he
  change resolve r limit n = _ at hlimit
  induction limit generalizing n with
  | zero => simp [resolve] at hlimit
  | succ limit ih =>
    cases hfinal : n.expr.isFinal with
    | true => exact shape_of_final hfinal (.intro _ hlimit)
    | false =>
      obtain ⟨t, ht, hfound⟩ := exists_step_of_resolve hfinal hlimit
      cases t with
      | none => simp at hfound
      | some t =>
        obtain ⟨harray, c, hc, hcomponent⟩ := ih hfound
        exact ⟨(arrayIs_of_step hfinal _).mpr ⟨some t, ht, harray⟩, c,
          (componentIs_of_step hfinal _).mpr ⟨some t, ht, hc⟩, hcomponent⟩

/-- Where the component of a node has an erasure, that of the node is the array of it. -/
theorem ComponentIs.resolvesTo {n c : Node} {e : Erasure} (hc : ComponentIs r n (some c))
    (he : ResolvesTo r c (some e)) : ResolvesTo r n e.array? := by
  obtain ⟨limit, hlimit⟩ := hc
  change componentType r limit n = _ at hlimit
  induction limit generalizing n with
  | zero => cases n <;> simp [componentType] at hlimit
  | succ limit ih =>
    have hc : ComponentIs r n (some c) := .intro _ hlimit
    cases hfinal : n.expr.isFinal with
    | true =>
      cases hexpr : n.expr with
      | plain a =>
        obtain ⟨c', hc', hcomponent⟩ := exists_componentIs_of_plain (r := r) hexpr
        obtain rfl := hc'.unique (componentType_steady r n) hc
        have ha : a.component? = some e := hcomponent.unique (resolve_steady r c) he
        rw [Erasure.array?_of_component? ha]
        exact (resolvesTo_of_plain hexpr _).mpr rfl
      | genericArray t =>
        exact (resolvesTo_of_genericArray hexpr _).mpr ⟨some c, hc, some e, he, rfl⟩
      | parameterized _ _ _ | wildcard _ _ | typeVar _ => simp [hexpr, TypeExpr.isFinal] at hfinal
    | false =>
      rw [componentType_of_step hfinal] at hlimit
      obtain ⟨t, ht, hct⟩ := Option.bind_eq_some_iff.mp hlimit
      cases t with
      | none => simp at hct
      | some t => exact (resolvesTo_of_step hfinal _).mpr ⟨some t, .intro limit ht, ih hct⟩

/--
Array shape, component and erasure of a node agree.  A node that resolves to an erasure is an array
exactly if the erasure is one, and its component, if any, resolves to that of the erasure.  A node
whose component resolves to an erasure of fewer than 255 dimensions is an array, and resolves to the
array of that erasure.
-/
theorem shape_agrees (r : Registry) (n : Node) :
    (∀ e, ResolvesTo r n (some e) →
      (∀ b, ArrayIs r n b ↔ b = e.isArray) ∧
      ∃ c, ComponentIs r n c ∧ Finds (fun limit => resolveOption r limit c) e.component?) ∧
    ∀ c e, ComponentIs r n c → Finds (fun limit => resolveOption r limit c) (some e) →
      e.dims < 255 → ArrayIs r n true ∧ ResolvesTo r n (some e.array) := by
  constructor
  · intro e he
    obtain ⟨harray, hcomponent⟩ := he.shape
    refine ⟨fun b => ⟨fun hb => hb.unique (isArray_steady r n) harray, ?_⟩, hcomponent⟩
    rintro rfl
    exact harray
  · intro c e hc he hdims
    have ha : e.array? = some e.array := by
      have hne : e.dims ≠ 255 := fun h => absurd hdims (by simp [h])
      simp [Erasure.array, Erasure.array?, hne]
    cases c with
    | none => simp [resolveOption, finds_const_iff] at he
    | some c =>
      have hresolves : ResolvesTo r n (some e.array) := ha ▸ hc.resolvesTo he
      have harray := hresolves.shape.1
      rw [Erasure.isArray_of_array? ha] at harray
      exact ⟨harray, hresolves⟩

/-- `? extends E` in a `List<E>` that is applied to the array of `List<String>`. -/
def boundToLists : Node :=
  within (some (applied Bootstrap.wellKnown.list [⟨4⟩]
      [some (arrayOf (ofExpr (.parameterized Bootstrap.wellKnown.list
        [.ofClass Bootstrap.wellKnown.string] none)))]))
    (.extending (.typeVar ⟨4⟩))

/-- The wildcard leads to its variable, that to the array it is bound to, and that to the lists. -/
theorem shape_agrees_boundToLists :
    ResolvesTo Registry.bootstrap boundToLists (some ⟨Bootstrap.wellKnown.list, 1⟩) ∧
      (∀ b, ArrayIs Registry.bootstrap boundToLists b ↔ b = true) ∧
      ∃ c, ComponentIs Registry.bootstrap boundToLists c ∧
        Finds (fun limit => resolveOption Registry.bootstrap limit c)
          (some (.ofClass Bootstrap.wellKnown.list)) ∧
        ResolvesTo Registry.bootstrap boundToLists
          (some (Erasure.ofClass Bootstrap.wellKnown.list).array) := by
  obtain ⟨hcomponent, harray⟩ := shape_agrees Registry.bootstrap boundToLists
  have hresolves : ResolvesTo Registry.bootstrap boundToLists
      (some ⟨Bootstrap.wellKnown.list, 1⟩) := .intro 8 (by decide +kernel)
  obtain ⟨hisArray, c, hc, hlist⟩ := hcomponent _ hresolves
  exact ⟨hresolves, hisArray, c, hc, hlist, (harray c _ hc hlist (by decide)).2⟩

end Node

end TypeConversion
