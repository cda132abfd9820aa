import TypeConversion.Proofs.Assignable.Written
import TypeConversion.Proofs.Conversion.Element

/-!
# Arrays and lists of a class

The elements of an array of a class are of the class.  A list of a class is seen as a collection of
the variable that lists have; in the list that variable stands for the class, and so its elements
are of the class as well.  Where a list is asked for, an array list is built, with all its elements.

**Results**

* `exists_isElement_array`, `exists_isElement_list`: the elements of arrays and lists;
* `ExtendsBase.createCollection_list`: what is built for lists.
-/

namespace TypeConversion

open Registry Walk

namespace TypeDescriptor

variable {r : Registry}

/-- What is found for the elements of a type from some limit on: a definite type of an erasure. -/
def IsElement (r : Registry) (e : Erasure) (d element : TypeDescriptor) : Prop :=
  element.registry = r ∧ element.erasure = e ∧ ∀ᶠ limit in Filter.atTop,
    d.element? limit = some (some element) ∧ element.isDefinite limit = some true

/-- Elements that are found by their node are of its erasure. -/
theorem isElement_of_node {d : TypeDescriptor} {n : Node} {e : Erasure}
    (hn : Node.ResolvesTo r n (some e))
    (hd : ∀ᶠ limit in Filter.atTop, d.element? limit = some (some ⟨r, some n, e, []⟩)) :
    IsElement r e d ⟨r, some n, e, []⟩ := by
  refine ⟨rfl, rfl, ?_⟩
  filter_upwards [hd, hn.eventually (Node.resolve_steady r n)] with limit helement hresolved
  refine ⟨helement, ?_⟩
  have hdefinite : Node.resolveOption r limit (some n) = some (some e) := hresolved
  rw [isDefinite, hdefinite]
  rfl

/-- The elements of an array of a class are of the class. -/
theorem exists_isElement_array (c : ClassId) :
    ∃ element, IsElement r (.ofClass c) (ofErasure r (Erasure.ofClass c).array) element := by
  have harray : (Erasure.ofClass c).array? = some (Erasure.ofClass c).array := rfl
  have hcomponent : Node.ComponentIs r (.ofErasure (Erasure.ofClass c).array)
      (some (.ofClass c)) := by
    rw [Node.ofErasure, Node.ofExpr, Node.componentIs_plain_iff,
      Erasure.component?_of_array? harray]
    rfl
  have hresolves : Node.ResolvesTo r (.ofClass c) (some (.ofClass c)) :=
    (Node.resolvesTo_of_plain (Node.expr_written ..) _).mpr rfl
  refine ⟨_, isElement_of_node hresolves ?_⟩
  filter_upwards [hcomponent.eventually (Node.componentType_steady r _),
    hresolves.eventually (Node.resolve_steady r _)] with limit hc hr
  have hnode : componentNode limit r (some (.ofErasure (Erasure.ofClass c).array)) =
      some (some (.ofClass c)) := hc
  have hresolved : Node.resolveOption r limit (some (.ofClass c)) = some (some (.ofClass c)) := hr
  rw [element?]
  simp only [ofErasure, hnode, Option.bind_eq_bind, Option.bind_some, hresolved,
    Option.some_or, make]
  rfl

/-- A list of a class, as a node. -/
def listNode (c : ClassId) : Node := .ofExpr (.listOf (.ofClass c))

/-- A list of a class. -/
def listOf (r : Registry) (c : ClassId) : TypeDescriptor :=
  ⟨r, some (listNode c), .ofClass Bootstrap.wellKnown.list, []⟩

theorem resolvesTo_listOf (c : ClassId) : Node.ResolvesTo r (listNode c)
    (some (.ofClass Bootstrap.wellKnown.list)) :=
  Node.resolvesTo_of_head? rfl

/-- The descriptor of a list is made of its node. -/
theorem ofNode_listOf (c : ClassId) : ∀ᶠ limit in Filter.atTop,
    ofNode limit r (some (listNode c)) = some (listOf r c) := by
  filter_upwards [(resolvesTo_listOf c).eventually (Node.resolve_steady r _)] with limit hresolved
  have hnode : Node.resolveOption r limit (some (listNode c)) =
      some (some (.ofClass Bootstrap.wellKnown.list)) := hresolved
  rw [ofNode, make, hnode]
  rfl

/-- A list of a class as a collection, of the variable that lists have. -/
def collectionView (c : ClassId) : Node :=
  .written (.parameterized Bootstrap.wellKnown.collection [.typeVar ⟨4⟩] none)
    (some (listNode c))

theorem viewIs_collectionView (hbase : r.ExtendsBase) (c : ClassId) :
    Node.ViewIs r (some (listNode c)) (.ofClass Bootstrap.wellKnown.collection)
      (some (collectionView c)) := by
  have hinterfaces : bootstrap.genericInterfaces (.ofClass Bootstrap.wellKnown.list) =
      [.parameterized Bootstrap.wellKnown.collection [.typeVar ⟨4⟩] none] := rfl
  have hself : Node.ViewIs r (some (collectionView c)) (.ofClass Bootstrap.wellKnown.collection)
      (some (collectionView c)) := by
    refine (Node.viewIs_some_iff ..).mpr ⟨_, Node.resolvesTo_of_head? rfl, ?_⟩
    exact (if_pos rfl).mpr rfl
  have hfirst : Node.FirstViewIs r
      (Node.interfaceNodes r (listNode c) (.ofClass Bootstrap.wellKnown.list))
      (.ofClass Bootstrap.wellKnown.collection) (some (collectionView c)) := by
    rw [Node.interfaceNodes,
      hbase.genericInterfaces_eq (ExtendsBase.isBase_of_isSome rfl), hinterfaces]
    exact (Node.firstViewIs_cons_iff ..).mpr ⟨_, hself, rfl⟩
  refine (Node.viewIs_some_iff ..).mpr ⟨_, resolvesTo_listOf c, ?_⟩
  dsimp only
  rw [if_neg (by decide)]
  exact ⟨_, hfirst, rfl⟩

/-- The variable of lists, looked up in a list of a class. -/
def listArgument (c : ClassId) : Node := .written (.typeVar ⟨4⟩) (some (listNode c))

/-- In the list the variable stands for the class. -/
theorem resolvesTo_argument (hbase : r.ExtendsBase) (c : ClassId) :
    Node.ResolvesTo r (listArgument c)
      (some (.ofClass c)) := by
  have hparams : r.typeParameters Bootstrap.wellKnown.list = [⟨4⟩] := by
    rw [typeParameters, hbase.classes Bootstrap.wellKnown.list _ rfl]
    rfl
  have hbinds : Node.Binds r (some (listNode c)) ⟨4⟩
      (some (.written (.ofClass c) none)) := by
    rw [Node.binds_some_iff, listNode, Node.ofExpr, TypeExpr.listOf,
      Node.variableIs_parameterized_iff, hparams]
    rfl
  refine (Node.resolvesTo_of_step (by rw [listArgument, Node.expr_written]; rfl) _).mpr
    ⟨_, (Node.stepsTo_of_typeVar (Node.expr_written ..) _).mpr ⟨_, hbinds, rfl⟩, ?_⟩
  exact (Node.resolvesTo_of_plain (Node.expr_written ..) _).mpr rfl

/-- The elements of a list of a class are of the class. -/
theorem exists_isElement_list (hbase : r.ExtendsBase) (c : ClassId) :
    ∃ element, IsElement r (.ofClass c) (listOf r c) element := by
  have hcollection : (listOf r c).isCollection = true := by
    change r.isSubclass (.ofClass r.wellKnown.collection) (.ofClass Bootstrap.wellKnown.list) = true
    rw [hbase.wellKnown]
    exact hbase.isSubclass_of_reaches (ExtendsBase.isBase_of_isSome rfl)
      (ExtendsBase.isBase_of_isSome rfl) rfl rfl rfl
  have hgenerics : Node.GenericsAre r (collectionView c) [some (listArgument c)] :=
    (Node.genericsAre_parameterized_iff ..).mpr rfl
  refine ⟨_, isElement_of_node (resolvesTo_argument hbase c) ?_⟩
  filter_upwards [(viewIs_collectionView hbase c).eventually (Node.asErasure_steady r _ _),
    hgenerics.eventually (Node.generics_steady r _),
    (resolvesTo_argument hbase c).eventually (Node.resolve_steady r _)] with limit hv hg hr
  have hviewed : Node.asClass r limit (listOf r c).node r.wellKnown.collection =
      some (some (collectionView c)) := by
    rw [hbase.wellKnown]
    exact hv
  have hargument : Node.getGeneric r limit [] (some (collectionView c)) =
      some (some (listArgument c)) := by
    change Node.generics r limit (collectionView c) >>= _ = _
    rw [hg]
    rfl
  have hresolved : Node.resolveOption r limit (some (listArgument c)) =
      some (some (.ofClass c)) := hr
  have hplain : (listOf r c).isArray = false := rfl
  have hregistry : (listOf r c).registry = r := rfl
  simp only [element?, hplain, hcollection, hregistry, hviewed, hargument, make, hresolved,
    Bool.false_eq_true, if_false, if_true, Option.bind_eq_bind, Option.bind_some]
  rfl

end TypeDescriptor

end TypeConversion
