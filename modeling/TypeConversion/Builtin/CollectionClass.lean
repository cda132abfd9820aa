import TypeConversion.Registry.Lineage
import TypeConversion.Value.Basic
import TypeConversion.Conversion.Error

/-!
# Building collections

Which class a collection is built as when a type is asked for: interfaces get the array list or the
linked hash set, concrete collection classes are used as they are.  A set keeps the first of equal
elements.
-/

namespace TypeConversion

/-- The class that a collection asked for as a type is built as. -/
def Registry.collectionClass (r : Registry) (target : Erasure) : Except ConversionError ClassId :=
  let wk := r.wellKnown
  let below (c : ClassId) : Bool := r.isSubclass (.ofClass c) target
  let unsupported := .error (.unsupportedCollection (r.erasureName target))
  match target.asClass? with
  | none => unsupported
  | some c =>
    if r.isInterface target then
      if below wk.set then .ok wk.linkedHashSet
      else if below wk.list || c = wk.collection || c = wk.iterable then .ok wk.arrayList
      else unsupported
    else if below wk.collection then .ok c
    else unsupported

/-- Whether an element equals one of a list. -/
def containsElement (element : Option Value) (elements : List (Option Value)) : Bool :=
  elements.any fun other => Value.equalsOption other element

/-- Elements without those that equal one kept before; `kept` are the ones kept so far. -/
def keepFirst : List (Option Value) → List (Option Value) → List (Option Value)
  | _, [] => []
  | kept, element :: rest =>
    if containsElement element kept then keepFirst kept rest
    else element :: keepFirst (kept ++ [element]) rest

/-- The collection of the elements for a type. -/
def Registry.createCollection (r : Registry) (target : Erasure) (elements : List (Option Value)) :
    Except ConversionError Value := do
  let c ← r.collectionClass target
  if r.isSubclass (.ofClass r.wellKnown.set) (.ofClass c) then
    return .collection c (keepFirst [] elements)
  else return .collection c elements

end TypeConversion
