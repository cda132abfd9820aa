import TypeConversion.Registry.Lineage

/-!
# The order of dispatch

Converters are looked for along the hierarchy of a type: the type itself, boxed, then its
superclasses, each directly after the class below it, then all interfaces in the order in which they
are met.  An array climbs as its component does, each entry as an array.  Enums come before the top
class, and the top class comes last; it is left out until then, wherever it is met as a superclass.
-/

namespace TypeConversion

namespace Registry

/-- The array of an erasure, if it is to be taken as one. -/
def liftErasure (asArray : Bool) (e : Erasure) : Erasure := if asArray then e.array else e

/-- What an entry of a hierarchy climbs by: its component, or else its box. -/
def climbingEntry (r : Registry) (asArray : Bool) (e : Erasure) : Option Erasure :=
  if asArray then e.component? else some (r.boxed e)

/-- Entries that come next and all entries met so far, with one more at the front unless met. -/
def meetFirst (e : Erasure) (queue met : List Erasure) : List Erasure × List Erasure :=
  if met.contains e then (queue, met) else (e :: queue, e :: met)

/-- Entries that come next and all entries met so far, with one more at the end unless met. -/
def meetLast (e : Erasure) (queue met : List Erasure) : List Erasure × List Erasure :=
  if met.contains e then (queue, met) else (queue ++ [e], e :: met)

/-- The superclass of an entry, unless it is the top class or the class of enums. -/
def climbedSuperclass? (r : Registry) (e : Erasure) : Option Erasure :=
  (r.superclass? e).filter fun s => s ≠ r.object && s ≠ .ofClass r.wellKnown.enumClass

/--
Climbs from the entries of a queue.  A superclass goes to the front of the queue, so that it follows
its subclass; interfaces go to the end.  Every erasure is met once, which bounds the steps.
-/
def climbHierarchy (r : Registry) (asArray : Bool) :
    Nat → List Erasure → List Erasure → List Erasure
  | 0, queue, _ => queue
  | _ + 1, [], _ => []
  | steps + 1, e :: queue, met =>
    match r.climbingEntry asArray e with
    | none => e :: r.climbHierarchy asArray steps queue met
    | some c =>
      let (queue, met) := match r.climbedSuperclass? c with
        | some s => meetFirst (liftErasure asArray s) queue met
        | none => (queue, met)
      let (queue, met) := (r.interfaces c).foldl
        (fun (queue, met) i => meetLast (liftErasure asArray i) queue met) (queue, met)
      e :: r.climbHierarchy asArray steps queue met

/-- A list with one more element at its end, unless it has it already. -/
def appendNew (entries : List Erasure) (e : Erasure) : List Erasure :=
  if entries.contains e then entries else entries ++ [e]

/-- The erasures for which converters of a type are looked up, in order. -/
def classHierarchy (r : Registry) (e : Erasure) : List Erasure :=
  let asArray := e.isArray
  let start := r.boxed e
  let climbed := r.climbHierarchy asArray r.searchSteps [start] [start]
  let enumEntry : Erasure := .ofClass r.wellKnown.enumClass
  let withEnums := if r.isEnum e then appendNew climbed enumEntry else climbed
  appendNew (appendNew withEnums (liftErasure asArray r.object)) r.object

end Registry

end TypeConversion
