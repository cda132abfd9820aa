import TypeConversion.Conversion.Converter
import TypeConversion.Conversion.Hierarchy

/-!
# The converters of a service

Converters are kept by the exact pairs they were registered for, in the order of registration, and
apart from those the converters without pairs.  A search goes through the hierarchies of source and
target, the source first, and takes the first converter whose condition holds; converters without
pairs come last.
-/

namespace TypeConversion

/-- The registered converters. -/
structure Converters where
  /-- Every pair once, with its converters in the order of registration. -/
  byPair : List (ConvertiblePair × List Converter)
  /-- The converters without pairs. -/
  global : List Converter

namespace Converters

def empty : Converters := ⟨[], []⟩

/-- The converters registered for exactly a pair. -/
def atPair (cs : Converters) (pair : ConvertiblePair) : List Converter :=
  (cs.byPair.lookup pair).getD []

/-- A table with one more converter for a pair. -/
def appendAt (pair : ConvertiblePair) (c : Converter) :
    List (ConvertiblePair × List Converter) → List (ConvertiblePair × List Converter)
  | [] => [(pair, [c])]
  | (key, entries) :: rest =>
    if key = pair then (key, entries ++ [c]) :: rest
    else (key, entries) :: appendAt pair c rest

/-- Registers a converter for its pairs.  One without pairs needs a condition. -/
def add (cs : Converters) (c : Converter) : Except RegistrationError Converters :=
  match c.pairs with
  | none =>
    if c.condition.isNone then .error (.notConditional c.name)
    else .ok { cs with global := cs.global ++ [c] }
  | some pairs =>
    .ok { cs with byPair := pairs.foldl (fun table pair => appendAt pair c table) cs.byPair }

/-- Removes all converters of exactly a pair, and tells whether there were any. -/
def remove (cs : Converters) (pair : ConvertiblePair) : Converters × Bool :=
  ({ cs with byPair := cs.byPair.filter (·.1 ≠ pair) }, (cs.byPair.lookup pair).isSome)

/-- The number of pairs that have converters. -/
def pairCount (cs : Converters) : Nat := cs.byPair.length

/-- The number of converters without pairs. -/
def globalCount (cs : Converters) : Nat := cs.global.length

/-- The converters to try for a source and a target, the most specific pairs first. -/
def candidates (cs : Converters) (r : Registry) (source target : Erasure) : List Converter :=
  let targets := r.classHierarchy target
  (r.classHierarchy source).flatMap fun s => targets.flatMap fun t => cs.atPair ⟨s, t⟩

/-- The first converter of a list that takes the types. -/
def firstAccepting (ctx : ConversionContext) (source target : TypeDescriptor) :
    List Converter → Walk (Option Converter)
  | [] => some none
  | c :: rest => do
    if ← c.accepts ctx source target then return some c
    else firstAccepting ctx source target rest

/-- The best converter for a source and a target. -/
def find (cs : Converters) (ctx : ConversionContext) (source target : TypeDescriptor) :
    Walk (Option Converter) :=
  firstAccepting ctx source target
    (cs.candidates ctx.registry source.erasure target.erasure ++ cs.global)

/-- The number of pairs and of converters without pairs, as inner texts show them. -/
def innerText (cs : Converters) : String :=
  "Converters \x7b pairs: " ++ natText cs.pairCount ++ ", global: " ++ natText cs.globalCount
    ++ " \x7d"

end Converters

end TypeConversion
