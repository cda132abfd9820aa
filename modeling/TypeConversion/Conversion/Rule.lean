import TypeConversion.Conversion.Service

/-!
# Converters given as rules

A host program can describe a converter by data: what it does with a value, and when it applies.
-/

namespace TypeConversion

/-- What a rule does with a value.  Null is always converted to null. -/
inductive RuleAction where
  /-- Gives null. -/
  | nothing
  /-- Gives the value itself. -/
  | identity
  /-- Gives always the same value. -/
  | constant (result : Option Value)
  /-- Gives a string: a fixed text and then the text of the value. -/
  | prepend (text : String)
  /-- Refuses the value for a reason. -/
  | fail (reason : String)
  /-- Lets the service convert the value to another type. -/
  | delegate (target : TypeDescriptor)

/-- When a rule applies. -/
inductive RuleCondition where
  | always (holds : Bool)
  | sourceAnnotated (name : String)
  | targetAnnotated (name : String)
  | sourceIs (erasure : Erasure)
  | targetIs (erasure : Erasure)
  /-- The service can convert the source to another type. -/
  | canConvertSourceTo (target : TypeDescriptor)

namespace RuleCondition

/-- The condition as converters have it. -/
def toCondition (condition : RuleCondition) : ConverterCondition := fun ctx source target =>
  match condition with
  | always holds => some holds
  | sourceAnnotated name => some (source.isAnnotated name)
  | targetAnnotated name => some (target.isAnnotated name)
  | sourceIs e => some (source.erasure = e)
  | targetIs e => some (target.erasure = e)
  | canConvertSourceTo d => ctx.canConvert (some source) d

end RuleCondition

namespace RuleAction

/-- The action on a value of any type, with the text of the target at hand. -/
def apply (action : RuleAction) (target : String) (value : Value) :
    Except ConversionError (Option Value) :=
  match action with
  | nothing => .ok none
  | identity => .ok (some value)
  | constant result => .ok result
  | prepend text => .ok (some (.string (text ++ value.text)))
  | fail reason => .error (.invalidValue value.text target reason)
  | delegate _ => .ok none

/-- The action as a function on values that knows nothing of the target. -/
def toFunction (action : RuleAction) : Value → Except ConversionError (Option Value) :=
  action.apply "-"

/-- The action as a converter runs it. -/
def run (action : RuleAction) (ctx : ConversionContext) (value : Option Value)
    (target : TypeDescriptor) : Attempt (Option Value) :=
  match value, action with
  | none, _ => pure none
  | some value, delegate other => ctx.convert (some value) none other
  | some value, action => do
    Attempt.ofExcept (action.apply (← Attempt.ofWalk (target.display ctx.limit)) value)

end RuleAction

/-- The converter of a rule. -/
def Converter.ofRule (name : String) (pairs : Option (List ConvertiblePair))
    (condition : Option RuleCondition) (action : RuleAction) : Converter where
  name := name
  pairs := pairs
  condition := condition.map (·.toCondition)
  run ctx value _ target := action.run ctx value target

end TypeConversion
