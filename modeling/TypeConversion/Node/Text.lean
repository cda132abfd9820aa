import TypeConversion.Node.Navigate

/-!
# Nodes as text

The text of a node is the name of its class with its type arguments in angle brackets, and a pair of
brackets for every array dimension.  What stands for nothing definite is shown as a question mark,
and so is a variable that only its declared bound speaks for.

The inner text of a node shows the type expression it is made of as well.
-/

namespace TypeConversion

/-- Texts with a separator between them. -/
def joinTexts (separator : String) : List String → String
  | [] => ""
  | [text] => text
  | text :: rest => text ++ separator ++ joinTexts separator rest

namespace Erasure

/-- An erasure as inner texts show it: the number of its class and its dimensions. -/
def innerText (e : Erasure) : String :=
  "Erasure(" ++ natText e.element.index.toNat
    ++ String.join (List.replicate e.dims.toNat "[]") ++ ")"

end Erasure

namespace TypeExpr

mutual

/-- A type expression as inner texts show it. -/
def innerText : TypeExpr → String
  | plain e => "Class(" ++ e.innerText ++ ")"
  | parameterized raw args owner =>
    "Parameterized(ParameterizedType \x7b raw: " ++ raw.innerText ++ ", args: ["
      ++ innerTexts args ++ "], owner: " ++ innerTextOption owner ++ " \x7d)"
  | genericArray component => "GenericArray(" ++ innerText component ++ ")"
  | wildcard upper lower =>
    "Wildcard(WildcardType \x7b upper_bounds: [" ++ innerTexts upper ++ "], lower_bounds: ["
      ++ innerTexts lower ++ "] \x7d)"
  | typeVar v => "Variable(TypeVarId(" ++ natText v.index.toNat ++ "))"

def innerTexts : List TypeExpr → String
  | [] => ""
  | [t] => innerText t
  | t :: rest => innerText t ++ ", " ++ innerTexts rest

def innerTextOption : Option TypeExpr → String
  | none => "None"
  | some t => "Some(" ++ innerText t ++ ")"

end

end TypeExpr

namespace Node

variable (r : Registry)

/-- Whether a node is a variable that its context binds to nothing. -/
def isOpenVariable (limit : Nat) (n : Node) : Walk Bool :=
  match n.expr with
  | .typeVar v => do return (← resolveInContext r limit n.context v).isNone
  | _ => some false

mutual

/-- The text of a node. -/
def display : Nat → Option Node → Walk String
  | _, none => some "?"
  | 0, some _ => none
  | limit + 1, some n => do
    if ← isArray r limit n then
      let component ← display limit (← componentType r limit n)
      return component ++ "[]"
    else
      match ← resolve r limit n with
      | none => return "?"
      | some e =>
        if ← isOpenVariable r limit n then return "?"
        else
          match ← generics r limit n with
          | [] => return r.erasureName e
          | args =>
            let texts ← displayAll limit args
            return r.erasureName e ++ "<" ++ joinTexts ", " texts ++ ">"

/-- The texts of several nodes. -/
def displayAll : Nat → List (Option Node) → Walk (List String)
  | _, [] => some []
  | 0, _ :: _ => none
  | limit + 1, n :: rest => do
    let text ← display limit n
    let texts ← displayAll limit rest
    return text :: texts

end

/-- The inner text of a node. -/
def innerText (limit : Nat) : Option Node → Walk String
  | none => some "TypeNode::NONE"
  | some n => do
    let text ← display r limit (some n)
    return "TypeNode \x7b expr: " ++ n.expr.innerText ++ ", display: " ++ text ++ " \x7d"

end Node

end TypeConversion
