import TypeConversion.Proofs.TypeText.Tokens

/-!
# The grammar of type texts

The grammar that the reader of type texts follows, as rules on the tokens of a text.  The rules say
nothing of how a text is read: a name denotes the last variable in scope that has it, or else a
class; pairs of brackets follow a type one after the other; `extends` and `super` are words like all
others except right after a question mark.

**Results**

* `scopeVar?_eq_some_iff`: how a variable in scope is found by its name;
* `Derives.exists_name`: a type starts with a name.
-/

namespace TypeConversion

/-- A class with as many dimensions as an erasure can have. -/
def TypeExpr.isFull : TypeExpr → Bool
  | plain e => e.dims = 255
  | parameterized .. | genericArray _ | wildcard .. | typeVar _ => false

namespace Registry

variable (r : Registry) (scope : List TypeVarId)

/-- A type variable has a name. -/
def IsNamed (name : String) (v : TypeVarId) : Prop :=
  ∃ d, r.typeParam? v = some d ∧ d.name = name

/-- A name without dots denotes the last variable in scope that has it. -/
def DenotesVar (name : String) (v : TypeVarId) : Prop :=
  '.' ∉ name.toList ∧ ∃ before after, scope = before ++ v :: after ∧ r.IsNamed name v ∧
    ∀ w ∈ after, ¬r.IsNamed name w

/-- Any other name denotes the class that is found by it. -/
def DenotesClass (name : String) (c : ClassId) : Prop :=
  (∀ v, ¬r.DenotesVar scope name v) ∧ r.lookup? name = some c

/-- What tokens can spell: a type, a type argument, or the arguments between angle brackets. -/
inductive Phrase where
  | type (t : TypeExpr)
  | argument (t : TypeExpr)
  | arguments (ts : List TypeExpr)

/-- The rules of the grammar. -/
inductive Derives : Phrase → List Token → Prop
  | ofVariable {name : String} {v : TypeVarId} (hv : r.DenotesVar scope name v) :
      Derives (.type (.typeVar v)) [.name name]
  | ofClass {name : String} {c : ClassId} (hc : r.DenotesClass scope name c) :
      Derives (.type (.ofClass c)) [.name name]
  | applied {name : String} {c : ClassId} {args : List TypeExpr} {ts : List Token}
      (hc : r.DenotesClass scope name c) (hargs : Derives (.arguments args) ts)
      (hlength : args.length = (r.typeParameters c).length) :
      Derives (.type (.parameterized c args none)) (.name name :: .less :: (ts ++ [.greater]))
  | array {t : TypeExpr} {ts : List Token} (ht : Derives (.type t) ts) (hdims : t.isFull = false) :
      Derives (.type t.arrayOf) (ts ++ [.opening, .closing])
  | ofType {t : TypeExpr} {ts : List Token} (ht : Derives (.type t) ts) :
      Derives (.argument t) ts
  | unbounded : Derives (.argument .unbounded) [.question]
  | extending {t : TypeExpr} {ts : List Token} (ht : Derives (.type t) ts) :
      Derives (.argument (.extending t)) (.question :: .name "extends" :: ts)
  | superOf {t : TypeExpr} {ts : List Token} (ht : Derives (.type t) ts) :
      Derives (.argument (.superOf t)) (.question :: .name "super" :: ts)
  | single {t : TypeExpr} {ts : List Token} (ht : Derives (.argument t) ts) :
      Derives (.arguments [t]) ts
  | more {t : TypeExpr} {rest : List TypeExpr} {ts us : List Token}
      (ht : Derives (.argument t) ts) (hrest : Derives (.arguments rest) us) :
      Derives (.arguments (t :: rest)) (ts ++ .comma :: us)

/-- A text spells a type expression: as a whole it is a type or a wildcard. -/
def Spells (text : String) (t : TypeExpr) : Prop :=
  ∃ ts, Lexes text.toList ts ∧ r.Derives scope (.argument t) ts

variable {r scope}

/-! ## Variables in scope -/

theorem scopeVar?_eq_some_iff (name : String) (v : TypeVarId) :
    r.scopeVar? scope name = some v ↔ r.DenotesVar scope name v := by
  have hnamed : ∀ w, (r.typeParam? w).any (·.name = name) = true ↔ r.IsNamed name w := by
    simp [IsNamed, Option.any_eq_true]
  have hother : ∀ w, (!(r.typeParam? w).any (·.name = name)) = true ↔ ¬r.IsNamed name w := by
    intro w
    rw [← hnamed w, Bool.not_eq_true', Bool.not_eq_true]
  rw [scopeVar?, DenotesVar]
  by_cases hdot : '.' ∈ name.toList
  · simp [hdot]
  · simp only [List.contains_eq_mem, hdot, decide_false, Bool.false_eq_true, if_false,
      not_false_eq_true, true_and, List.find?_eq_some_iff_append, hnamed, hother]
    constructor
    · rintro ⟨hv, after, before, heq, hafter⟩
      refine ⟨before.reverse, after.reverse, ?_, hv, fun w hw => hafter w (List.mem_reverse.mp hw)⟩
      rw [← List.reverse_reverse scope, heq]
      simp
    · rintro ⟨before, after, rfl, hv, hafter⟩
      exact ⟨hv, after.reverse, before.reverse, by simp,
        fun w hw => hafter w (List.mem_reverse.mp hw)⟩

/-- A name is found to denote no variable, or one. -/
theorem scopeVar?_eq_none_iff (name : String) :
    r.scopeVar? scope name = none ↔ ∀ v, ¬r.DenotesVar scope name v := by
  rw [Option.eq_none_iff_forall_ne_some]
  simp only [ne_eq, scopeVar?_eq_some_iff]

/-! ## How phrases begin -/

/-- A type starts with a name. -/
theorem Derives.exists_name {t : TypeExpr} {ts : List Token} (h : r.Derives scope (.type t) ts) :
    ∃ name us, ts = .name name :: us := by
  generalize hp : Phrase.type t = p at h
  induction h generalizing t with
  | ofVariable _ | ofClass _ | applied _ _ _ _ => exact ⟨_, _, rfl⟩
  | array _ _ ih =>
    obtain ⟨name, us, rfl⟩ := ih rfl
    exact ⟨name, _, rfl⟩
  | ofType _ | unbounded | extending _ | superOf _ | single _ | more _ _ => simp at hp

end Registry

end TypeConversion
