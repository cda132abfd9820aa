import TypeConversion.Proofs.TypeText.Grammar

/-!
# The reader of type texts reads its grammar

What the reader makes of a text is spelt by the text, and every type expression that is spelt by a
text is what the reader makes of it.

**Results**

* `sound_of_steps`: what is read under any limit is derived from tokens at the front of the text;
* `Derives.isRead`: what is derived from tokens is read from every text that starts with them, if
  what follows can follow;
* `Spells.unique`: the grammar is unambiguous;
* `parseTypeIn_eq_ok_iff`: a text is read as exactly the type expressions that it spells.
-/

namespace TypeConversion

theorem exists_of_bind_eq_ok {ε α β : Type} {x : Except ε α} {f : α → Except ε β} {b : β}
    (h : x >>= f = .ok b) : ∃ a, x = .ok a ∧ f a = .ok b := by
  cases x with
  | error e => exact absurd h (by simp [bind, Except.bind])
  | ok a => exact ⟨a, rfl, h⟩

/-! ## What is read of a text -/

/-- The front of a text consists of some tokens, whatever tokens the rest consists of. -/
def Takes (cs : List Char) (us : List Token) (rest : List Char) : Prop :=
  ∀ ts, Lexes rest ts → Lexes cs (us ++ ts)

section

variable {cs rest : List Char} {us vs : List Token}

theorem Takes.refl (cs : List Char) : Takes cs [] cs := fun _ h => h

theorem Takes.append {mid : List Char} (h : Takes cs us mid) (h' : Takes mid vs rest) :
    Takes cs (us ++ vs) rest := by
  intro ts hts
  rw [List.append_assoc]
  exact h _ (h' ts hts)

theorem Takes.of_skipBlanks (h : Takes (skipBlanks cs) us rest) : Takes cs us rest :=
  fun ts hts => lexes_of_skipBlanks (h ts hts)

theorem Takes.to_skipBlanks (h : Takes cs us rest) : Takes cs us (skipBlanks rest) :=
  fun ts hts => h ts (lexes_of_skipBlanks hts)

/-- A text that goes on with a mark after its blanks. -/
theorem Takes.mark {t : Token} {c : Char} (ht : t.char? = some c)
    (hcs : skipBlanks cs = c :: rest) : Takes cs [t] rest := by
  refine Takes.of_skipBlanks fun ts hts => ?_
  rw [hcs]
  exact .mark ht hts

theorem Takes.name {name : String} (h : IsName (skipBlanks cs) name rest) :
    Takes cs [.name name] rest :=
  Takes.of_skipBlanks fun _ hts => .name h hts

end

namespace Registry

variable {r : Registry} {scope : List TypeVarId}

/-! ## Dimensions -/

theorem readDims_blank (opened : Bool) (t : TypeExpr) {c : Char} (hc : isBlank c = true)
    (cs : List Char) : readDims opened t (c :: cs) = readDims opened t cs := by
  cases t <;> simp [readDims, hc]

theorem readDims_closing {t : TypeExpr} (ht : t.isFull = false) (cs : List Char) :
    readDims true t (']' :: cs) = readDims false t.arrayOf cs := by
  have hblank : isBlank ']' = false := by decide
  cases t with
  | plain e =>
    have he : e.dims ≠ 255 := by simpa [TypeExpr.isFull] using ht
    simp [readDims, hblank, he]
  | parameterized _ _ _ | genericArray _ | wildcard _ _ | typeVar _ => simp [readDims, hblank]

theorem readDims_closing_of_full {t : TypeExpr} (ht : t.isFull = true) (cs : List Char) :
    readDims true t (']' :: cs) = .error .tooManyDimensions := by
  have hblank : isBlank ']' = false := by decide
  cases t with
  | plain e =>
    have he : e.dims = 255 := by simpa [TypeExpr.isFull] using ht
    simp [readDims, hblank, he]
  | parameterized _ _ _ | genericArray _ | wildcard _ _ | typeVar _ => simp [TypeExpr.isFull] at ht

theorem readDims_skipBlanks (opened : Bool) (t : TypeExpr) (cs : List Char) :
    readDims opened t (skipBlanks cs) = readDims opened t cs := by
  induction cs with
  | nil => rfl
  | cons c cs ih =>
    cases hc : isBlank c with
    | true => rw [skipBlanks, if_pos hc, ih, readDims_blank opened t hc]
    | false => rw [skipBlanks_of_not_blank hc]

/-- The bracket that is still to be closed. -/
def pending (opened : Bool) : List Token := if opened then [.opening] else []

/-- Pairs of brackets after a type make arrays of it. -/
theorem derives_of_readDims {opened : Bool} {t u : TypeExpr} {cs rest : List Char}
    {us : List Token} (ht : r.Derives scope (.type t) us)
    (h : readDims opened t cs = .ok (u, rest)) :
    ∃ vs, r.Derives scope (.type u) (us ++ (pending opened ++ vs)) ∧ Takes cs vs rest := by
  induction cs generalizing opened t us with
  | nil =>
    cases opened with
    | true => simp [readDims] at h
    | false =>
      obtain ⟨rfl, rfl⟩ := Prod.mk.inj (Except.ok.inj h)
      exact ⟨[], by simpa [pending] using ht, .refl _⟩
  | cons c cs ih =>
    cases hc : isBlank c with
    | true =>
      rw [readDims_blank opened t hc] at h
      obtain ⟨vs, hu, htakes⟩ := ih ht h
      exact ⟨vs, hu, fun ts hts => .blank hc (htakes ts hts)⟩
    | false =>
      cases opened with
      | true =>
        by_cases hclosing : c = ']'
        · subst hclosing
          cases hfull : t.isFull with
          | true => simp [readDims_closing_of_full hfull] at h
          | false =>
            rw [readDims_closing hfull] at h
            obtain ⟨vs, hu, htakes⟩ := ih (.array ht hfull) h
            refine ⟨.closing :: vs, by simpa [pending] using hu, fun ts hts => ?_⟩
            exact .mark rfl (htakes ts hts)
        · simp [readDims, hc, hclosing] at h
      | false =>
        by_cases hopening : c = '['
        · subst hopening
          have h : readDims true t cs = .ok (u, rest) := by simpa [readDims, hc] using h
          obtain ⟨vs, hu, htakes⟩ := ih ht h
          refine ⟨.opening :: vs, by simpa [pending] using hu, fun ts hts => ?_⟩
          exact .mark rfl (htakes ts hts)
        · obtain ⟨rfl, rfl⟩ : t = u ∧ c :: cs = rest := by simpa [readDims, hc, hopening] using h
          exact ⟨[], by simpa [pending] using ht, .refl _⟩

theorem applyClass_eq_ok_iff (c : ClassId) (name : String) (args : List TypeExpr) (t : TypeExpr) :
    r.applyClass c name args = .ok t ↔
      args.length = (r.typeParameters c).length ∧ .parameterized c args none = t := by
  by_cases h : args.length = (r.typeParameters c).length <;> simp [applyClass, h]

/-! ## What is read is derived -/

variable (r scope)

/-- What the parts of the reader read within some steps is derived from what they take. -/
structure ReadsSoundly (steps : Nat) : Prop where
  type : ∀ cs t rest, r.readTypeWithin scope steps cs = .ok (t, rest) →
    ∃ us, r.Derives scope (.type t) us ∧ Takes cs us rest
  arguments : ∀ cs args rest, r.readArgsWithin scope steps cs = .ok (args, rest) →
    ∃ us, r.Derives scope (.arguments args) us ∧ Takes cs (us ++ [.greater]) rest
  argument : ∀ cs t rest, r.readArgWithin scope steps cs = .ok (t, rest) →
    ∃ us, r.Derives scope (.argument t) us ∧ Takes cs us rest
  bound : ∀ cs t rest, r.readBoundWithin scope steps cs = .ok (t, rest) →
    ∃ us, r.Derives scope (.argument t) (.question :: us) ∧ Takes cs us rest

variable {r scope}

theorem type_of_readTypeWithin {steps : Nat} (h : ReadsSoundly r scope steps) {cs rest : List Char}
    {t : TypeExpr} (ht : r.readTypeWithin scope (steps + 1) cs = .ok (t, rest)) :
    ∃ us, r.Derives scope (.type t) us ∧ Takes cs us rest := by
  rw [readTypeWithin] at ht
  cases hname : readName (skipBlanks cs) with
  | none => simp [hname] at ht
  | some found =>
    obtain ⟨name, after⟩ := found
    have htakes : Takes cs [.name name] after := .name ((readName_eq_some_iff ..).mp hname)
    simp only [hname] at ht
    cases hvar : r.scopeVar? scope name with
    | some v =>
      simp only [hvar] at ht
      obtain ⟨vs, hderives, hdims⟩ :=
        derives_of_readDims (.ofVariable ((scopeVar?_eq_some_iff ..).mp hvar)) ht
      exact ⟨_, hderives, htakes.append hdims⟩
    | none =>
      simp only [hvar] at ht
      cases hclass : r.lookup? name with
      | none => simp [hclass] at ht
      | some c =>
        have hdenotes : r.DenotesClass scope name c := ⟨(scopeVar?_eq_none_iff ..).mp hvar, hclass⟩
        simp only [hclass] at ht
        split at ht
        · rename_i inner hless
          obtain ⟨⟨args, inside⟩, hargs, ht⟩ := exists_of_bind_eq_ok ht
          obtain ⟨u, happly, ht⟩ := exists_of_bind_eq_ok ht
          obtain ⟨hlength, rfl⟩ := (applyClass_eq_ok_iff ..).mp happly
          obtain ⟨us, hus, htakesArgs⟩ := h.arguments _ _ _ hargs
          obtain ⟨vs, hderives, hdims⟩ := derives_of_readDims (.applied hdenotes hus hlength) ht
          have hless : Takes after [.less] inner := .mark rfl hless
          refine ⟨_, hderives, ?_⟩
          simpa [pending] using htakes.append (hless.append (htakesArgs.append hdims))
        · rename_i hless
          obtain ⟨vs, hderives, hdims⟩ := derives_of_readDims (.ofClass hdenotes) ht
          exact ⟨_, hderives, htakes.append (.of_skipBlanks hdims)⟩

theorem arguments_of_readArgsWithin {steps : Nat} (h : ReadsSoundly r scope steps)
    {cs rest : List Char} {args : List TypeExpr}
    (hargs : r.readArgsWithin scope (steps + 1) cs = .ok (args, rest)) :
    ∃ us, r.Derives scope (.arguments args) us ∧ Takes cs (us ++ [.greater]) rest := by
  rw [readArgsWithin] at hargs
  obtain ⟨⟨arg, after⟩, harg, hargs⟩ := exists_of_bind_eq_ok hargs
  obtain ⟨us, hus, htakes⟩ := h.argument _ _ _ harg
  dsimp only at hargs
  split at hargs
  · rename_i inner hcomma
    obtain ⟨⟨args, inside⟩, hrest, hargs⟩ := exists_of_bind_eq_ok hargs
    obtain ⟨rfl, rfl⟩ := Prod.mk.inj (Except.ok.inj hargs)
    obtain ⟨vs, hvs, htakesRest⟩ := h.arguments _ _ _ hrest
    have hcomma : Takes after [.comma] inner := .mark rfl hcomma
    refine ⟨_, .more hus hvs, ?_⟩
    simpa using htakes.append (hcomma.append htakesRest)
  · rename_i inner hgreater
    obtain ⟨rfl, rfl⟩ := Prod.mk.inj (Except.ok.inj hargs)
    exact ⟨us, .single hus, htakes.append (.mark rfl hgreater)⟩
  · simp at hargs

theorem argument_of_readArgWithin {steps : Nat} (h : ReadsSoundly r scope steps)
    {cs rest : List Char} {t : TypeExpr}
    (ht : r.readArgWithin scope (steps + 1) cs = .ok (t, rest)) :
    ∃ us, r.Derives scope (.argument t) us ∧ Takes cs us rest := by
  rw [readArgWithin] at ht
  split at ht
  · rename_i inner hquestion
    obtain ⟨us, hus, htakes⟩ := h.bound _ _ _ ht
    have hquestion : Takes cs [.question] inner := .mark rfl hquestion
    exact ⟨_, hus, hquestion.append htakes⟩
  · obtain ⟨us, hus, htakes⟩ := h.type _ _ _ ht
    exact ⟨us, .ofType hus, .of_skipBlanks htakes⟩

/-- The end of a wildcard, after which there is no bracket. -/
def endWildcard (wildcard : TypeExpr) (cs : List Char) :
    Except TypeTextFault (TypeExpr × List Char) :=
  match skipBlanks cs with
  | '[' :: _ => .error .misplacedWildcard
  | rest => .ok (wildcard, rest)

theorem readBoundWithin_succ (steps : Nat) (cs : List Char) :
    r.readBoundWithin scope (steps + 1) cs =
      match readKeyword "extends".toList (skipBlanks cs) with
      | some inner => r.readTypeWithin scope steps inner >>= fun (b, after) =>
        endWildcard (.extending b) after
      | none =>
        match readKeyword "super".toList (skipBlanks cs) with
        | some inner => r.readTypeWithin scope steps inner >>= fun (b, after) =>
          endWildcard (.superOf b) after
        | none => endWildcard .unbounded cs := by
  rw [readBoundWithin]
  rfl

theorem endWildcard_eq_ok {wildcard t : TypeExpr} {cs rest : List Char}
    (h : endWildcard wildcard cs = .ok (t, rest)) : wildcard = t ∧ skipBlanks cs = rest := by
  rw [endWildcard] at h
  split at h
  · simp at h
  · exact Prod.mk.inj (Except.ok.inj h)

/-- A keyword is the name it looks like if another name follows. -/
theorem takes_of_readKeyword {c : Char} {word cs after rest : List Char} {us : List Token}
    (hstarts : startsName c = true) (hword : word.all continuesName = true)
    (h : readKeyword (c :: word) (skipBlanks cs) = some after)
    (htakes : Takes after us rest) (hname : ∃ name vs, us = .name name :: vs) :
    Takes cs (.name (String.ofList (c :: word)) :: us) rest := by
  obtain ⟨hcs, hboundary⟩ := (readKeyword_eq_some_iff ..).mp h
  obtain ⟨name, vs, rfl⟩ := hname
  refine Takes.of_skipBlanks fun ts hts => ?_
  have hrest := htakes ts hts
  have hmax := hrest.not_continuesName_of_boundary hboundary
  rw [hcs]
  exact .name ⟨c, word, rfl, rfl, hstarts, List.all_eq_true.mp hword, hmax⟩ hrest

/-- The bound of a wildcard that has been read is derived. -/
theorem exists_derives_bound {steps : Nat} (h : ReadsSoundly r scope steps)
    {wildcard : TypeExpr → TypeExpr} {cs rest : List Char} {t : TypeExpr}
    (ht : (r.readTypeWithin scope steps cs >>= fun (b, after) =>
      endWildcard (wildcard b) after) = .ok (t, rest)) :
    ∃ b us, t = wildcard b ∧ r.Derives scope (.type b) us ∧ Takes cs us rest := by
  obtain ⟨⟨b, after⟩, hb, ht⟩ := exists_of_bind_eq_ok ht
  obtain ⟨rfl, rfl⟩ := endWildcard_eq_ok ht
  obtain ⟨us, hus, htakes⟩ := h.type _ _ _ hb
  exact ⟨b, us, rfl, hus, htakes.to_skipBlanks⟩

theorem bound_of_readBoundWithin {steps : Nat} (h : ReadsSoundly r scope steps)
    {cs rest : List Char} {t : TypeExpr}
    (ht : r.readBoundWithin scope (steps + 1) cs = .ok (t, rest)) :
    ∃ us, r.Derives scope (.argument t) (.question :: us) ∧ Takes cs us rest := by
  rw [readBoundWithin_succ] at ht
  cases hextends : readKeyword "extends".toList (skipBlanks cs) with
  | some inner =>
    simp only [hextends] at ht
    obtain ⟨b, us, rfl, hus, htakes⟩ := exists_derives_bound h ht
    exact ⟨_, .extending hus,
      takes_of_readKeyword (by decide) (by decide) hextends htakes hus.exists_name⟩
  | none =>
    simp only [hextends] at ht
    cases hsuper : readKeyword "super".toList (skipBlanks cs) with
    | some inner =>
      simp only [hsuper] at ht
      obtain ⟨b, us, rfl, hus, htakes⟩ := exists_derives_bound h ht
      exact ⟨_, .superOf hus,
        takes_of_readKeyword (by decide) (by decide) hsuper htakes hus.exists_name⟩
    | none =>
      simp only [hsuper] at ht
      obtain ⟨rfl, rfl⟩ := endWildcard_eq_ok ht
      exact ⟨[], .unbounded, (Takes.refl cs).to_skipBlanks⟩

/-- What is read is derived from what it takes of the text.  The induction is on the steps. -/
theorem sound_of_steps (steps : Nat) : ReadsSoundly r scope steps := by
  induction steps with
  | zero =>
    exact {
      type := fun cs t rest h => by simp [readTypeWithin] at h
      arguments := fun cs args rest h => by simp [readArgsWithin] at h
      argument := fun cs t rest h => by simp [readArgWithin] at h
      bound := fun cs t rest h => by simp [readBoundWithin] at h }
  | succ steps ih =>
    exact {
      type := fun _ _ _ => type_of_readTypeWithin ih
      arguments := fun _ _ _ => arguments_of_readArgsWithin ih
      argument := fun _ _ _ => argument_of_readArgWithin ih
      bound := fun _ _ _ => bound_of_readBoundWithin ih }

/-! ## What is derived is read -/

/-- What may follow a type argument: nothing, or what ends the argument. -/
def EndsArgument (ts : List Token) : Prop := ts.head? ∈ [none, some .comma, some .greater]

theorem EndsArgument.not_less {ts : List Token} (h : EndsArgument ts) :
    ts.head? ≠ some .less := by
  intro hless
  simp [EndsArgument, hless] at h

theorem EndsArgument.not_opening {ts : List Token} (h : EndsArgument ts) :
    ts.head? ≠ some .opening := by
  intro hopening
  simp [EndsArgument, hopening] at h

variable (r scope)

/--
How a phrase is read from all texts that start with its tokens, within enough steps.  Two steps for
each token are enough: one level of arguments takes three of them and has two tokens at least.
-/
def IsRead : Phrase → List Token → Prop
  | .type t, us => ∀ steps cs ts, 2 * us.length ≤ steps → Lexes cs (us ++ ts) →
      ts.head? ≠ some .less →
      ∃ rest, Lexes rest ts ∧ r.readTypeWithin scope steps cs = readDims false t rest
  | .argument t, us => ∀ steps cs ts, 2 * us.length + 1 ≤ steps → Lexes cs (us ++ ts) →
      EndsArgument ts → ∃ rest, Lexes rest ts ∧ r.readArgWithin scope steps cs = .ok (t, rest)
  | .arguments args, us => ∀ steps cs ts, 2 * us.length + 2 ≤ steps →
      Lexes cs (us ++ .greater :: ts) →
      ∃ rest, Lexes rest ts ∧ r.readArgsWithin scope steps cs = .ok (args, rest)

variable {r scope}

/-- Without a bracket a type is as it has been read. -/
theorem readDims_of_lexes {t : TypeExpr} {cs : List Char} {ts : List Token} (h : Lexes cs ts)
    (hts : ts.head? ≠ some .opening) :
    ∃ rest, Lexes rest ts ∧ readDims false t cs = .ok (t, rest) := by
  refine ⟨skipBlanks cs, h.skipBlanks, ?_⟩
  rw [← readDims_skipBlanks]
  cases hcs : skipBlanks cs with
  | nil => cases t <;> rfl
  | cons c rest =>
    have hopening : c ≠ '[' := by
      rintro rfl
      exact hts (h.head?_of_skipBlanks (t := .opening) rfl hcs)
    simp [readDims, isBlank_of_skipBlanks hcs, hopening]

/-- A pair of brackets makes an array of what has been read. -/
theorem readDims_of_brackets {t : TypeExpr} (ht : t.isFull = false) {cs : List Char}
    {ts : List Token} (h : Lexes cs (.opening :: .closing :: ts)) :
    ∃ rest, Lexes rest ts ∧ readDims false t cs = readDims false t.arrayOf rest := by
  obtain ⟨inner, hcs, hinner⟩ := h.exists_mark rfl
  obtain ⟨rest, hclosing, hrest⟩ := hinner.exists_mark rfl
  refine ⟨rest, hrest, ?_⟩
  have hopening : isBlank '[' = false := by decide
  calc readDims false t cs
      _ = readDims false t ('[' :: inner) := by rw [← readDims_skipBlanks, hcs]
      _ = readDims true t inner := by simp [readDims, hopening]
      _ = readDims true t (']' :: rest) := by rw [← readDims_skipBlanks, hclosing]
      _ = readDims false t.arrayOf rest := readDims_closing ht rest

theorem isRead_ofVariable {name : String} {v : TypeVarId} (hv : r.DenotesVar scope name v) :
    IsRead r scope (.type (.typeVar v)) [.name name] := by
  intro steps cs ts hsteps hlex _
  obtain ⟨rest, hname, hrest⟩ := hlex.exists_name
  refine ⟨rest, hrest, ?_⟩
  cases steps with
  | zero => simp at hsteps
  | succ steps =>
    simp [readTypeWithin, (readName_eq_some_iff ..).mpr hname, (scopeVar?_eq_some_iff ..).mpr hv]

theorem isRead_ofClass {name : String} {c : ClassId} (hc : r.DenotesClass scope name c) :
    IsRead r scope (.type (.ofClass c)) [.name name] := by
  intro steps cs ts hsteps hlex hless
  obtain ⟨rest, hname, hrest⟩ := hlex.exists_name
  refine ⟨skipBlanks rest, hrest.skipBlanks, ?_⟩
  cases steps with
  | zero => simp at hsteps
  | succ steps =>
    simp only [readTypeWithin, (readName_eq_some_iff ..).mpr hname,
      (scopeVar?_eq_none_iff ..).mpr hc.1, hc.2]
    -- A class is read without arguments only where no angle bracket follows.
    split
    · rename_i inner hcs
      exact (hless (hrest.head?_of_skipBlanks (t := .less) rfl hcs)).elim
    · rfl

theorem isRead_applied {name : String} {c : ClassId} {args : List TypeExpr} {us : List Token}
    (hc : r.DenotesClass scope name c) (hargs : IsRead r scope (.arguments args) us)
    (hlength : args.length = (r.typeParameters c).length) :
    IsRead r scope (.type (.parameterized c args none))
      (.name name :: .less :: (us ++ [.greater])) := by
  intro steps cs ts hsteps hlex _
  obtain ⟨after, hname, hafter⟩ := hlex.exists_name
  obtain ⟨inner, hless, hinner⟩ := Lexes.exists_mark (t := .less) hafter rfl
  cases steps with
  | zero => simp at hsteps
  | succ steps =>
    simp only [List.length_cons, List.length_append, List.length_nil] at hsteps
    obtain ⟨rest, hrest, hread⟩ := hargs steps inner ts (by omega) (by simpa using hinner)
    refine ⟨rest, hrest, ?_⟩
    have happly : r.applyClass c name args = .ok (.parameterized c args none) :=
      (applyClass_eq_ok_iff ..).mpr ⟨hlength, rfl⟩
    simp only [readTypeWithin, (readName_eq_some_iff ..).mpr hname,
      (scopeVar?_eq_none_iff ..).mpr hc.1, hc.2, hless, hread, bind, Except.bind, happly]

theorem isRead_array {t : TypeExpr} {us : List Token} (ht : IsRead r scope (.type t) us)
    (hdims : t.isFull = false) : IsRead r scope (.type t.arrayOf) (us ++ [.opening, .closing]) := by
  intro steps cs ts hsteps hlex _
  simp only [List.length_append, List.length_cons, List.length_nil] at hsteps
  obtain ⟨after, hafter, hread⟩ := ht steps cs (.opening :: .closing :: ts) (by omega)
    (by simpa using hlex) (by simp)
  obtain ⟨rest, hrest, hdims⟩ := readDims_of_brackets hdims hafter
  exact ⟨rest, hrest, hread.trans hdims⟩

theorem isRead_ofType {t : TypeExpr} {us : List Token} (ht : IsRead r scope (.type t) us)
    (hname : ∃ name vs, us = .name name :: vs) : IsRead r scope (.argument t) us := by
  intro steps cs ts hsteps hlex hends
  cases steps with
  | zero => simp at hsteps
  | succ steps =>
    obtain ⟨after, hafter, hread⟩ := ht steps (skipBlanks cs) ts (by omega) hlex.skipBlanks
      hends.not_less
    obtain ⟨rest, hrest, hdims⟩ := readDims_of_lexes hafter hends.not_opening
    refine ⟨rest, hrest, ?_⟩
    rw [readArgWithin]
    split
    · -- A type starts with a name, so that there is no question mark.
      rename_i inner hcs
      obtain ⟨name, vs, rfl⟩ := hname
      simpa using hlex.head?_of_skipBlanks (t := .question) rfl hcs
    · rw [hread, hdims]

/-! ### Wildcards -/

/-- A keyword is split off as the name that it is. -/
theorem exists_readKeyword {word cs : List Char} {ts : List Token}
    (h : Lexes cs (.name (String.ofList word) :: ts)) :
    ∃ rest, readKeyword word (skipBlanks cs) = some rest ∧ Lexes rest ts := by
  obtain ⟨rest, ⟨c, tail, hcs, hword, -, -, hmax⟩, hrest⟩ := h.exists_name
  obtain rfl : word = c :: tail := String.ofList_injective hword
  refine ⟨rest, (readKeyword_eq_some_iff ..).mpr ⟨hcs, fun d hd => ?_⟩, hrest⟩
  have hnot := hmax d hd
  rw [continuesName, Bool.or_eq_false_iff] at hnot
  exact hnot.1

/-- Where no name follows there is no keyword. -/
theorem readKeyword_eq_none {c : Char} {word cs : List Char} {ts : List Token} (h : Lexes cs ts)
    (hts : EndsArgument ts) (hc : startsName c = true) :
    readKeyword (c :: word) (skipBlanks cs) = none := by
  rw [Option.eq_none_iff_forall_ne_some]
  intro rest hread
  obtain ⟨hcs, -⟩ := (readKeyword_eq_some_iff ..).mp hread
  rcases h.front with ⟨hnil, -⟩ | ⟨_, _, _, _, hmark, heq, -, -⟩ | ⟨_, _, _, -, rfl, -⟩
  · simp [hnil] at hcs
  · obtain ⟨rfl, -⟩ := List.cons.inj (heq.symm.trans hcs)
    simp [startsName_of_char? hmark] at hc
  · simp [EndsArgument] at hts

theorem endWildcard_of_ends {cs : List Char} {ts : List Token} (h : Lexes cs ts)
    (hts : EndsArgument ts) (wildcard : TypeExpr) :
    endWildcard wildcard cs = .ok (wildcard, skipBlanks cs) := by
  rw [endWildcard]
  split
  · rename_i rest hcs
    exact (hts.not_opening (h.head?_of_skipBlanks (t := .opening) rfl hcs)).elim
  · rfl

/-- After a question mark the bound of a wildcard is read. -/
theorem readArgWithin_of_question {steps : Nat} {cs : List Char} {ts : List Token}
    (h : Lexes cs (.question :: ts)) :
    ∃ inner, Lexes inner ts ∧
      r.readArgWithin scope (steps + 1) cs = r.readBoundWithin scope steps inner := by
  obtain ⟨inner, hcs, hinner⟩ := h.exists_mark rfl
  exact ⟨inner, hinner, by simp [readArgWithin, hcs]⟩

theorem isRead_unbounded : IsRead r scope (.argument .unbounded) [.question] := by
  intro steps cs ts hsteps hlex hends
  obtain ⟨steps, rfl⟩ : ∃ k, steps = k + 2 := ⟨steps - 2, by simp at hsteps; omega⟩
  obtain ⟨inner, hinner, hread⟩ := readArgWithin_of_question (r := r) hlex
  have hextends : readKeyword "extends".toList (skipBlanks inner) = none :=
    readKeyword_eq_none hinner hends (by decide)
  have hsuper : readKeyword "super".toList (skipBlanks inner) = none :=
    readKeyword_eq_none hinner hends (by decide)
  refine ⟨skipBlanks inner, hinner.skipBlanks, ?_⟩
  rw [hread, readBoundWithin_succ, hextends, hsuper]
  exact endWildcard_of_ends hinner hends _

theorem exists_readBound {t : TypeExpr} {us : List Token} (ht : IsRead r scope (.type t) us)
    {steps : Nat} (hsteps : 2 * us.length ≤ steps) {cs : List Char} {ts : List Token}
    (h : Lexes cs (us ++ ts)) (hends : EndsArgument ts) (wildcard : TypeExpr → TypeExpr) :
    ∃ rest, Lexes rest ts ∧ (r.readTypeWithin scope steps cs >>= fun (b, after) =>
      endWildcard (wildcard b) after) = .ok (wildcard t, rest) := by
  obtain ⟨after, hafter, hread⟩ := ht steps cs ts hsteps h hends.not_less
  obtain ⟨rest, hrest, hdims⟩ := readDims_of_lexes hafter hends.not_opening
  refine ⟨skipBlanks rest, hrest.skipBlanks, ?_⟩
  rw [hread, hdims]
  exact endWildcard_of_ends hrest hends _

theorem isRead_extending {t : TypeExpr} {us : List Token} (ht : IsRead r scope (.type t) us) :
    IsRead r scope (.argument (.extending t)) (.question :: .name "extends" :: us) := by
  intro steps cs ts hsteps hlex hends
  simp only [List.length_cons] at hsteps
  obtain ⟨steps, rfl⟩ : ∃ k, steps = k + 2 := ⟨steps - 2, by omega⟩
  obtain ⟨inner, hinner, hread⟩ := readArgWithin_of_question (r := r) hlex
  have hinner : Lexes inner (.name (String.ofList "extends".toList) :: (us ++ ts)) := by
    simpa using hinner
  obtain ⟨bound, hextends, hbound⟩ := exists_readKeyword hinner
  obtain ⟨rest, hrest, hreadBound⟩ :=
    exists_readBound ht (by omega : 2 * us.length ≤ steps) hbound hends .extending
  refine ⟨rest, hrest, ?_⟩
  rw [hread, readBoundWithin_succ, hextends]
  exact hreadBound

theorem isRead_superOf {t : TypeExpr} {us : List Token} (ht : IsRead r scope (.type t) us) :
    IsRead r scope (.argument (.superOf t)) (.question :: .name "super" :: us) := by
  intro steps cs ts hsteps hlex hends
  simp only [List.length_cons] at hsteps
  obtain ⟨steps, rfl⟩ : ∃ k, steps = k + 2 := ⟨steps - 2, by omega⟩
  obtain ⟨inner, hinner, hread⟩ := readArgWithin_of_question (r := r) hlex
  have hinner : Lexes inner (.name (String.ofList "super".toList) :: (us ++ ts)) := by
    simpa using hinner
  obtain ⟨bound, hsuper, hbound⟩ := exists_readKeyword hinner
  have hextends : readKeyword "extends".toList (skipBlanks inner) = none := by
    rw [((readKeyword_eq_some_iff ..).mp hsuper).1]
    rfl
  obtain ⟨rest, hrest, hreadBound⟩ :=
    exists_readBound ht (by omega : 2 * us.length ≤ steps) hbound hends .superOf
  refine ⟨rest, hrest, ?_⟩
  rw [hread, readBoundWithin_succ, hextends, hsuper]
  exact hreadBound

/-! ### Type arguments -/

theorem isRead_single {t : TypeExpr} {us : List Token} (ht : IsRead r scope (.argument t) us) :
    IsRead r scope (.arguments [t]) us := by
  intro steps cs ts hsteps hlex
  cases steps with
  | zero => simp at hsteps
  | succ steps =>
    obtain ⟨after, hafter, hread⟩ := ht steps cs (.greater :: ts) (by omega) hlex
      (by simp [EndsArgument])
    obtain ⟨rest, hgreater, hrest⟩ := hafter.exists_mark rfl
    refine ⟨rest, hrest, ?_⟩
    rw [readArgsWithin, hread]
    simp only [bind, Except.bind, hgreater]
    rfl

theorem isRead_more {t : TypeExpr} {rest : List TypeExpr} {us vs : List Token}
    (ht : IsRead r scope (.argument t) us) (hrest : IsRead r scope (.arguments rest) vs) :
    IsRead r scope (.arguments (t :: rest)) (us ++ .comma :: vs) := by
  intro steps cs ts hsteps hlex
  simp only [List.length_append, List.length_cons] at hsteps
  cases steps with
  | zero => simp at hsteps
  | succ steps =>
    obtain ⟨after, hafter, hread⟩ := ht steps cs (.comma :: (vs ++ .greater :: ts)) (by omega)
      (by simpa using hlex) (by simp [EndsArgument])
    obtain ⟨inner, hcomma, hinner⟩ := hafter.exists_mark rfl
    obtain ⟨tail, htail, hreadRest⟩ := hrest steps inner ts (by omega) hinner
    refine ⟨tail, htail, ?_⟩
    rw [readArgsWithin, hread]
    simp only [bind, Except.bind, hcomma, hreadRest]
    rfl

/-! ## The reader and its grammar -/

/-- What is derived from tokens is read from the texts that start with them. -/
theorem Derives.isRead {p : Phrase} {us : List Token} (h : r.Derives scope p us) :
    IsRead r scope p us := by
  induction h with
  | ofVariable hv => exact isRead_ofVariable hv
  | ofClass hc => exact isRead_ofClass hc
  | applied hc _ hlength ih => exact isRead_applied hc ih hlength
  | array _ hdims ih => exact isRead_array ih hdims
  | ofType ht ih => exact isRead_ofType ih ht.exists_name
  | unbounded => exact isRead_unbounded
  | extending _ ih => exact isRead_extending ih
  | superOf _ ih => exact isRead_superOf ih
  | single _ ih => exact isRead_single ih
  | more _ _ iht ihrest => exact isRead_more iht ihrest

theorem readWhole_eq_ok_iff (cs : List Char) (t : TypeExpr) :
    r.readWhole scope cs = .ok t ↔ ∃ ts, Lexes cs ts ∧ r.Derives scope (.argument t) ts := by
  rw [readWhole]
  constructor
  · intro h
    obtain ⟨⟨u, rest⟩, hread, h⟩ := exists_of_bind_eq_ok h
    obtain ⟨us, hus, htakes⟩ := (sound_of_steps _).argument _ _ _ hread
    dsimp only at h
    split at h
    · rename_i hend
      obtain rfl := Except.ok.inj h
      have hrest : Lexes rest [] := lexes_of_skipBlanks (hend ▸ .nil)
      exact ⟨us, by simpa using htakes [] hrest, hus⟩
    · simp at h
  · rintro ⟨ts, hlex, ht⟩
    have hlength := hlex.length_le
    obtain ⟨rest, hrest, hread⟩ := ht.isRead (2 * cs.length + 4) cs [] (by omega)
      (by simpa using hlex) (by simp [EndsArgument])
    rw [hread]
    simp only [bind, Except.bind, hrest.skipBlanks_eq_nil]
    rfl

/-- The grammar is unambiguous: a text spells no two type expressions. -/
theorem Spells.unique {text : String} {t u : TypeExpr} (ht : r.Spells scope text t)
    (hu : r.Spells scope text u) : t = u := by
  have hread := (readWhole_eq_ok_iff ..).mpr ht
  rw [(readWhole_eq_ok_iff ..).mpr hu] at hread
  exact (Except.ok.inj hread).symm

/-- The text is read as exactly the type expression that it spells. -/
theorem parseTypeIn_eq_ok_iff (r : Registry) (scope : List TypeVarId) (text : String)
    (t : TypeExpr) : r.parseTypeIn scope text = .ok t ↔ r.Spells scope text t := by
  rw [parseTypeIn, Spells, ← readWhole_eq_ok_iff]
  cases r.readWhole scope text.toList <;> simp [Except.mapError]

end Registry

end TypeConversion
