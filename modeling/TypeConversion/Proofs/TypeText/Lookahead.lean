import TypeConversion.Proofs.TypeText.Reader

/-!
# How far the reader of type texts looks ahead

What the reader takes off the front of a text does not depend on all of the rest.  Inside of angle
brackets an argument ends before a comma or a closing bracket, and it is read alike from every text
that goes on with the same one; at the end of a whole text it is read alike if the rest is cut off.

For wildcards less than that would not do: `? extendsX` starts with the wildcard without a bound,
and `? extends` does not.

**Results**

* `readsAhead`: all parts of the reader look ahead by one character at most;
* `readWhole_of_readArgWithin`: what is read of a text is what the front of it spells as a whole.
-/

namespace TypeConversion

/-! ## Texts that go on alike -/

/-- A text that is over, or that goes on with the same end of an argument as another one. -/
def EndsAlike (rest rest' : List Char) : Prop :=
  rest' = [] ∨ ∃ c ∈ [',', '>'], rest.head? = some c ∧ rest'.head? = some c

/-- A text that is over, or that goes on with the same character as another one. -/
def StartsAlike (cs cs' : List Char) : Prop := ∀ c ∈ cs'.head?, cs.head? = some c

section

variable {cs cs' rest rest' : List Char}

theorem EndsAlike.startsAlike (h : EndsAlike rest rest') (front : List Char) :
    StartsAlike (front ++ rest) (front ++ rest') := by
  intro c hc
  cases front with
  | nil =>
    rcases h with rfl | ⟨d, -, hd, hd'⟩
    · simp at hc
    · rw [List.nil_append, hd'] at hc
      rwa [List.nil_append, ← Option.mem_def.mp hc]
  | cons d front => simpa using hc

/-- What ends an argument is neither blank, nor part of a word, nor another bracket. -/
theorem EndsAlike.head?_cases (h : EndsAlike rest rest') : rest' = [] ∨ ∃ c tail,
    rest' = c :: tail ∧ isBlank c = false ∧ isWordChar c = false ∧ c ≠ '<' ∧ c ≠ '[' := by
  rcases h with rfl | ⟨c, hc, -, hhead⟩
  · exact .inl rfl
  · obtain ⟨tail, rfl⟩ : ∃ tail, rest' = c :: tail := List.head?_eq_some_iff.mp hhead
    refine .inr ⟨c, tail, rfl, ?_⟩
    obtain rfl | rfl : c = ',' ∨ c = '>' := by simpa using hc
    all_goals decide

theorem EndsAlike.skipBlanks (h : EndsAlike rest rest') : skipBlanks rest' = rest' := by
  rcases h.head?_cases with rfl | ⟨c, tail, rfl, hblank, -⟩
  · rfl
  · exact skipBlanks_of_not_blank hblank tail

/-! ## Blanks, names and keywords -/

theorem skipBlanks_append (xs ys : List Char) : skipBlanks (xs ++ ys) =
    if (skipBlanks xs).isEmpty then skipBlanks ys else skipBlanks xs ++ ys := by
  simp only [skipBlanks_eq_dropWhile, List.dropWhile_append]

/-- The blanks at the front of a text are skipped whatever follows. -/
theorem exists_blanks (cs : List Char) :
    ∃ blanks, cs = blanks ++ skipBlanks cs ∧ ∀ xs, skipBlanks (blanks ++ xs) = skipBlanks xs := by
  refine ⟨cs.takeWhile isBlank, ?_, fun xs => ?_⟩
  · rw [skipBlanks_eq_dropWhile, List.takeWhile_append_dropWhile]
  · rw [skipBlanks_eq_dropWhile, skipBlanks_eq_dropWhile,
      List.dropWhile_append_of_pos fun c hc => List.mem_takeWhile_imp hc]

theorem skipBlanks_skipBlanks (cs : List Char) : skipBlanks (skipBlanks cs) = skipBlanks cs := by
  obtain ⟨blanks, hcs, hskip⟩ := exists_blanks cs
  rw [← hskip, ← hcs]

/-- A name is read alike if its end stays its end. -/
theorem exists_front_of_readName {name : String} {after : List Char}
    (h : readName (skipBlanks cs) = some (name, after)) :
    ∃ front, cs = front ++ after ∧ ∀ after', StartsAlike after after' →
      readName (skipBlanks (front ++ after')) = some (name, after') := by
  obtain ⟨blanks, hcs, hskip⟩ := exists_blanks cs
  obtain ⟨c, word, heq, hname, hc, hword, hmax⟩ := (readName_eq_some_iff ..).mp h
  refine ⟨blanks ++ c :: word, by rw [hcs, heq]; simp, fun after' halike => ?_⟩
  have hisName : IsName (c :: (word ++ after')) name after' :=
    ⟨c, word, rfl, hname, hc, hword, fun d hd => hmax d (halike d hd)⟩
  rw [List.append_assoc, List.cons_append, hskip, hisName.skipBlanks]
  exact (readName_eq_some_iff ..).mpr hisName

/-- A keyword is read alike if its end stays its end. -/
theorem readKeyword_append {word after after' : List Char}
    (h : readKeyword word (word ++ after) = some after) (halike : StartsAlike after after') :
    readKeyword word (word ++ after') = some after' :=
  (readKeyword_eq_some_iff ..).mpr
    ⟨rfl, fun c hc => ((readKeyword_eq_some_iff ..).mp h).2 c (halike c hc)⟩

end

namespace Registry

variable {r : Registry} {scope : List TypeVarId}

/-! ## The parts of the reader -/

/-- The front of a text gives the same wherever the text ends alike. -/
def ReadsAlike {α : Type} (read : List Char → Except TypeTextFault (α × List Char))
    (front : List Char) (a : α) (rest : List Char) : Prop :=
  skipBlanks rest = rest ∧ ∀ rest', EndsAlike rest rest' → read (front ++ rest') = .ok (a, rest')

theorem exists_front_of_readDims {opened : Bool} {t u : TypeExpr} {cs rest : List Char}
    (h : readDims opened t cs = .ok (u, rest)) :
    ∃ front, cs = front ++ rest ∧ ReadsAlike (readDims opened t) front u rest := by
  induction cs generalizing opened t with
  | nil =>
    cases opened with
    | true => simp [readDims] at h
    | false =>
      obtain ⟨rfl, rfl⟩ := Prod.mk.inj (Except.ok.inj h)
      refine ⟨[], rfl, rfl, fun rest' halike => ?_⟩
      rcases halike with rfl | ⟨c, -, hnil, -⟩
      · exact h
      · simp at hnil
  | cons c cs ih =>
    cases hc : isBlank c with
    | true =>
      rw [readDims_blank opened t hc] at h
      obtain ⟨front, rfl, hend, hfront⟩ := ih h
      refine ⟨c :: front, rfl, hend, fun rest' halike => ?_⟩
      rw [List.cons_append, readDims_blank opened t hc, hfront rest' halike]
    | false =>
      cases opened with
      | true =>
        by_cases hclosing : c = ']'
        · subst hclosing
          cases hfull : t.isFull with
          | true => simp [readDims_closing_of_full hfull] at h
          | false =>
            rw [readDims_closing hfull] at h
            obtain ⟨front, rfl, hend, hfront⟩ := ih h
            refine ⟨']' :: front, rfl, hend, fun rest' halike => ?_⟩
            rw [List.cons_append, readDims_closing hfull, hfront rest' halike]
        · simp [readDims, hc, hclosing] at h
      | false =>
        by_cases hopening : c = '['
        · subst hopening
          have hopen : ∀ xs, readDims false t ('[' :: xs) = readDims true t xs := by
            intro xs
            simp [readDims, hc]
          rw [hopen] at h
          obtain ⟨front, rfl, hend, hfront⟩ := ih h
          refine ⟨'[' :: front, rfl, hend, fun rest' halike => ?_⟩
          rw [List.cons_append, hopen, hfront rest' halike]
        · obtain ⟨rfl, rfl⟩ : t = u ∧ c :: cs = rest := by simpa [readDims, hc, hopening] using h
          refine ⟨[], rfl, skipBlanks_of_not_blank hc cs, fun rest' halike => ?_⟩
          rcases halike with rfl | ⟨d, -, hd, hd'⟩
          · rfl
          · obtain ⟨tail, rfl⟩ := List.head?_eq_some_iff.mp hd'
            obtain rfl : c = d := by simpa using hd
            simp [readDims, hc, hopening]

/-- What the reader makes of a type once it has its name. -/
def readNamed (r : Registry) (scope : List TypeVarId) (steps : Nat) (name : String)
    (after : List Char) : Except TypeTextFault (TypeExpr × List Char) :=
  match r.scopeVar? scope name with
  | some v => readDims false (.typeVar v) after
  | none =>
    match r.lookup? name with
    | none => .error (.unknownType name)
    | some c =>
      match skipBlanks after with
      | '<' :: inner => do
        let (args, inside) ← r.readArgsWithin scope steps inner
        let t ← r.applyClass c name args
        readDims false t inside
      | rest => readDims false (.ofClass c) rest

theorem readTypeWithin_succ (steps : Nat) (cs : List Char) :
    r.readTypeWithin scope (steps + 1) cs =
      match readName (skipBlanks cs) with
      | none => .error (.unexpected (skipBlanks cs))
      | some (name, after) => r.readNamed scope steps name after := by
  rw [readTypeWithin]
  rfl

variable (r scope) in
/-- All that is read within some steps looks ahead by one character at most. -/
structure ReadsAhead (steps : Nat) : Prop where
  type : ∀ cs t rest, r.readTypeWithin scope steps cs = .ok (t, rest) →
    ∃ front, cs = front ++ rest ∧ ReadsAlike (r.readTypeWithin scope steps) front t rest
  arguments : ∀ cs args rest, r.readArgsWithin scope steps cs = .ok (args, rest) →
    ∃ front, cs = front ++ rest ∧
      ∀ rest', r.readArgsWithin scope steps (front ++ rest') = .ok (args, rest')
  argument : ∀ cs t rest, r.readArgWithin scope steps cs = .ok (t, rest) →
    ∃ front, cs = front ++ rest ∧ ReadsAlike (r.readArgWithin scope steps) front t rest
  bound : ∀ cs t rest, r.readBoundWithin scope steps cs = .ok (t, rest) →
    ∃ front, cs = front ++ rest ∧ ReadsAlike (r.readBoundWithin scope steps) front t rest

/-- The brackets after a class without arguments are not taken for arguments in a shorter text. -/
theorem not_less_of_endsAlike {front rest rest' : List Char}
    (h : ∀ inner, skipBlanks (front ++ rest) ≠ '<' :: inner) (halike : EndsAlike rest rest') :
    ∀ inner, skipBlanks (front ++ rest') ≠ '<' :: inner := by
  intro inner hless
  rw [skipBlanks_append] at h hless
  split at hless
  · rw [halike.skipBlanks] at hless
    rcases halike.head?_cases with rfl | ⟨c, tail, rfl, -, -, hne, -⟩
    · simp at hless
    · exact hne (List.cons.inj hless).1
  · rename_i hfront
    cases hcs : skipBlanks front with
    | nil => simp [hcs] at hfront
    | cons c tail =>
      rw [hcs] at hless
      obtain ⟨rfl, -⟩ := List.cons.inj hless
      simp [hcs] at h

theorem exists_front_of_readNamed {steps : Nat} (h : ReadsAhead r scope steps) {name : String}
    {after rest : List Char} {t : TypeExpr}
    (ht : r.readNamed scope steps name after = .ok (t, rest)) :
    ∃ front, after = front ++ rest ∧ ReadsAlike (r.readNamed scope steps name) front t rest := by
  unfold ReadsAlike
  simp only [readNamed] at ht ⊢
  cases hvar : r.scopeVar? scope name with
  | some v =>
    simp only [hvar] at ht ⊢
    exact exists_front_of_readDims ht
  | none =>
    cases hclass : r.lookup? name with
    | none => simp [hvar, hclass] at ht
    | some c =>
      simp only [hvar, hclass] at ht ⊢
      split at ht
      · rename_i inner hless
        obtain ⟨⟨args, inside⟩, hargs, ht⟩ := exists_of_bind_eq_ok ht
        obtain ⟨u, happly, ht⟩ := exists_of_bind_eq_ok ht
        dsimp only at happly ht
        obtain ⟨blanks, hblanks, hskip⟩ := exists_blanks after
        obtain ⟨front', rfl, hend, hdims⟩ := exists_front_of_readDims ht
        obtain ⟨front, rfl, hreadArgs⟩ := h.arguments _ _ _ hargs
        refine ⟨blanks ++ '<' :: (front ++ front'), ?_, hend, fun rest' halike => ?_⟩
        · rw [hblanks, hless]
          simp
        · rw [List.append_assoc, hskip, List.cons_append, List.append_assoc,
            skipBlanks_of_not_blank (by decide)]
          simp only [hreadArgs, bind, Except.bind, happly]
          exact hdims rest' halike
      · rename_i hless
        rw [readDims_skipBlanks] at ht
        obtain ⟨front, rfl, hend, hdims⟩ := exists_front_of_readDims ht
        refine ⟨front, rfl, hend, fun rest' halike => ?_⟩
        split
        · rename_i inner hless'
          exact absurd hless' (not_less_of_endsAlike hless halike inner)
        · rw [readDims_skipBlanks]
          exact hdims rest' halike

theorem exists_front_of_readTypeWithin {steps : Nat} (h : ReadsAhead r scope steps)
    {cs rest : List Char} {t : TypeExpr}
    (ht : r.readTypeWithin scope (steps + 1) cs = .ok (t, rest)) :
    ∃ front, cs = front ++ rest ∧ ReadsAlike (r.readTypeWithin scope (steps + 1)) front t rest := by
  rw [readTypeWithin_succ] at ht
  cases hname : readName (skipBlanks cs) with
  | none => simp [hname] at ht
  | some found =>
    obtain ⟨name, after⟩ := found
    simp only [hname] at ht
    obtain ⟨front, rfl, hread⟩ := exists_front_of_readName hname
    obtain ⟨front', rfl, hend, hfront⟩ := exists_front_of_readNamed h ht
    refine ⟨front ++ front', by simp, hend, fun rest' halike => ?_⟩
    rw [readTypeWithin_succ, List.append_assoc, hread _ (halike.startsAlike front')]
    exact hfront rest' halike

theorem exists_front_of_readArgsWithin {steps : Nat} (h : ReadsAhead r scope steps)
    {cs rest : List Char} {args : List TypeExpr}
    (hargs : r.readArgsWithin scope (steps + 1) cs = .ok (args, rest)) :
    ∃ front, cs = front ++ rest ∧
      ∀ rest', r.readArgsWithin scope (steps + 1) (front ++ rest') = .ok (args, rest') := by
  rw [readArgsWithin] at hargs
  obtain ⟨⟨arg, after⟩, harg, hafter⟩ := exists_of_bind_eq_ok hargs
  obtain ⟨front, rfl, hend, hfront⟩ := h.argument _ _ _ harg
  dsimp only at hafter
  rw [hend] at hafter
  split at hafter
  · obtain ⟨⟨args, inside⟩, hrest, hafter⟩ := exists_of_bind_eq_ok hafter
    obtain ⟨rfl, rfl⟩ := Prod.mk.inj (Except.ok.inj hafter)
    obtain ⟨front', rfl, hfront'⟩ := h.arguments _ _ _ hrest
    refine ⟨front ++ ',' :: front', by simp, fun rest' => ?_⟩
    have harg' := hfront (',' :: (front' ++ rest')) (.inr ⟨',', by simp, rfl, rfl⟩)
    rw [readArgsWithin, List.append_assoc, List.cons_append, harg']
    simp only [bind, Except.bind, skipBlanks_of_not_blank (show isBlank ',' = false by decide),
      hfront']
    rfl
  · obtain ⟨rfl, rfl⟩ := Prod.mk.inj (Except.ok.inj hafter)
    refine ⟨front ++ ['>'], by simp, fun rest' => ?_⟩
    have harg' := hfront ('>' :: rest') (.inr ⟨'>', by simp, rfl, rfl⟩)
    rw [readArgsWithin, List.append_assoc, List.singleton_append, harg']
    simp only [bind, Except.bind, skipBlanks_of_not_blank (show isBlank '>' = false by decide)]
    rfl
  · simp at hafter

/-- Where a type is read there is no question mark. -/
theorem not_question_of_readTypeWithin {steps : Nat} {cs rest : List Char} {t : TypeExpr}
    (h : r.readTypeWithin scope steps cs = .ok (t, rest)) (inner : List Char) :
    skipBlanks cs ≠ '?' :: inner := by
  intro hquestion
  have hstarts : startsName '?' = false := by decide
  cases steps with
  | zero => simp [readTypeWithin] at h
  | succ steps => simp [readTypeWithin_succ, hquestion, readName, hstarts] at h

theorem readTypeWithin_skipBlanks (steps : Nat) (cs : List Char) :
    r.readTypeWithin scope (steps + 1) (skipBlanks cs) = r.readTypeWithin scope (steps + 1) cs := by
  rw [readTypeWithin_succ, readTypeWithin_succ, skipBlanks_skipBlanks]

theorem exists_front_of_readArgWithin {steps : Nat} (h : ReadsAhead r scope steps)
    {cs rest : List Char} {t : TypeExpr}
    (ht : r.readArgWithin scope (steps + 1) cs = .ok (t, rest)) :
    ∃ front, cs = front ++ rest ∧ ReadsAlike (r.readArgWithin scope (steps + 1)) front t rest := by
  obtain ⟨blanks, hblanks, hskip⟩ := exists_blanks cs
  rw [readArgWithin] at ht
  split at ht
  · rename_i inner hquestion
    obtain ⟨front, rfl, hend, hfront⟩ := h.bound _ _ _ ht
    refine ⟨blanks ++ '?' :: front, by rw [hblanks, hquestion]; simp, hend, fun rest' halike => ?_⟩
    rw [readArgWithin, List.append_assoc, hskip, List.cons_append,
      skipBlanks_of_not_blank (by decide)]
    exact hfront rest' halike
  · cases steps with
    | zero => simp [readTypeWithin] at ht
    | succ steps =>
      rw [readTypeWithin_skipBlanks] at ht
      obtain ⟨front, rfl, hend, hfront⟩ := h.type _ _ _ ht
      refine ⟨front, rfl, hend, fun rest' halike => ?_⟩
      rw [readArgWithin]
      split
      · rename_i inner hquestion
        exact absurd hquestion (not_question_of_readTypeWithin (hfront rest' halike) inner)
      · rw [readTypeWithin_skipBlanks]
        exact hfront rest' halike

/-! ### Wildcards -/

theorem endWildcard_of_endsAlike {rest rest' : List Char} (h : EndsAlike rest rest')
    (wildcard : TypeExpr) : endWildcard wildcard rest' = .ok (wildcard, rest') := by
  rw [endWildcard, h.skipBlanks]
  rcases h.head?_cases with rfl | ⟨c, tail, rfl, -, -, -, hne⟩
  · rfl
  · split
    · rename_i heq
      exact absurd (List.cons.inj heq).1 hne
    · rfl

/-- Where an argument ends there is no keyword. -/
theorem readKeyword_of_endsAlike {rest rest' : List Char} (h : EndsAlike rest rest')
    {word : List Char} (hword : word.head?.any isWordChar = true) :
    readKeyword word rest' = none := by
  rw [Option.eq_none_iff_forall_ne_some]
  intro after hread
  obtain ⟨rfl, -⟩ := (readKeyword_eq_some_iff ..).mp hread
  cases word with
  | nil => simp at hword
  | cons c word =>
    rcases h.head?_cases with hnil | ⟨d, tail, heq, -, hnot, -⟩
    · simp at hnil
    · obtain ⟨rfl, -⟩ := List.cons.inj heq
      simp [hnot] at hword

/-- A keyword with its bound is read alike from texts that end alike. -/
theorem exists_front_of_bound {steps : Nat} (h : ReadsAhead r scope steps)
    {wildcard : TypeExpr → TypeExpr} {word cs inner rest : List Char} {t : TypeExpr}
    (hword : word.head?.all isBlank = false)
    (hkeyword : readKeyword word (skipBlanks cs) = some inner)
    (ht : (r.readTypeWithin scope steps inner >>= fun (b, after) =>
      endWildcard (wildcard b) after) = .ok (t, rest)) :
    ∃ front, cs = front ++ rest ∧ skipBlanks rest = rest ∧ ∀ rest', EndsAlike rest rest' →
      ∃ inner', skipBlanks (front ++ rest') = word ++ inner' ∧
        readKeyword word (skipBlanks (front ++ rest')) = some inner' ∧
        (r.readTypeWithin scope steps inner' >>= fun (b, after) =>
          endWildcard (wildcard b) after) = .ok (t, rest') := by
  obtain ⟨blanks, hblanks, hskip⟩ := exists_blanks cs
  obtain ⟨⟨b, after⟩, hb, ht⟩ := exists_of_bind_eq_ok ht
  obtain ⟨rfl, rfl⟩ := endWildcard_eq_ok ht
  obtain ⟨front, rfl, hend, hfront⟩ := h.type _ _ _ hb
  have hcs := ((readKeyword_eq_some_iff ..).mp hkeyword).1
  rw [hend]
  refine ⟨blanks ++ (word ++ front), by rw [hblanks, hcs]; simp, hend, fun rest' halike => ?_⟩
  have hskip' : skipBlanks (blanks ++ (word ++ front) ++ rest') = word ++ (front ++ rest') := by
    rw [List.append_assoc, hskip, List.append_assoc]
    cases word with
    | nil => simp at hword
    | cons c word => exact skipBlanks_of_not_blank (by simpa using hword) _
  refine ⟨front ++ rest', hskip', ?_, ?_⟩
  · rw [hcs] at hkeyword
    rw [hskip']
    exact readKeyword_append hkeyword (halike.startsAlike front)
  · rw [hfront rest' halike]
    exact endWildcard_of_endsAlike halike _

theorem exists_front_of_readBoundWithin {steps : Nat} (h : ReadsAhead r scope steps)
    {cs rest : List Char} {t : TypeExpr}
    (ht : r.readBoundWithin scope (steps + 1) cs = .ok (t, rest)) :
    ∃ front, cs = front ++ rest ∧
      ReadsAlike (r.readBoundWithin scope (steps + 1)) front t rest := by
  rw [readBoundWithin_succ] at ht
  cases hextends : readKeyword "extends".toList (skipBlanks cs) with
  | some inner =>
    simp only [hextends] at ht
    obtain ⟨front, rfl, hend, hfront⟩ := exists_front_of_bound h (by decide) hextends ht
    refine ⟨front, rfl, hend, fun rest' halike => ?_⟩
    obtain ⟨inner', -, hextends', hread⟩ := hfront rest' halike
    rw [readBoundWithin_succ, hextends']
    exact hread
  | none =>
    simp only [hextends] at ht
    cases hsuper : readKeyword "super".toList (skipBlanks cs) with
    | some inner =>
      simp only [hsuper] at ht
      obtain ⟨front, rfl, hend, hfront⟩ := exists_front_of_bound h (by decide) hsuper ht
      refine ⟨front, rfl, hend, fun rest' halike => ?_⟩
      obtain ⟨inner', hskip, hsuper', hread⟩ := hfront rest' halike
      have hextends' : readKeyword "extends".toList (skipBlanks (front ++ rest')) = none := by
        rw [hskip]
        rfl
      rw [readBoundWithin_succ, hextends', hsuper']
      exact hread
    | none =>
      simp only [hsuper] at ht
      obtain ⟨rfl, rfl⟩ := endWildcard_eq_ok ht
      obtain ⟨blanks, hblanks, hskip⟩ := exists_blanks cs
      refine ⟨blanks, hblanks, skipBlanks_skipBlanks cs, fun rest' halike => ?_⟩
      have hnone : ∀ word : List Char, word.head?.any isWordChar = true →
          readKeyword word (skipBlanks (blanks ++ rest')) = none := by
        intro word hword
        rw [hskip, halike.skipBlanks]
        exact readKeyword_of_endsAlike halike hword
      rw [readBoundWithin_succ, hnone _ (by decide), hnone _ (by decide)]
      dsimp only
      rw [endWildcard, hskip]
      exact endWildcard_of_endsAlike halike _

/-- Whatever is read, the reader has looked ahead by one character at most.  The induction is on the
steps. -/
theorem readsAhead (steps : Nat) : ReadsAhead r scope steps := by
  induction steps with
  | zero =>
    exact {
      type := fun cs t rest h => by simp [readTypeWithin] at h
      arguments := fun cs args rest h => by simp [readArgsWithin] at h
      argument := fun cs t rest h => by simp [readArgWithin] at h
      bound := fun cs t rest h => by simp [readBoundWithin] at h }
  | succ steps ih =>
    exact {
      type := fun _ _ _ => exists_front_of_readTypeWithin ih
      arguments := fun _ _ _ => exists_front_of_readArgsWithin ih
      argument := fun _ _ _ => exists_front_of_readArgWithin ih
      bound := fun _ _ _ => exists_front_of_readBoundWithin ih }

/-- What is read of a text is what the front of it spells as a whole. -/
theorem readWhole_of_readArgWithin {steps : Nat} {cs rest : List Char} {t : TypeExpr}
    (h : r.readArgWithin scope steps cs = .ok (t, rest)) :
    ∃ front, cs = front ++ rest ∧ skipBlanks rest = rest ∧ r.readWhole scope front = .ok t := by
  obtain ⟨front, hcs, hend, hfront⟩ := (readsAhead steps).argument _ _ _ h
  have halone := hfront [] (.inl rfl)
  rw [List.append_nil] at halone
  obtain ⟨us, hus, htakes⟩ := (sound_of_steps steps).argument _ _ _ halone
  exact ⟨front, hcs, hend, (readWhole_eq_ok_iff ..).mpr ⟨us, by simpa using htakes [] .nil, hus⟩⟩

end Registry

end TypeConversion
