import TypeConversion.Proofs.TypeText.Lookahead
import Mathlib.Data.String.Basic

/-!
# Places of errors in type texts

The reader of type texts works on lists of characters, and an error gets its offset from what is
left of the text.  Here is a reader that works on the text itself: it keeps a position in bytes,
looks at the text from there on, and moves over names, marks, blanks and keywords each in its own
way.  It may go wrong in two ways that the other one cannot: a position may be inside of a
character, and a loop may need more steps than it is given.

Neither happens.  Wherever the two readers start, as long as that is between two characters, they do
the same, and so do longer programs that are put together from such parts.

**Results**

* `Mirrors.bind`: readers that do the same one after the other;
* `mirrorsWithin`: all parts of the reader of positions do the same as those of the reader of lists;
* `runAt_whole`: it reads a whole text as the other one does;
* `parseTypeIn_error_places`: where the errors are.
-/

namespace TypeConversion

/-! ## Bytes -/

/-- The characters of a text from a number of bytes on; none if that is inside of a character. -/
def charsFrom? : List Char → Nat → Option (List Char)
  | cs, 0 => some cs
  | [], _ + 1 => none
  | c :: cs, bytes + 1 =>
    if c.utf8Size ≤ bytes + 1 then charsFrom? cs (bytes + 1 - c.utf8Size) else none

/-- The characters of a text up to a number of bytes; none if that is inside of a character. -/
def charsUpTo? : List Char → Nat → Option (List Char)
  | _, 0 => some []
  | [], _ + 1 => none
  | c :: cs, bytes + 1 =>
    if c.utf8Size ≤ bytes + 1 then (charsUpTo? cs (bytes + 1 - c.utf8Size)).map (c :: ·) else none

theorem byteCount_toList (text : String) : byteCount text.toList = text.utf8ByteSize := by
  have hlen : ∀ cs, byteCount cs = String.utf8Len cs := by
    intro cs
    induction cs with
    | nil => rfl
    | cons c cs ih => simp [byteCount, ih, Nat.add_comm]
  rw [hlen, String.utf8Len_toList]

theorem charsFrom?_append (before rest : List Char) :
    charsFrom? (before ++ rest) (byteCount before) = some rest := by
  induction before with
  | nil => simp [charsFrom?, byteCount]
  | cons c before ih =>
    have hpos := c.utf8Size_pos
    obtain ⟨bytes, hbytes⟩ : ∃ bytes, c.utf8Size + byteCount before = bytes + 1 :=
      ⟨c.utf8Size + byteCount before - 1, by omega⟩
    rw [byteCount, hbytes, List.cons_append, charsFrom?, if_pos (by omega), ← hbytes,
      Nat.add_sub_cancel_left, ih]

theorem charsUpTo?_append (front rest : List Char) :
    charsUpTo? (front ++ rest) (byteCount front) = some front := by
  induction front with
  | nil => cases rest <;> rfl
  | cons c front ih =>
    have hpos := c.utf8Size_pos
    obtain ⟨bytes, hbytes⟩ : ∃ bytes, c.utf8Size + byteCount front = bytes + 1 :=
      ⟨c.utf8Size + byteCount front - 1, by omega⟩
    rw [byteCount, hbytes, List.cons_append, charsUpTo?, if_pos (by omega), ← hbytes,
      Nat.add_sub_cancel_left, ih]
    rfl

theorem offsetOf_append (before rest : List Char) :
    offsetOf (before ++ rest) rest = byteCount before := by
  simp [offsetOf, byteCount_append]

theorem offsetOf_self (cs : List Char) : offsetOf cs cs = 0 := by simp [offsetOf]

theorem offsetOf_nil (cs : List Char) : offsetOf cs [] = byteCount cs := by
  simp [offsetOf, byteCount]

theorem byteCount_lt {before after : List Char} {c : Char} {cs : List Char}
    (h : cs = before ++ c :: after) : byteCount before < byteCount cs := by
  have hpos := c.utf8Size_pos
  rw [h, byteCount_append, byteCount]
  omega

/-! ## A reader of positions -/

/-- Why a reader of positions stopped. -/
inductive CursorStop where
  /-- A position was inside of a character, or behind the end of the text. -/
  | insideCharacter
  /-- A loop was not over when its steps were. -/
  | outOfSteps
  | refused (e : TypeError)

/-- A reader that moves a position in bytes over a text. -/
abbrev Cursor := ExceptT CursorStop (StateM Nat)

namespace Cursor

/-- What a reader gives from a position on, and the position where it stops. -/
def runAt {α : Type} (m : Cursor α) (pos : Nat) : Except CursorStop α × Nat := m.run.run pos

section

variable (text : String)

/-- The text from the position on. -/
def ahead : Cursor (List Char) := do
  match charsFrom? text.toList (← get) with
  | some cs => return cs
  | none => throw .insideCharacter

def peek : Cursor (Option Char) := do return (← ahead text).head?

def advance (bytes : Nat) : Cursor Unit := modify (· + bytes)

/-- Moves over one character. -/
def bump : Cursor Unit := do
  match ← peek text with
  | some c => advance c.utf8Size
  | none => return ()

/-- Refuses what stands at the position. -/
def refuse {α : Type} : Cursor α := do
  match ← peek text with
  | some c => throw (.refused (.unexpectedChar text (← get) c))
  | none => throw (.refused (.unexpectedEnd text))

def skipWhile (p : Char → Bool) : Nat → Cursor Unit
  | 0 => throw .outOfSteps
  | steps + 1 => do
    if (← peek text).any p then
      bump text
      skipWhile p steps
    else return ()

def skip : Cursor Unit := skipWhile text isBlank (text.toList.length + 1)

/-- Moves over a certain character after any blanks. -/
def expect (c : Char) : Cursor Unit := do
  skip text
  if (← peek text) = some c then advance c.utf8Size else refuse text

/-- The text between two positions. -/
def slice (start stop : Nat) : Cursor String :=
  match (charsFrom? text.toList start).bind (charsUpTo? · (stop - start)) with
  | some cs => return String.ofList cs
  | none => throw .insideCharacter

def name : Cursor String := do
  skip text
  let start ← get
  if (← peek text).any startsName then
    skipWhile text continuesName (text.toList.length + 1)
    slice text start (← get)
  else refuse text

/-- Moves over a word if it stands at the position and does not go on. -/
def keyword (word : List Char) : Cursor Bool := do
  let cs ← ahead text
  if word.isPrefixOf cs then
    match charsFrom? cs (byteCount word) with
    | none => throw .insideCharacter
    | some after =>
      if after.head?.any isWordChar then return false
      else
        advance (byteCount word)
        return true
  else return false

/-- Moves over pairs of brackets and wraps a type in an array for each. -/
def dims : Nat → TypeExpr → Cursor TypeExpr
  | 0, _ => throw .outOfSteps
  | steps + 1, t => do
    skip text
    if (← peek text) = some '[' then
      bump text
      expect text ']'
      if t.isFull then throw (.refused (.tooManyDimensions text))
      else dims steps t.arrayOf
    else return t

/-- The end of a wildcard, after which there is no bracket. -/
def wildcardEnd (wildcard : TypeExpr) : Cursor TypeExpr := do
  skip text
  if (← peek text) = some '[' then throw (.refused (.misplacedWildcard text))
  else return wildcard

variable (r : Registry) (scope : List TypeVarId)

mutual

def type : Nat → Cursor TypeExpr
  | 0 => throw .outOfSteps
  | steps + 1 => do
    let name ← name text
    match r.scopeVar? scope name with
    | some v => dims text (text.toList.length + 1) (.typeVar v)
    | none =>
      match r.lookup? name with
      | none => throw (.refused (.unknownType name))
      | some c =>
        skip text
        if (← peek text) = some '<' then
          bump text
          let args ← arguments steps
          match r.applyClass c name args with
          | .ok t => dims text (text.toList.length + 1) t
          | .error fault => throw (.refused (fault.toError text))
        else dims text (text.toList.length + 1) (.ofClass c)

def arguments : Nat → Cursor (List TypeExpr)
  | 0 => throw .outOfSteps
  | steps + 1 => do
    let arg ← argument steps
    skip text
    match ← peek text with
    | some ',' =>
      bump text
      return arg :: (← arguments steps)
    | some '>' =>
      bump text
      return [arg]
    | _ => refuse text

def argument : Nat → Cursor TypeExpr
  | 0 => throw .outOfSteps
  | steps + 1 => do
    skip text
    if (← peek text) = some '?' then wildcard steps else type steps

def wildcard : Nat → Cursor TypeExpr
  | 0 => throw .outOfSteps
  | steps + 1 => do
    expect text '?'
    skip text
    if ← keyword text "extends".toList then
      wildcardEnd text (.extending (← type steps))
    else if ← keyword text "super".toList then
      wildcardEnd text (.superOf (← type steps))
    else wildcardEnd text .unbounded

end

/-- Reads a whole text from its start on. -/
def whole : Cursor TypeExpr := do
  let t ← argument text r scope (2 * text.toList.length + 4)
  skip text
  let pos ← get
  if pos = text.utf8ByteSize then return t
  else throw (.refused (.trailingInput text pos))

end

end Cursor

/-! ## Readers that do the same -/

/-- The place of a fault: where something unexpected stands the rest of the text begins. -/
def TypeTextFault.IsAt (text : String) (pos : Nat) : TypeTextFault → Prop
  | unexpected rest => rest <:+ text.toList ∧ pos = offsetOf text.toList rest
  | trailing _ => False
  | unknownType _ | genericArity .. | tooManyDimensions | misplacedWildcard => True

namespace TypeTextFault

variable (text input : String) (fault : TypeTextFault)

theorem toError_eq_unexpectedEnd_iff :
    fault.toError text = .unexpectedEnd input ↔ input = text ∧ fault = .unexpected [] := by
  rcases fault with _ | (_ | _) | _ | _ | _ | _ <;> simp [toError, eq_comm]

theorem toError_eq_unexpectedChar_iff (offset : Nat) (found : Char) :
    fault.toError text = .unexpectedChar input offset found ↔ input = text ∧ ∃ rest,
      fault = .unexpected (found :: rest) ∧ offset = offsetOf text.toList (found :: rest) := by
  rcases fault with _ | (_ | ⟨c, rest⟩) | _ | _ | _ | _ <;> simp [toError]
  constructor
  · rintro ⟨rfl, rfl, rfl⟩
    exact ⟨rfl, rfl, rfl⟩
  · rintro ⟨rfl, rfl, rfl⟩
    exact ⟨rfl, rfl, rfl⟩

theorem toError_eq_trailingInput_iff (offset : Nat) :
    fault.toError text = .trailingInput input offset ↔ input = text ∧ ∃ rest,
      fault = .trailing rest ∧ offset = offsetOf text.toList rest := by
  rcases fault with _ | (_ | _) | _ | _ | _ | _ <;> simp [toError, eq_comm]

end TypeTextFault

section

variable {text : String} {α β : Type}

/-- What a reader of positions gave is what was made of some rest of the text: it gave the same, and
stopped before what is left over. -/
def Agrees (text : String) (cs : List Char) (outcome : Except CursorStop α × Nat) :
    Except TypeTextFault (α × List Char) → Prop
  | .ok (a, rest) => rest <:+ cs ∧ outcome = (.ok a, offsetOf text.toList rest)
  | .error fault => fault.IsAt text outcome.2 ∧
      outcome.1 = .error (.refused (fault.toError text))

/-- A reader of positions does before some rest of the text what is made of that rest. -/
def Mirrors (text : String) (m : Cursor α) (cs : List Char)
    (result : Except TypeTextFault (α × List Char)) : Prop :=
  cs <:+ text.toList → Agrees text cs (m.runAt (offsetOf text.toList cs)) result

theorem Agrees.of_suffix {cs cs' : List Char} {outcome : Except CursorStop α × Nat}
    {result : Except TypeTextFault (α × List Char)} (h : Agrees text cs outcome result)
    (hcs : cs <:+ cs') : Agrees text cs' outcome result := by
  cases result with
  | ok found => exact ⟨h.1.trans hcs, h.2⟩
  | error fault => exact h

theorem runAt_bind (m : Cursor α) (f : α → Cursor β) (pos : Nat) :
    (m >>= f).runAt pos = match m.runAt pos with
      | (.ok a, pos) => (f a).runAt pos
      | (.error e, pos) => (.error e, pos) := by
  change (ExceptT.bindCont f (m pos).1) (m pos).2 = match m pos with
    | (.ok a, pos) => (f a).runAt pos
    | (.error e, pos) => (.error e, pos)
  rcases m pos with ⟨_ | _, _⟩ <;> rfl

/-- Readers that do the same one after the other. -/
theorem Mirrors.bind {m : Cursor α} {f : α → Cursor β} {cs : List Char}
    {read : Except TypeTextFault (α × List Char)}
    {next : α × List Char → Except TypeTextFault (β × List Char)} (h : Mirrors text m cs read)
    (hnext : ∀ a rest, read = .ok (a, rest) → Mirrors text (f a) rest (next (a, rest))) :
    Mirrors text (m >>= f) cs (read >>= next) := by
  intro hcs
  rw [runAt_bind]
  generalize hm : m.runAt (offsetOf text.toList cs) = outcome
  have hread := h hcs
  rw [hm] at hread
  obtain ⟨answer, stop⟩ := outcome
  cases read with
  | error fault =>
    obtain ⟨hat, rfl⟩ : fault.IsAt text stop ∧ answer = .error (.refused (fault.toError text)) :=
      hread
    exact ⟨hat, rfl⟩
  | ok found =>
    obtain ⟨a, rest⟩ := found
    obtain ⟨hrest, heq⟩ := hread
    obtain ⟨rfl, rfl⟩ := Prod.mk.inj heq
    exact (hnext a rest rfl (hrest.trans hcs)).of_suffix hrest

/-- A reader that has moved on, and what comes then. -/
theorem Mirrors.andThen {m : Cursor α} {f : α → Cursor β} {cs rest : List Char} {a : α}
    {result : Except TypeTextFault (β × List Char)} (h : Mirrors text m cs (.ok (a, rest)))
    (hnext : Mirrors text (f a) rest result) : Mirrors text (m >>= f) cs result := by
  have hbind : Mirrors text (m >>= f) cs (.ok (a, rest) >>= fun _ => result) := by
    refine h.bind fun a' rest' heq => ?_
    obtain ⟨rfl, rfl⟩ := Prod.mk.inj (Except.ok.inj heq)
    exact hnext
  exact hbind

theorem Mirrors.stop {m : Cursor α} {f : α → Cursor β} {cs : List Char} {fault : TypeTextFault}
    (h : Mirrors text m cs (.error fault)) : Mirrors text (m >>= f) cs (.error fault) := by
  have hbind : Mirrors text (m >>= f) cs (.error fault >>= fun _ => .error fault) :=
    h.bind fun _ _ heq => by simp at heq
  exact hbind

theorem mirrors_pure (a : α) (cs : List Char) : Mirrors text (pure a) cs (.ok (a, cs)) :=
  fun _ => ⟨List.suffix_rfl, rfl⟩

theorem mirrors_throw (cs : List Char) (fault : TypeTextFault) (h : ∀ pos, fault.IsAt text pos) :
    Mirrors text (throw (.refused (fault.toError text)) : Cursor α) cs (.error fault) :=
  fun _ => ⟨h _, rfl⟩

/-! ## The ways to move over a text -/

namespace Cursor

theorem mirrors_ahead (cs : List Char) : Mirrors text (ahead text) cs (.ok (cs, cs)) := by
  rintro ⟨before, hbefore⟩
  refine ⟨List.suffix_rfl, ?_⟩
  have hpos : offsetOf text.toList cs = byteCount before := by rw [← hbefore, offsetOf_append]
  have hfrom : charsFrom? text.toList (byteCount before) = some cs := by
    rw [← hbefore, charsFrom?_append]
  rw [hpos, ahead, runAt_bind]
  change (match charsFrom? text.toList (byteCount before) with
    | some cs => (pure cs : Cursor (List Char))
    | none => throw CursorStop.insideCharacter).runAt (byteCount before) = _
  rw [hfrom]
  rfl

theorem mirrors_peek (cs : List Char) : Mirrors text (peek text) cs (.ok (cs.head?, cs)) :=
  (mirrors_ahead cs).andThen (mirrors_pure _ _)

/-- A position is moved on by the bytes of the characters that it goes over. -/
theorem mirrors_advance (front rest : List Char) :
    Mirrors text (advance (byteCount front)) (front ++ rest) (.ok ((), rest)) := by
  rintro ⟨before, hbefore⟩
  refine ⟨List.suffix_append front rest, ?_⟩
  have hpos : offsetOf text.toList (front ++ rest) = byteCount before := by
    rw [← hbefore, offsetOf_append]
  have hpos' : offsetOf text.toList rest = byteCount before + byteCount front := by
    rw [← hbefore, ← List.append_assoc, offsetOf_append, byteCount_append]
  rw [hpos, hpos']
  rfl

theorem mirrors_advance_one (c : Char) (rest : List Char) :
    Mirrors text (advance c.utf8Size) (c :: rest) (.ok ((), rest)) :=
  mirrors_advance [c] rest

theorem mirrors_bump (c : Char) (rest : List Char) :
    Mirrors text (bump text) (c :: rest) (.ok ((), rest)) :=
  (mirrors_peek _).andThen (mirrors_advance_one c rest)

theorem mirrors_get (cs : List Char) :
    Mirrors text get cs (.ok (offsetOf text.toList cs, cs)) :=
  fun _ => ⟨List.suffix_rfl, rfl⟩

/-- What is refused starts where the reader stands. -/
theorem mirrors_refuse (cs : List Char) :
    Mirrors text (refuse text : Cursor α) cs (.error (.unexpected cs)) := by
  refine (mirrors_peek cs).andThen ?_
  cases cs with
  | nil => exact fun hcs => ⟨⟨hcs, rfl⟩, rfl⟩
  | cons c rest => exact fun hcs => ⟨⟨hcs, rfl⟩, rfl⟩

theorem mirrors_skipWhile (p : Char → Bool) {steps : Nat} {cs : List Char}
    (h : cs.length < steps) :
    Mirrors text (skipWhile text p steps) cs (.ok ((), cs.dropWhile p)) := by
  induction steps generalizing cs with
  | zero => simp at h
  | succ steps ih =>
    rw [skipWhile]
    refine (mirrors_peek cs).andThen ?_
    cases cs with
    | nil => exact mirrors_pure _ _
    | cons c rest =>
      cases hc : p c with
      | true =>
        simp only [List.head?_cons, Option.any_some, hc, if_true, List.dropWhile_cons]
        refine (mirrors_bump c rest).andThen (ih ?_)
        simpa using h
      | false =>
        simp only [List.head?_cons, Option.any_some, hc, Bool.false_eq_true, if_false,
          List.dropWhile_cons]
        exact mirrors_pure _ _

theorem mirrors_skip (cs : List Char) : Mirrors text (skip text) cs (.ok ((), skipBlanks cs)) := by
  intro hcs
  rw [skipBlanks_eq_dropWhile]
  exact mirrors_skipWhile isBlank (Nat.lt_succ_of_le hcs.length_le) hcs

theorem mirrors_expect {cs rest : List Char} {c : Char} (h : skipBlanks cs = c :: rest) :
    Mirrors text (expect text c) cs (.ok ((), rest)) := by
  refine (mirrors_skip cs).andThen ((mirrors_peek _).andThen ?_)
  rw [h, List.head?_cons, if_pos rfl]
  exact mirrors_advance_one c rest

theorem mirrors_expect_other {cs : List Char} {c : Char} (h : (skipBlanks cs).head? ≠ some c) :
    Mirrors text (expect text c) cs (.error (.unexpected (skipBlanks cs))) := by
  refine (mirrors_skip cs).andThen ((mirrors_peek _).andThen ?_)
  rw [if_neg h]
  exact mirrors_refuse _

/-- The text that was moved over is cut out of the whole. -/
theorem runAt_slice {front rest : List Char} (h : front ++ rest <:+ text.toList) (pos : Nat) :
    (slice text (offsetOf text.toList (front ++ rest)) (offsetOf text.toList rest)).runAt pos =
      (.ok (String.ofList front), pos) := by
  obtain ⟨before, hbefore⟩ := h
  have hstart : offsetOf text.toList (front ++ rest) = byteCount before := by
    rw [← hbefore, offsetOf_append]
  have hstop : offsetOf text.toList rest = byteCount before + byteCount front := by
    rw [← hbefore, ← List.append_assoc, offsetOf_append, byteCount_append]
  have hslice : (charsFrom? text.toList (byteCount before)).bind
      (charsUpTo? · (byteCount front)) = some front := by
    rw [← hbefore, charsFrom?_append]
    exact charsUpTo?_append front rest
  rw [slice, hstart, hstop, Nat.add_sub_cancel_left, hslice]
  rfl

theorem mirrors_name {cs rest : List Char} {word : String}
    (h : readName (skipBlanks cs) = some (word, rest)) :
    Mirrors text (name text) cs (.ok (word, rest)) := by
  obtain ⟨c, tail, hcs, rfl, hc, hword, hmax⟩ := (readName_eq_some_iff ..).mp h
  have hcontinues : ∀ d ∈ c :: tail, continuesName d = true := by
    rintro d (_ | ⟨_, hd⟩)
    · simp [continuesName, isWordChar_of_startsName hc]
    · exact hword d hd
  have hdrop : (skipBlanks cs).dropWhile continuesName = rest := by
    rw [hcs, ← List.cons_append]
    exact (takeWhile_continuesName hcontinues hmax).2
  refine (mirrors_skip cs).andThen ((mirrors_get _).andThen ((mirrors_peek _).andThen ?_))
  rw [if_pos (by rw [hcs]; exact hc)]
  intro hsuffix
  refine ((mirrors_skipWhile continuesName (Nat.lt_succ_of_le hsuffix.length_le)).andThen
    ((mirrors_get _).andThen ?_)) hsuffix
  rw [hdrop]
  intro hrest
  rw [hcs, ← List.cons_append] at hsuffix ⊢
  exact ⟨List.suffix_rfl, runAt_slice hsuffix _⟩

theorem mirrors_name_none {cs : List Char} (h : readName (skipBlanks cs) = none) :
    Mirrors text (name text) cs (.error (.unexpected (skipBlanks cs))) := by
  refine (mirrors_skip cs).andThen ((mirrors_get _).andThen ((mirrors_peek _).andThen ?_))
  rw [if_neg]
  · exact mirrors_refuse _
  · cases hcs : skipBlanks cs with
    | nil => simp
    | cons c rest =>
      intro hc
      have hc : startsName c = true := hc
      simp [hcs, readName, hc] at h

/-- A keyword is moved over. -/
theorem mirrors_keyword {word cs after : List Char} (h : readKeyword word cs = some after) :
    Mirrors text (keyword text word) cs (.ok (true, after)) := by
  obtain ⟨rfl, hboundary⟩ := (readKeyword_eq_some_iff ..).mp h
  have hend : after.head?.any isWordChar = false := by
    rw [Option.any_eq_false]
    exact fun c hc => by simpa using hboundary c hc
  refine (mirrors_ahead _).andThen ?_
  rw [if_pos (List.isPrefixOf_iff_prefix.mpr (List.prefix_append word after)), charsFrom?_append]
  simp only [hend, Bool.false_eq_true, if_false]
  exact (mirrors_advance word after).andThen (mirrors_pure _ _)

/-- Where there is no keyword the position stays where it is. -/
theorem mirrors_keyword_none {word cs : List Char} (h : readKeyword word cs = none) :
    Mirrors text (keyword text word) cs (.ok (false, cs)) := by
  refine (mirrors_ahead cs).andThen ?_
  by_cases hword : word.isPrefixOf cs = true
  · obtain ⟨after, rfl⟩ := List.isPrefixOf_iff_prefix.mp hword
    rw [if_pos hword, charsFrom?_append]
    have hend : after.head?.any isWordChar = true := by
      by_contra hend
      have hsome : readKeyword word (word ++ after) = some after := by
        refine (readKeyword_eq_some_iff ..).mpr ⟨rfl, fun c hc => ?_⟩
        rw [Option.mem_def] at hc
        simpa [hc] using hend
      simp [hsome] at h
    simp only [hend, if_true]
    exact mirrors_pure _ _
  · rw [if_neg hword]
    exact mirrors_pure _ _

/-! ## Brackets and wildcards -/

/-- After its blanks a text is over, or a certain character stands there, or another one. -/
theorem skipBlanks_cases (cs : List Char) (c : Char) :
    (∃ rest, skipBlanks cs = c :: rest) ∨ (skipBlanks cs).head? ≠ some c := by
  cases hcs : skipBlanks cs with
  | nil => simp
  | cons d rest =>
    by_cases h : d = c
    · exact .inl ⟨rest, by rw [h]⟩
    · exact .inr (by simpa using h)

theorem readDims_of_opening {t : TypeExpr} {cs inner : List Char}
    (h : skipBlanks cs = '[' :: inner) :
    readDims false t cs = readDims true t inner := by
  rw [← Registry.readDims_skipBlanks, h]
  simp [readDims, isBlank_of_skipBlanks h]

theorem readDims_of_not_opening {t : TypeExpr} {cs : List Char}
    (h : (skipBlanks cs).head? ≠ some '[') : readDims false t cs = .ok (t, skipBlanks cs) := by
  rw [← Registry.readDims_skipBlanks]
  cases hcs : skipBlanks cs with
  | nil => rfl
  | cons c rest =>
    have hc : c ≠ '[' := by
      rintro rfl
      simp [hcs] at h
    simp [readDims, isBlank_of_skipBlanks hcs, hc]

theorem readDims_of_not_closing {t : TypeExpr} {cs : List Char}
    (h : (skipBlanks cs).head? ≠ some ']') :
    readDims true t cs = .error (.unexpected (skipBlanks cs)) := by
  rw [← Registry.readDims_skipBlanks]
  cases hcs : skipBlanks cs with
  | nil => rfl
  | cons c rest =>
    have hc : c ≠ ']' := by
      rintro rfl
      simp [hcs] at h
    simp [readDims, isBlank_of_skipBlanks hcs, hc]

theorem mirrors_dims {steps : Nat} {t : TypeExpr} {cs : List Char} (h : cs.length < steps) :
    Mirrors text (dims text steps t) cs (readDims false t cs) := by
  induction steps generalizing t cs with
  | zero => simp at h
  | succ steps ih =>
    rw [dims]
    refine (mirrors_skip cs).andThen ((mirrors_peek _).andThen ?_)
    rcases skipBlanks_cases cs '[' with ⟨inner, hopening⟩ | hopening
    · rw [readDims_of_opening hopening, hopening, List.head?_cons, if_pos rfl]
      refine (mirrors_bump _ _).andThen ?_
      rcases skipBlanks_cases inner ']' with ⟨rest, hclosing⟩ | hclosing
      · have hlength : rest.length < steps := by
          have hcs := skipBlanks_length_le cs
          have hinner := skipBlanks_length_le inner
          rw [hopening, List.length_cons] at hcs
          rw [hclosing, List.length_cons] at hinner
          omega
        refine (mirrors_expect hclosing).andThen ?_
        rw [← Registry.readDims_skipBlanks, hclosing]
        cases hfull : t.isFull with
        | true =>
          rw [Registry.readDims_closing_of_full hfull]
          exact mirrors_throw _ .tooManyDimensions fun _ => trivial
        | false =>
          rw [Registry.readDims_closing hfull]
          exact ih hlength
      · rw [readDims_of_not_closing hclosing]
        exact (mirrors_expect_other hclosing).stop
    · rw [readDims_of_not_opening hopening, if_neg hopening]
      exact mirrors_pure _ _

/-- Reading brackets, with a step for every character of the text. -/
theorem mirrors_dims_length (t : TypeExpr) (cs : List Char) :
    Mirrors text (dims text (text.toList.length + 1) t) cs (readDims false t cs) :=
  fun hcs => mirrors_dims (Nat.lt_succ_of_le hcs.length_le) hcs

theorem mirrors_wildcardEnd (wildcard : TypeExpr) (cs : List Char) :
    Mirrors text (wildcardEnd text wildcard) cs (Registry.endWildcard wildcard cs) := by
  refine (mirrors_skip cs).andThen ((mirrors_peek _).andThen ?_)
  rw [Registry.endWildcard]
  rcases skipBlanks_cases cs '[' with ⟨inner, hopening⟩ | hopening
  · rw [hopening, List.head?_cons, if_pos rfl]
    exact mirrors_throw _ .misplacedWildcard fun _ => trivial
  · rw [if_neg hopening]
    split
    · rename_i inner hcs
      simp [hcs] at hopening
    · exact mirrors_pure _ _

/-! ## The parts of the reader -/

variable (text) (r : Registry) (scope : List TypeVarId)

/--
Within enough steps both readers do the same.  A character is worth two steps: the arguments of a
type take three more than the type, and at least two characters stand before them.
-/
structure MirrorsWithin (steps : Nat) : Prop where
  type : ∀ cs : List Char, 2 * cs.length + 1 ≤ steps →
    Mirrors text (type text r scope steps) cs (r.readTypeWithin scope steps cs)
  arguments : ∀ cs : List Char, 2 * cs.length + 3 ≤ steps →
    Mirrors text (arguments text r scope steps) cs (r.readArgsWithin scope steps cs)
  argument : ∀ cs : List Char, 2 * cs.length + 2 ≤ steps →
    Mirrors text (argument text r scope steps) cs (r.readArgWithin scope steps cs)
  wildcard : ∀ cs inner : List Char, skipBlanks cs = '?' :: inner → 2 * inner.length + 2 ≤ steps →
    Mirrors text (wildcard text r scope steps) cs (r.readBoundWithin scope steps inner)

variable {text r scope}

theorem length_lt_of_readName {cs after : List Char} {name : String}
    (h : readName (skipBlanks cs) = some (name, after)) : after.length < cs.length := by
  obtain ⟨c, word, hcs, -⟩ := (readName_eq_some_iff ..).mp h
  have hlength := skipBlanks_length_le cs
  simp only [hcs, List.length_cons, List.length_append] at hlength
  omega

theorem length_lt_of_skipBlanks {cs rest : List Char} {c : Char} (h : skipBlanks cs = c :: rest) :
    rest.length < cs.length := by
  have hlength := skipBlanks_length_le cs
  rw [h, List.length_cons] at hlength
  omega

theorem applyClass_eq_error {c : ClassId} {name : String} {args : List TypeExpr}
    {fault : TypeTextFault} (h : r.applyClass c name args = .error fault) (pos : Nat) :
    fault.IsAt text pos := by
  rw [Registry.applyClass] at h
  split at h
  · simp at h
  · rw [← Except.error.inj h]
    trivial

/-- Both readers do the same with what follows the name of a type. -/
theorem mirrors_type {steps : Nat} (h : MirrorsWithin text r scope steps) {cs : List Char}
    (hsteps : 2 * cs.length ≤ steps) :
    Mirrors text (type text r scope (steps + 1)) cs (r.readTypeWithin scope (steps + 1) cs) := by
  rw [type, Registry.readTypeWithin_succ]
  cases hname : readName (skipBlanks cs) with
  | none => exact (mirrors_name_none hname).stop
  | some found =>
    obtain ⟨name, after⟩ := found
    refine (mirrors_name hname).andThen ?_
    cases hvar : r.scopeVar? scope name with
    | some v =>
      simp only [Registry.readNamed, hvar]
      exact mirrors_dims_length _ _
    | none =>
      cases hclass : r.lookup? name with
      | none =>
        simp only [Registry.readNamed, hvar, hclass]
        exact mirrors_throw _ (.unknownType name) fun _ => trivial
      | some c =>
        simp only [Registry.readNamed, hvar, hclass]
        refine (mirrors_skip after).andThen ((mirrors_peek _).andThen ?_)
        rcases skipBlanks_cases after '<' with ⟨inner, hless⟩ | hless
        · have hlength : 2 * inner.length + 3 ≤ steps := by
            have := length_lt_of_readName hname
            have := length_lt_of_skipBlanks hless
            omega
          simp only [hless, List.head?_cons, if_true]
          refine (mirrors_bump _ _).andThen ?_
          refine (h.arguments inner hlength).bind fun args inside _ => ?_
          cases happly : r.applyClass c name args with
          | ok t => exact mirrors_dims_length t inside
          | error fault => exact mirrors_throw _ fault (applyClass_eq_error happly)
        · rw [if_neg hless]
          split
          · rename_i inner hcs
            simp [hcs] at hless
          · exact mirrors_dims_length _ _

theorem mirrors_arguments {steps : Nat} (h : MirrorsWithin text r scope steps) {cs : List Char}
    (hsteps : 2 * cs.length + 2 ≤ steps) :
    Mirrors text (arguments text r scope (steps + 1)) cs
      (r.readArgsWithin scope (steps + 1) cs) := by
  rw [arguments, Registry.readArgsWithin]
  refine (h.argument cs hsteps).bind fun arg after hafter => ?_
  refine (mirrors_skip after).andThen ((mirrors_peek _).andThen ?_)
  have hlength : after.length ≤ cs.length := by
    obtain ⟨front, rfl, -⟩ := (Registry.readsAhead steps).argument _ _ _ hafter
    simp
  dsimp only
  rcases skipBlanks_cases after ',' with ⟨inner, hcomma⟩ | hcomma
  · have hinner := length_lt_of_skipBlanks hcomma
    simp only [hcomma, List.head?_cons]
    exact (mirrors_bump _ _).andThen ((h.arguments inner (by omega)).bind fun args rest _ =>
      mirrors_pure _ _)
  rcases skipBlanks_cases after '>' with ⟨inner, hgreater⟩ | hgreater
  · simp only [hgreater, List.head?_cons]
    exact (mirrors_bump _ _).andThen (mirrors_pure _ _)
  · split
    · contradiction
    · contradiction
    · split
      · rename_i hcs
        simp [hcs] at hcomma
      · rename_i hcs
        simp [hcs] at hgreater
      · exact mirrors_refuse _

theorem mirrors_argument {steps : Nat} (h : MirrorsWithin text r scope steps) {cs : List Char}
    (hsteps : 2 * cs.length + 1 ≤ steps) :
    Mirrors text (argument text r scope (steps + 1)) cs
      (r.readArgWithin scope (steps + 1) cs) := by
  rw [argument, Registry.readArgWithin]
  refine (mirrors_skip cs).andThen ((mirrors_peek _).andThen ?_)
  rcases skipBlanks_cases cs '?' with ⟨inner, hquestion⟩ | hquestion
  · have hlength := length_lt_of_skipBlanks hquestion
    have hskip : skipBlanks (skipBlanks cs) = '?' :: inner := by
      rw [skipBlanks_skipBlanks, hquestion]
    have hwildcard := h.wildcard (skipBlanks cs) inner hskip (by omega)
    simp only [hquestion, List.head?_cons, if_true] at hwildcard ⊢
    exact hwildcard
  · have hlength := skipBlanks_length_le cs
    rw [if_neg hquestion]
    split
    · rename_i inner hcs
      simp [hcs] at hquestion
    · exact h.type _ (by omega)

theorem mirrors_wildcard {steps : Nat} (h : MirrorsWithin text r scope steps) {cs inner : List Char}
    (hquestion : skipBlanks cs = '?' :: inner) (hsteps : 2 * inner.length + 1 ≤ steps) :
    Mirrors text (wildcard text r scope (steps + 1)) cs
      (r.readBoundWithin scope (steps + 1) inner) := by
  rw [wildcard, Registry.readBoundWithin_succ]
  refine (mirrors_expect hquestion).andThen ((mirrors_skip inner).andThen ?_)
  have hlength := skipBlanks_length_le inner
  have hshorter : ∀ {word after}, readKeyword word (skipBlanks inner) = some after →
      after.length ≤ inner.length := by
    intro word after hafter
    rw [((readKeyword_eq_some_iff ..).mp hafter).1, List.length_append] at hlength
    omega
  cases hextends : readKeyword "extends".toList (skipBlanks inner) with
  | some after =>
    have hafter := hshorter hextends
    exact (mirrors_keyword hextends).andThen
      ((h.type after (by omega)).bind fun b rest _ => mirrors_wildcardEnd _ _)
  | none =>
    refine (mirrors_keyword_none hextends).andThen ?_
    cases hsuper : readKeyword "super".toList (skipBlanks inner) with
    | some after =>
      have hafter := hshorter hsuper
      exact (mirrors_keyword hsuper).andThen
        ((h.type after (by omega)).bind fun b rest _ => mirrors_wildcardEnd _ _)
    | none =>
      refine (mirrors_keyword_none hsuper).andThen ?_
      have hend : Mirrors text _ _ _ := mirrors_wildcardEnd .unbounded (skipBlanks inner)
      rwa [Registry.endWildcard, skipBlanks_skipBlanks, ← Registry.endWildcard] at hend

/-- All parts of the two readers do the same.  The induction is on the steps. -/
theorem mirrorsWithin (steps : Nat) : MirrorsWithin text r scope steps := by
  induction steps with
  | zero =>
    exact {
      type := fun _ h => by omega
      arguments := fun _ h => by omega
      argument := fun _ h => by omega
      wildcard := fun _ _ _ h => by omega }
  | succ steps ih =>
    exact {
      type := fun _ h => mirrors_type ih (by omega)
      arguments := fun _ h => mirrors_arguments ih (by omega)
      argument := fun _ h => mirrors_argument ih (by omega)
      wildcard := fun _ _ hquestion h => mirrors_wildcard ih hquestion (by omega) }

/-! ## Whole texts -/

variable (text r scope)

/-- How reading a whole text ends: with an error of a part, with something left over, or well. -/
theorem runAt_whole_cases :
    (∃ fault pos, r.readWhole scope text.toList = .error fault ∧ fault.IsAt text pos ∧
        (whole text r scope).runAt 0 = (.error (.refused (fault.toError text)), pos)) ∨
      (∃ front c after t, text.toList = front ++ c :: after ∧ isBlank c = false ∧
        r.readWhole scope front = .ok t ∧
        r.readWhole scope text.toList = .error (.trailing (c :: after)) ∧
        (whole text r scope).runAt 0 =
          (.error (.refused (.trailingInput text (byteCount front))), byteCount front)) ∨
      ∃ t, r.readWhole scope text.toList = .ok t ∧
        (whole text r scope).runAt 0 = (.ok t, text.utf8ByteSize) := by
  have hargument : Agrees text text.toList
      ((argument text r scope (2 * text.toList.length + 4)).runAt
        (offsetOf text.toList text.toList))
      (r.readArgWithin scope (2 * text.toList.length + 4) text.toList) :=
    (mirrorsWithin _).argument text.toList (by omega) List.suffix_rfl
  rw [offsetOf_self] at hargument
  rw [Registry.readWhole, whole, runAt_bind]
  generalize (argument text r scope (2 * text.toList.length + 4)).runAt 0 = outcome at hargument ⊢
  obtain ⟨answer, pos⟩ := outcome
  cases hread : r.readArgWithin scope (2 * text.toList.length + 4) text.toList with
  | error fault =>
    rw [hread] at hargument
    obtain ⟨hat, rfl⟩ : fault.IsAt text pos ∧ answer = .error (.refused (fault.toError text)) :=
      hargument
    exact .inl ⟨fault, pos, rfl, hat, rfl⟩
  | ok found =>
    obtain ⟨t, rest⟩ := found
    rw [hread] at hargument
    obtain ⟨hrest, heq⟩ := hargument
    obtain ⟨rfl, rfl⟩ := Prod.mk.inj heq
    obtain ⟨front, hfront, hend, hwhole⟩ := Registry.readWhole_of_readArgWithin hread
    obtain ⟨-, hskip⟩ := mirrors_skip rest hrest
    rw [hend] at hskip
    simp only [runAt_bind, hskip]
    cases rest with
    | nil =>
      have hpos : offsetOf text.toList [] = text.utf8ByteSize := by
        rw [offsetOf_nil, byteCount_toList]
      refine .inr (.inr ⟨t, by simp [bind, Except.bind, skipBlanks, pure, Except.pure], ?_⟩)
      rw [hpos]
      change (if text.utf8ByteSize = text.utf8ByteSize then (pure t : Cursor TypeExpr) else _).runAt
        text.utf8ByteSize = _
      rw [if_pos rfl]
      rfl
    | cons c after =>
      have hpos : offsetOf text.toList (c :: after) = byteCount front := by
        rw [hfront, offsetOf_append]
      have hne : byteCount front ≠ text.utf8ByteSize := by
        rw [← byteCount_toList]
        exact (byteCount_lt hfront).ne
      refine .inr (.inl ⟨front, c, after, t, hfront, isBlank_of_skipBlanks hend, hwhole, ?_, ?_⟩)
      · simp only [bind, Except.bind, hend]
      · rw [hpos]
        change (if byteCount front = text.utf8ByteSize then (pure t : Cursor TypeExpr)
          else throw (.refused (.trailingInput text (byteCount front)))).runAt (byteCount front) = _
        rw [if_neg hne]
        rfl

end Cursor

end

namespace Registry

/--
Reading a text by byte positions ends, never stands inside of a character, and gives what reading it
by characters gives.  If it stops at something unexpected, the character named stands at the offset
named; at an unexpected end the whole text has been moved over; and if something is left over at an
offset, that is no blank, and the text before it can be read by itself.
-/
theorem parseTypeIn_error_places (r : Registry) (scope : List TypeVarId) (text : String) :
    (∃ pos, (Cursor.whole text r scope).runAt 0 =
        ((r.parseTypeIn scope text).mapError .refused, pos) ∧
      ∀ input, r.parseTypeIn scope text = .error (.unexpectedEnd input) →
        input = text ∧ pos = text.utf8ByteSize) ∧
      (∀ input offset found,
        r.parseTypeIn scope text = .error (.unexpectedChar input offset found) →
          input = text ∧ offset < text.utf8ByteSize ∧ ∃ before after,
            text.toList = before ++ found :: after ∧ byteCount before = offset) ∧
      ∀ input offset, r.parseTypeIn scope text = .error (.trailingInput input offset) →
        input = text ∧ offset < text.utf8ByteSize ∧ ∃ before c after,
          text.toList = before ++ c :: after ∧ byteCount before = offset ∧ isBlank c = false ∧
            ∃ t, r.parseTypeIn scope (String.ofList before) = .ok t := by
  simp only [parseTypeIn]
  rcases Cursor.runAt_whole_cases text r scope with
    ⟨fault, pos, hread, hat, hrun⟩ | ⟨front, c, after, t, htext, hblank, hfront, hread, hrun⟩ |
      ⟨t, hread, hrun⟩
  · rw [hread, hrun]
    simp only [Except.mapError, Except.error.injEq]
    refine ⟨⟨pos, rfl, ?_⟩, ?_, ?_⟩
    · intro input hend
      obtain ⟨rfl, rfl⟩ := (TypeTextFault.toError_eq_unexpectedEnd_iff ..).mp hend
      exact ⟨rfl, by rw [hat.2, offsetOf_nil, byteCount_toList]⟩
    · intro input offset found hchar
      obtain ⟨rfl, rest, rfl, rfl⟩ := (TypeTextFault.toError_eq_unexpectedChar_iff ..).mp hchar
      obtain ⟨before, hbefore⟩ := hat.1
      have hoffset : offsetOf input.toList (found :: rest) = byteCount before := by
        rw [← hbefore, offsetOf_append]
      rw [hoffset, ← byteCount_toList]
      exact ⟨rfl, byteCount_lt hbefore.symm, before, rest, hbefore.symm, rfl⟩
    · intro input offset htrailing
      obtain ⟨-, rest, rfl, -⟩ := (TypeTextFault.toError_eq_trailingInput_iff ..).mp htrailing
      exact hat.elim
  · have hoffset : offsetOf text.toList (c :: after) = byteCount front := by
      rw [htext, offsetOf_append]
    have herror : TypeTextFault.toError text (.trailing (c :: after)) =
        .trailingInput text (byteCount front) := by
      rw [TypeTextFault.toError, hoffset]
    rw [hread, hrun]
    simp only [Except.mapError, Except.error.injEq, herror]
    refine ⟨⟨_, rfl, by simp⟩, by simp, ?_⟩
    intro input offset htrailing
    obtain ⟨rfl, rfl⟩ : text = input ∧ byteCount front = offset := by simpa using htrailing
    rw [← byteCount_toList]
    refine ⟨rfl, byteCount_lt htext, front, c, after, htext, rfl, hblank, t, ?_⟩
    rw [String.toList_ofList, hfront]
  · rw [hread, hrun]
    exact ⟨⟨_, rfl, by simp [Except.mapError]⟩, by simp [Except.mapError],
      by simp [Except.mapError]⟩

end Registry

end TypeConversion
