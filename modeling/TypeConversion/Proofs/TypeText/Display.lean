import TypeConversion.Proofs.Assignable.Written
import TypeConversion.Proofs.Node.Display
import TypeConversion.Proofs.Registry.NameHistory
import TypeConversion.Proofs.TypeText.Reader

/-!
# Displayed types are read back

The reader of type texts and the display of nodes undo each other.  Both sides meet at the grammar:
a type that some text spells is displayed as a text that spells it, too.  The two texts differ in
blanks, and where a class of the implicit package was named by the last part of its name alone.

A wildcard is displayed as a question mark whatever its bounds are, and a generic class without its
arguments with question marks for them, so that neither is read back.

**Results**

* `Lexes.append`: two texts after one another are the tokens of both, if no name goes on from the
  first into the second;
* `lookup?_erasureName`: a class that is found by some name is found by its own name;
* `Derives.isShown`: what is derived from tokens is displayed as a text of such tokens;
* `parseType_display`: what is read of a text is read of its display.
-/

namespace TypeConversion

/-! ## Texts after one another -/

theorem IsName.of_rest {cs rest : List Char} {name : String} (h : IsName cs name rest)
    (rest' : List Char) (hrest : ∀ d ∈ rest'.head?, continuesName d = false) :
    IsName (name.toList ++ rest') name rest' := by
  obtain ⟨c, word, -, rfl, hc, hword, -⟩ := h
  exact ⟨c, word, by simp, rfl, hc, hword, hrest⟩

/-- A name by itself. -/
theorem IsName.whole {cs rest : List Char} {name : String} (h : IsName cs name rest) :
    IsName name.toList name [] := by
  simpa using h.of_rest [] (by simp)

theorem IsName.lexes {name : String} (h : IsName name.toList name []) :
    Lexes name.toList [.name name] :=
  .name h .nil

/-- Two texts after one another, unless a name goes on from the first into the second. -/
theorem Lexes.append {cs ds : List Char} {us vs : List Token} (h : Lexes cs us)
    (h' : Lexes ds vs) (hds : ∀ d ∈ ds.head?, continuesName d = false) :
    Lexes (cs ++ ds) (us ++ vs) := by
  induction h with
  | nil => exact h'
  | blank hc _ ih => exact .blank hc ih
  | mark hc _ ih => exact .mark hc ih
  | @name cs rest name ts hname _ ih =>
    obtain ⟨c, word, rfl, rfl, hc, hword, hrest⟩ := hname
    refine .name ⟨c, word, by simp, rfl, hc, hword, ?_⟩ ih
    cases rest with
    | nil => exact hds
    | cons d rest => exact hrest

theorem continuesName_of_char? {t : Token} {c : Char} (h : t.char? = some c) :
    continuesName c = false := by
  cases t <;> simp only [Token.char?, Option.some.injEq, reduceCtorEq] at h
  all_goals subst h; decide

/-- A mark ends the names before it. -/
theorem Lexes.append_mark {cs ds : List Char} {us vs : List Token} {t : Token} {c : Char}
    (h : Lexes cs us) (hc : t.char? = some c) (h' : Lexes ds vs) :
    Lexes (cs ++ c :: ds) (us ++ t :: vs) :=
  h.append (.mark hc h') (by simpa using continuesName_of_char? hc)

/-- The names among the tokens of a text are names by themselves. -/
theorem Lexes.isName_of_mem {cs : List Char} {ts : List Token} (h : Lexes cs ts) {name : String}
    (hname : .name name ∈ ts) : IsName name.toList name [] := by
  induction h with
  | nil => simp at hname
  | blank _ _ ih => exact ih hname
  | @mark c cs t ts hc _ ih =>
    rcases List.mem_cons.mp hname with rfl | hname
    · simp [Token.char?] at hc
    · exact ih hname
  | name hfirst _ ih =>
    rcases List.mem_cons.mp hname with heq | hname
    · obtain rfl := Token.name.inj heq
      exact hfirst.whole
    · exact ih hname

namespace Registry

variable {r : Registry}

/-! ## Names of classes -/

/-- A name in the implicit package. -/
theorem isName_implicitPackage {name : String} (h : IsName name.toList name []) :
    IsName (implicitPackage ++ name).toList (implicitPackage ++ name) [] := by
  obtain ⟨c, word, htext, -, hc, hword, -⟩ := h
  have hpackage : "ava.lang.".toList.all continuesName = true := by decide
  rw [List.append_nil] at htext
  refine ⟨'j', "ava.lang.".toList ++ c :: word, ?_, ?_, by decide, ?_, by simp⟩
  · rw [String.toList_append, htext]
    simp [implicitPackage]
  · rw [← htext, ← String.toList_inj]
    simp [implicitPackage]
  · intro d hd
    rcases List.mem_append.mp hd with hd | hd
    · exact List.all_eq_true.mp hpackage d hd
    · rcases List.mem_cons.mp hd with rfl | hd
      · simp [continuesName, isWordChar_of_startsName hc]
      · exact hword d hd

/-- A class that is found by some name is found by its own name, which is a name of types, too. -/
theorem lookup?_erasureName (hr : r.IndexSound) {name : String} {c : ClassId}
    (h : r.lookup? name = some c) (hname : IsName name.toList name []) :
    r.lookup? (r.erasureName (.ofClass c)) = some c ∧
      IsName (r.erasureName (.ofClass c)).toList (r.erasureName (.ofClass c)) [] := by
  have hown : ∀ found, r.index.find? found = some c → r.erasureName (.ofClass c) = found := by
    intro found hfound
    obtain ⟨d, hd, rfl⟩ := nameOf?_eq_some_iff.mp (hr found c hfound)
    simp [erasureName, Erasure.ofClass, hd]
  cases hfind : r.index.find? name with
  | some c' =>
    obtain rfl : c' = c := by simpa [lookup?, hfind] using h
    rw [hown name hfind]
    exact ⟨h, hname⟩
  | none =>
    have hfound : r.index.find? (implicitPackage ++ name) = some c := by
      simp only [lookup?, hfind] at h
      split at h
      · simp at h
      · exact h
    rw [hown _ hfound]
    exact ⟨by simp [lookup?, hfound], isName_implicitPackage hname⟩

/-- Where no variable is in scope, every name denotes a class. -/
theorem denotesClass_nil_iff (name : String) (c : ClassId) :
    r.DenotesClass [] name c ↔ r.lookup? name = some c := by
  simp [DenotesClass, DenotesVar]

end Registry

/-! ## Types that are displayed in full -/

namespace TypeExpr

mutual

/--
A type expression without wildcards in which no generic class stands without its arguments, not even
as the element of an array.
-/
def IsExplicit (r : Registry) : TypeExpr → Prop
  | plain e => r.typeParameters e.element = []
  | parameterized _ args owner => AllExplicit r args ∧ OptionExplicit r owner
  | genericArray component => IsExplicit r component
  | wildcard .. => False
  | typeVar _ => True

def AllExplicit (r : Registry) : List TypeExpr → Prop
  | [] => True
  | t :: rest => IsExplicit r t ∧ AllExplicit r rest

def OptionExplicit (r : Registry) : Option TypeExpr → Prop
  | none => True
  | some t => IsExplicit r t

end

theorem IsExplicit.of_arrayOf {r : Registry} {t : TypeExpr} (h : t.arrayOf.IsExplicit r) :
    t.IsExplicit r := by
  rcases t.arrayOf_cases with ⟨e, a, rfl, ha, harray⟩ | harray
  · obtain ⟨-, rfl⟩ := (Erasure.array?_eq_some_iff e a).mp ha
    simpa only [harray, IsExplicit] using h
  · simpa only [harray, IsExplicit] using h

/-- The array of a type has it as its component. -/
theorem component?_arrayOf (t : TypeExpr) : t.arrayOf.component? = some t := by
  rcases t.arrayOf_cases with ⟨e, a, rfl, ha, harray⟩ | harray
  · rw [harray, component?, Erasure.component?_of_array? ha]
    rfl
  · rw [harray, component?]

theorem isArray_arrayOf (t : TypeExpr) : t.arrayOf.isArray = true := by
  rcases t.arrayOf_cases with ⟨e, a, rfl, ha, harray⟩ | harray
  · rw [harray, isArray, Erasure.isArray_of_array? ha]
  · rw [harray, isArray]

end TypeExpr

namespace Registry

open Node

variable {r : Registry}

/-- The types that tokens spell are explicit. -/
def Phrase.IsExplicit (r : Registry) : Phrase → Prop
  | type t | argument t => t.IsExplicit r
  | arguments ts => TypeExpr.AllExplicit r ts

/-- What tokens spell is displayed as a text that spells it. -/
def Phrase.IsShown (r : Registry) : Phrase → Prop
  | type t | argument t => ∃ text ts, DisplayIs r (some (ofExpr t)) text ∧
      Lexes text.toList ts ∧ r.Derives [] (.type t) ts
  | arguments args => ∃ texts ts, DisplaysAre r (args.map fun a => some (ofExpr a)) texts ∧
      Lexes (joinTexts ", " texts).toList ts ∧ r.Derives [] (.arguments args) ts

section

variable {c : ClassId}

theorem isShown_ofClass (hlookup : r.lookup? (r.erasureName (.ofClass c)) = some c)
    (hword : IsName (r.erasureName (.ofClass c)).toList (r.erasureName (.ofClass c)) [])
    (hc : (TypeExpr.ofClass c).IsExplicit r) : (Phrase.type (.ofClass c)).IsShown r := by
  have hhead : (ofExpr (.ofClass c)).expr.head? = some (.ofClass c) := rfl
  have hargs : GenericsAre r (ofExpr (.ofClass c)) [] := by
    refine (genericsAre_plain_iff ..).mpr ?_
    have hparams : r.typeParameters c = [] := hc
    simp [hparams]
  refine ⟨_, _, ?_, hword.lexes, .ofClass ((denotesClass_nil_iff ..).mpr hlookup)⟩
  exact displayIs_of_resolvesTo (arrayIs_of_head? hhead) (resolvesTo_of_head? hhead) rfl hargs
    displaysAre_nil

theorem isShown_applied {args : List TypeExpr}
    (hlookup : r.lookup? (r.erasureName (.ofClass c)) = some c)
    (hword : IsName (r.erasureName (.ofClass c)).toList (r.erasureName (.ofClass c)) [])
    (hlength : args.length = (r.typeParameters c).length) (hne : args ≠ [])
    (hargs : (Phrase.arguments args).IsShown r) :
    (Phrase.type (.parameterized c args none)).IsShown r := by
  obtain ⟨texts, ts, htexts, hlexes, hderives⟩ := hargs
  have hhead : (ofExpr (.parameterized c args none)).expr.head? = some (.ofClass c) := rfl
  refine ⟨r.erasureName (.ofClass c) ++ "<" ++ joinTexts ", " texts ++ ">", _, ?_, ?_,
    .applied ((denotesClass_nil_iff ..).mpr hlookup) hderives hlength⟩
  · simpa [hne] using displayIs_of_resolvesTo (arrayIs_of_head? hhead)
      (resolvesTo_of_head? hhead) rfl ((genericsAre_parameterized_iff ..).mpr rfl) htexts
  · simpa using hword.lexes.append_mark (t := .less) rfl
      (hlexes.append_mark (t := .greater) rfl .nil)

end

theorem isShown_array {t : TypeExpr} (ht : (Phrase.type t).IsShown r) (hdims : t.isFull = false) :
    (Phrase.type t.arrayOf).IsShown r := by
  obtain ⟨text, ts, htext, hlexes, hderives⟩ := ht
  refine ⟨text ++ "[]", _, ?_, ?_, .array hderives hdims⟩
  · refine displayIs_array ?_ (componentIs_ofExpr t.isArray_arrayOf) ?_
    · rcases t.arrayOf_cases with ⟨e, a, -, ha, harray⟩ | harray
      · exact (arrayIs_of_plain (by rw [harray]; rfl) _).mpr (Erasure.isArray_of_array? ha).symm
      · exact (arrayIs_of_genericArray (by rw [harray]; rfl) _).mpr rfl
    · simpa [TypeExpr.component?_arrayOf] using htext
  · rw [String.toList_append]
    exact hlexes.append_mark rfl (.mark rfl .nil)

theorem isShown_single {t : TypeExpr} (ht : (Phrase.argument t).IsShown r) :
    (Phrase.arguments [t]).IsShown r := by
  obtain ⟨text, ts, htext, hlexes, hderives⟩ := ht
  exact ⟨[text], ts, displaysAre_cons htext displaysAre_nil, hlexes, .single (.ofType hderives)⟩

theorem isShown_more {t : TypeExpr} {rest : List TypeExpr} (hne : rest ≠ [])
    (ht : (Phrase.argument t).IsShown r) (hrest : (Phrase.arguments rest).IsShown r) :
    (Phrase.arguments (t :: rest)).IsShown r := by
  obtain ⟨text, ts, htext, hlexes, hderives⟩ := ht
  obtain ⟨texts, us, htexts, hlexes', hderives'⟩ := hrest
  refine ⟨text :: texts, _, displaysAre_cons htext htexts, ?_, .more (.ofType hderives) hderives'⟩
  have hjoin : joinTexts ", " (text :: texts) = text ++ ", " ++ joinTexts ", " texts := by
    cases texts with
    | nil => exact absurd rfl (htexts.ne_nil (by simpa using hne))
    | cons text' texts => rfl
  rw [hjoin]
  have hblank : Lexes (' ' :: (joinTexts ", " texts).toList) us := .blank (by decide) hlexes'
  simpa using hlexes.append_mark (t := .comma) rfl hblank

theorem Derives.ne_nil {args : List TypeExpr} {ts : List Token}
    (h : r.Derives [] (.arguments args) ts) : args ≠ [] := by
  cases h <;> simp

/-- What explicit types are derived from is displayed as a text of tokens that spell them. -/
theorem Derives.isShown (hr : r.IndexSound) {p : Phrase} {ts : List Token}
    (h : r.Derives [] p ts) (hp : p.IsExplicit r)
    (hnames : ∀ name, .name name ∈ ts → IsName name.toList name []) : p.IsShown r := by
  induction h with
  | ofVariable hv =>
    obtain ⟨-, before, after, hscope, -⟩ := hv
    simp at hscope
  | ofClass hc =>
    obtain ⟨hlookup, hword⟩ :=
      lookup?_erasureName hr ((denotesClass_nil_iff ..).mp hc) (hnames _ (by simp))
    exact isShown_ofClass hlookup hword hp
  | applied hc hargs hlength ih =>
    obtain ⟨hlookup, hword⟩ :=
      lookup?_erasureName hr ((denotesClass_nil_iff ..).mp hc) (hnames _ (by simp))
    exact isShown_applied hlookup hword hlength hargs.ne_nil
      (ih hp.1 fun name h => hnames name (by simp [h]))
  | array _ hdims ih =>
    exact isShown_array (ih hp.of_arrayOf fun name h => hnames name (by simp [h])) hdims
  | ofType _ ih => exact ih hp hnames
  | unbounded | extending _ | superOf _ => exact hp.elim
  | single _ ih => exact isShown_single (ih hp.1 hnames)
  | more _ hrest ih ihrest =>
    exact isShown_more hrest.ne_nil (ih hp.1 fun name h => hnames name (by simp [h]))
      (ihrest hp.2 fun name h => hnames name (by simp [h]))

theorem parseType_eq_ok_iff {text : String} {e : TypeExpr} :
    r.parseType text = .ok e ↔ ∃ ts, Lexes text.toList ts ∧ r.Derives [] (.argument e) ts := by
  rw [parseType, parseTypeIn, ← readWhole_eq_ok_iff]
  cases r.readWhole [] text.toList <;> simp [Except.mapError]

/--
In every registry that comes about by changes of the bootstrap registry, a text that is read as an
explicit type expression is read as the same one again after it was displayed.
-/
theorem parseType_display {history : List RegistryChange}
    (hsize : (bootstrap.after history).classes.size ≤ UInt32.size) {text : String} {e : TypeExpr}
    (hread : (bootstrap.after history).parseType text = .ok e)
    (hexplicit : e.IsExplicit (bootstrap.after history)) :
    ∃ shown,
      (∀ᶠ limit in Filter.atTop,
        display (bootstrap.after history) limit (some (ofExpr e)) = some shown) ∧
      (bootstrap.after history).parseType shown = .ok e := by
  obtain ⟨ts, hlexes, hderives⟩ := parseType_eq_ok_iff.mp hread
  have hnames : ∀ name, .name name ∈ ts → IsName name.toList name [] :=
    fun name h => hlexes.isName_of_mem h
  obtain ⟨shown, us, hshown, hlexes', hderives'⟩ :=
    hderives.isShown (indexSound_after indexSound_bootstrap hsize) hexplicit hnames
  exact ⟨shown, hshown.eventually (display_steady _ _),
    parseType_eq_ok_iff.mpr ⟨us, hlexes', .ofType hderives'⟩⟩

/-- A class outside of all packages is entered. -/
def withBox : List RegistryChange := [.intern "Box"]

/-- Arrays of what compares with the arrays of that class. -/
def comparableBoxes : TypeExpr :=
  (TypeExpr.parameterized Bootstrap.wellKnown.comparable [.arrayOfClass ⟨37⟩] none).arrayOf

/-- One name is written without its package and is displayed with it. -/
theorem parseType_display_comparableBoxes :
    (bootstrap.after withBox).classes.size ≤ UInt32.size ∧
      (bootstrap.after withBox).parseType "Comparable<Box[]>[]" = .ok comparableBoxes ∧
      comparableBoxes.IsExplicit (bootstrap.after withBox) ∧
      ∃ shown,
        (∀ᶠ limit in Filter.atTop,
          display (bootstrap.after withBox) limit (some (ofExpr comparableBoxes)) = some shown) ∧
        (bootstrap.after withBox).parseType shown = .ok comparableBoxes := by
  have hsize : (bootstrap.after withBox).classes.size ≤ UInt32.size := by decide
  have hbox : IsName "Box".toList "Box" [] :=
    ⟨'B', ['o', 'x'], rfl, rfl, by decide, List.all_eq_true.mp (by decide), by simp⟩
  have hcomparable : IsName "Comparable".toList "Comparable" [] :=
    ⟨'C', "omparable".toList, rfl, rfl, by decide, List.all_eq_true.mp (by decide), by simp⟩
  have hlexes : Lexes "Comparable<Box[]>[]".toList [.name "Comparable", .less, .name "Box",
      .opening, .closing, .greater, .opening, .closing] :=
    hcomparable.lexes.append_mark rfl (hbox.lexes.append_mark rfl
      (.mark rfl (.mark rfl (.mark rfl (.mark rfl .nil)))))
  have hderives : (bootstrap.after withBox).Derives [] (.argument comparableBoxes)
      [.name "Comparable", .less, .name "Box", .opening, .closing, .greater, .opening, .closing] :=
    .ofType (.array (.applied ((denotesClass_nil_iff ..).mpr (by decide))
      (.single (.ofType (.array (.ofClass ((denotesClass_nil_iff ..).mpr (by decide))) rfl)))
      rfl) rfl)
  have hread := parseType_eq_ok_iff.mpr ⟨_, hlexes, hderives⟩
  have hexplicit : comparableBoxes.IsExplicit (bootstrap.after withBox) :=
    ⟨⟨rfl, trivial⟩, trivial⟩
  exact ⟨hsize, hread, hexplicit, parseType_display hsize hread hexplicit⟩

end Registry

end TypeConversion
