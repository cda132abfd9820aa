import TypeConversion.Proofs.Conversion.Scalars
import TypeConversion.Proofs.Conversion.Wholes

/-!
# Integers are converted exactly or not at all

Between two integral types of different kinds, boxed or not, the converter between numbers is the
only one that is met, and takes the types.  Between types of one kind it is the only one as well,
but turns them down, so that the value passes through.  Either way an integer is given as the same
integer where the target's range has it, and refused where it has not.

**Results**

* `eq_numberToNumber_of_pair`: between numbers no other converter is met;
* `numberToNumber_run_integer`: what it makes of an integer;
* `convertIn_number_of_ne`, `convertIn_number_of_eq`: it is used for numbers of different kinds,
  and those of one kind pass through;
* `convert_integral_exact`: the conversion as a whole, and the way back;
* `convert_integral_exact_numbers`: integers at both sides of a bound.
-/

namespace TypeConversion

open Attempt Registry

/-! ## Integral values -/

/-- The integer that a value is. -/
def Value.integer? : Value → Option Int
  | .byte n => some n.toInt
  | .short n => some n.toInt
  | .int n => some n.toInt
  | .long n => some n.toInt
  | _ => none

namespace NumericKind

/-- The primitive class of a kind. -/
def primitive (r : Registry) : NumericKind → ClassId
  | byte => r.wellKnown.primByte
  | short => r.wellKnown.primShort
  | int => r.wellKnown.primInt
  | long => r.wellKnown.primLong
  | float => r.wellKnown.primFloat
  | double => r.wellKnown.primDouble

/-- The width of an integral kind in bits. -/
def bits? : NumericKind → Option Nat
  | byte => some 8
  | short => some 16
  | int => some 32
  | long => some 64
  | float | double => none

variable {kind : NumericKind} {bits : Nat} {n : Int}

/-- The range of an integral kind has the integers that fit its width. -/
theorem exists_range?_of_bits? (hbits : kind.bits? = some bits) (n : Int) :
    ∃ range, kind.range? = some range ∧
      (range.contains n = true ↔ -2 ^ (bits - 1) ≤ n ∧ n < 2 ^ (bits - 1)) := by
  cases kind with
  | byte | short | int | long =>
    obtain rfl := Option.some.inj hbits
    refine ⟨_, rfl, ?_⟩
    simp only [IntegerRange.contains, IntegerRange.signed, Bool.and_eq_true]
    norm_num
    omega
  | float | double => simp [bits?] at hbits

/-- A value of an integral kind is the integer that it is made from, if that fits. -/
theorem integer?_ofInteger (hbits : kind.bits? = some bits) (hlow : -2 ^ (bits - 1) ≤ n)
    (hhigh : n < 2 ^ (bits - 1)) : (kind.ofInteger n).integer? = some n := by
  cases kind with
  | byte =>
    obtain rfl := Option.some.inj hbits
    exact congrArg some (Int8.toInt_ofInt_of_le hlow hhigh)
  | short =>
    obtain rfl := Option.some.inj hbits
    exact congrArg some (Int16.toInt_ofInt_of_le hlow hhigh)
  | int =>
    obtain rfl := Option.some.inj hbits
    exact congrArg some (Int32.toInt_ofInt_of_le hlow hhigh)
  | long =>
    obtain rfl := Option.some.inj hbits
    exact congrArg some (Int64.toInt_ofInt_of_le hlow hhigh)
  | float | double => simp [bits?] at hbits

/-- The types of a kind are boxed as its box. -/
theorem boxed_of_type {r : Registry} (hbase : r.ExtendsBase) {e : Erasure}
    (he : e = .ofClass (kind.primitive r) ∨ e = .ofClass (kind.box r)) :
    r.boxed e = .ofClass (kind.box r) := by
  rw [hbase.boxed_eq]
  rcases he with rfl | rfl
  · cases kind <;> simp only [primitive, box, hbase.wellKnown] <;> rfl
  · cases kind <;> simp only [box, hbase.wellKnown] <;> rfl

/-- The types of a kind are classes without parameters and annotations. -/
theorem class?_of_type {r : Registry} (hbase : r.ExtendsBase) {e : Erasure}
    (he : e = .ofClass (kind.primitive r) ∨ e = .ofClass (kind.box r)) :
    e.isArray = false ∧ ∃ d, r.class? e.element = some d ∧ d.typeParams = [] ∧
      d.annotations = [] := by
  have hbootstrap : ∀ c ∈ [kind.primitive bootstrap, kind.box bootstrap],
      ∃ d, bootstrap.class? c = some d ∧ d.typeParams = [] ∧ d.annotations = [] := by
    cases kind <;> simp only [List.forall_mem_cons] <;>
      exact ⟨⟨_, rfl, rfl, rfl⟩, ⟨_, rfl, rfl, rfl⟩, by simp⟩
  have hclasses : e.element ∈ [kind.primitive bootstrap, kind.box bootstrap] := by
    rcases he with rfl | rfl
    · cases kind <;> simp only [primitive, hbase.wellKnown] <;> exact List.mem_cons_self
    · cases kind <;> simp only [box, hbase.wellKnown] <;>
        exact List.mem_cons_of_mem _ List.mem_cons_self
  obtain ⟨d, hd, hparams, hannotations⟩ := hbootstrap _ hclasses
  refine ⟨?_, d, hbase.classes _ _ hd, hparams, hannotations⟩
  rcases he with rfl | rfl <;> rfl

end NumericKind

/-- An integral value is its integer, in its own kind and within the range of that. -/
theorem Value.exists_kind_of_integer? {v : Value} {n : Int} (h : v.integer? = some n) :
    ∃ kind bits, NumericKind.bits? kind = some bits ∧ v = kind.ofInteger n ∧
      -2 ^ (bits - 1) ≤ n ∧ n < 2 ^ (bits - 1) := by
  cases v with
  | byte m =>
    obtain rfl := Option.some.inj h
    exact ⟨.byte, 8, rfl, congrArg _ (Int8.ofInt_toInt m).symm, m.le_toInt, m.toInt_lt⟩
  | short m =>
    obtain rfl := Option.some.inj h
    exact ⟨.short, 16, rfl, congrArg _ (Int16.ofInt_toInt m).symm, m.le_toInt, m.toInt_lt⟩
  | int m =>
    obtain rfl := Option.some.inj h
    exact ⟨.int, 32, rfl, congrArg _ (Int32.ofInt_toInt m).symm, m.le_toInt, m.toInt_lt⟩
  | long m =>
    obtain rfl := Option.some.inj h
    exact ⟨.long, 64, rfl, congrArg _ (Int64.ofInt_toInt m).symm, m.le_toInt, m.toInt_lt⟩
  | boolean | float | double | char | string | enumConstant | array | collection | object =>
    simp [Value.integer?] at h

theorem Value.ofValue?_of_integer? {v : Value} {n : Int} (h : v.integer? = some n) :
    AnyNumber.ofValue? v = some (.integral n) := by
  cases v <;> simp_all [Value.integer?, AnyNumber.ofValue?]

theorem Value.text_of_integer? {v : Value} {n : Int} (h : v.integer? = some n) :
    v.text = integerText n := by
  cases v <;> simp_all [Value.integer?, Value.text]

/-- An integer of 64 bits is a number of an integral kind if it fits its width. -/
theorem NumericKind.ofNumber?_integral {kind : NumericKind} {bits : Nat}
    (hbits : kind.bits? = some bits) {n : Int} (hlow : -2 ^ 63 ≤ n) (hhigh : n < 2 ^ 63) :
    kind.ofNumber? (.integral n) =
      if -2 ^ (bits - 1) ≤ n ∧ n < 2 ^ (bits - 1) then some (kind.ofInteger n) else none := by
  obtain ⟨range, hrange, hfits⟩ := exists_range?_of_bits? hbits n
  have hlong : (IntegerRange.signed 64).contains n = true := contains_signed hlow hhigh
  have hwhole : (AnyNumber.integral n).toInteger? = some n :=
    (Option.filter_eq_some_iff ..).mpr ⟨rfl, hlong⟩
  have hread : kind.ofNumber? (.integral n) =
      ((some n).filter range.contains).map kind.ofInteger := by
    cases kind with
    | byte | short | int | long => rw [← hwhole, ← Option.some.inj hrange]; rfl
    | float | double => simp [bits?] at hbits
  rw [hread]
  by_cases h : -2 ^ (bits - 1) ≤ n ∧ n < 2 ^ (bits - 1)
  · rw [if_pos h, Option.filter_some, if_pos (hfits.mpr h), Option.map_some]
  · rw [if_neg h, Option.filter_some, if_neg fun hin => h (hfits.mp hin), Option.map_none]

/-! ## The converter between numbers -/

namespace ConversionService

variable {r : Registry} {kind kind' : NumericKind}

/-- Boxes of numbers meet numbers and the top class, but neither strings nor anything with elements. -/
theorem classHierarchy_box (hbase : r.ExtendsBase) (kind : NumericKind) :
    .ofClass r.wellKnown.number ∈ r.classHierarchy (.ofClass (kind.box r)) ∧
      Builtin.stringClass r ∉ r.classHierarchy (.ofClass (kind.box r)) ∧
      Builtin.anyArray r ∉ r.classHierarchy (.ofClass (kind.box r)) ∧
      Builtin.collectionInterface r ∉ r.classHierarchy (.ofClass (kind.box r)) := by
  have hbox : kind.box r = kind.box bootstrap := by
    cases kind <;> simp only [NumericKind.box, hbase.wellKnown] <;> rfl
  have hdeclared : (bootstrap.class? (kind.box bootstrap)).isSome = true := by
    cases kind <;> rfl
  rw [hbox, hbase.classHierarchy_eq (ExtendsBase.isBase_of_isSome hdeclared), Builtin.stringClass,
    Builtin.anyArray, Builtin.collectionInterface, object, hbase.wellKnown]
  cases kind <;> decide +kernel

/-- Between numbers, boxed or not, there is no converter but the one between numbers. -/
theorem eq_numberToNumber_of_pair (hbase : r.ExtendsBase) {e : Erasure}
    (he : r.boxed e = .ofClass (kind'.box r)) {c : Converter} (hc : c ∈ Builtin.defaults r)
    {pair : ConvertiblePair} (hpair : pair ∈ c.pairs.getD [])
    (hfrom : pair.source ∈ r.classHierarchy (.ofClass (kind.box r)))
    (hto : pair.target ∈ r.classHierarchy e) : c = Builtin.numberToNumber r := by
  obtain ⟨-, hstring, harray, hcollection⟩ := classHierarchy_box hbase kind
  obtain ⟨-, hstring', -, -⟩ := classHierarchy_box hbase kind'
  rw [← he, hbase.classHierarchy_boxed] at hstring'
  rcases pair_cases hc hpair with heq | heq | rfl | rfl | rfl
  · exact absurd (heq ▸ hfrom) hstring
  · exact absurd (heq ▸ hto) hstring'
  · rfl
  · exact absurd hfrom harray
  · exact absurd hfrom hcollection

theorem meetsFirst_numbers (hbase : r.ExtendsBase) {e : Erasure}
    (he : r.boxed e = .ofClass (kind'.box r)) :
    MeetsFirst r (.ofClass (kind.box r)) e (Builtin.numberToNumber r) := by
  have hnumber := (classHierarchy_box hbase kind).1
  have hnumber' := (classHierarchy_box hbase kind').1
  rw [← he, hbase.classHierarchy_boxed] at hnumber'
  exact ⟨_, [], (List.append_nil _).symm,
    ⟨by simp [Builtin.defaults], _, List.mem_cons_self, hnumber, hnumber'⟩,
    fun d hd pair hpair hfrom hto => eq_numberToNumber_of_pair hbase he hd hpair hfrom hto⟩

/-- An integer is given as that of the kind of the target, or else refused. -/
theorem numberToNumber_run_integer {v : Value} {n : Int} (hv : v.integer? = some n)
    {ctx : ConversionContext} {source target : TypeDescriptor}
    (htarget : NumericKind.ofErasure? target.registry target.erasure = some kind) {bits : Nat}
    (hbits : kind.bits? = some bits) :
    (Builtin.numberToNumber r).run ctx (some v) source target =
      if -2 ^ (bits - 1) ≤ n ∧ n < 2 ^ (bits - 1) then pure (some (kind.ofInteger n))
      else Converter.invalid ctx (integerText n) target "out of range" := by
  obtain ⟨own, width, hwidth, -, hlow, hhigh⟩ := Value.exists_kind_of_integer? hv
  have hlong : -2 ^ 63 ≤ n ∧ n < 2 ^ 63 := by
    cases own with
    | byte | short | int | long =>
      obtain rfl := Option.some.inj hwidth
      norm_num at hlow hhigh
      omega
    | float | double => simp [NumericKind.bits?] at hwidth
  simp only [Builtin.numberToNumber, Builtin.onValue, Value.ofValue?_of_integer? hv, htarget,
    NumericKind.ofNumber?_integral hbits hlong.1 hlong.2, Value.text_of_integer? hv]
  split <;> simp_all

/-- The converter between numbers takes those of different kinds. -/
theorem numberToNumber_accepts {ctx : ConversionContext} {source target : TypeDescriptor}
    (hsource : NumericKind.ofErasure? target.registry source.erasure = some kind)
    (htarget : NumericKind.ofErasure? target.registry target.erasure = some kind') :
    (Builtin.numberToNumber r).accepts ctx source target = some (decide (kind ≠ kind')) := by
  simp only [Converter.accepts, Builtin.numberToNumber, hsource, htarget]

section

variable {s : ConversionService} {config : ConversionConfig} (hbase : r.ExtendsBase)
  (hs : (bare r config).addDefaults = .ok s) (hfallback : config.noOpFallback = true)
  {ctx : ConversionContext} (hctx : ctx.registry = r)

include hbase hs hctx

/-- Numbers of different kinds are left to the converter between numbers. -/
theorem convertIn_number_of_ne {v : Value} (hv : v.erasure r = .ofClass (kind.box r))
    (hne : kind ≠ kind') {e : Erasure} (he : r.boxed e = .ofClass (kind'.box r)) :
    s.convertIn ctx (some v) none (s.descriptor e) =
      (Builtin.numberToNumber r).run ctx (some v) (.ofErasure r (.ofClass (kind.box r)))
        (.ofErasure r e) := by
  obtain ⟨rfl, -⟩ := onlyBuiltin_of_addDefaults hs
  have hkind : NumericKind.ofErasure? s.registry (.ofClass (kind.box s.registry)) = some kind :=
    NumericKind.ofErasure?_of_boxed hbase (NumericKind.boxed_of_type hbase (.inr rfl))
  have haccepts : (Builtin.numberToNumber s.registry).accepts ctx
      (s.descriptor (.ofClass (kind.box s.registry))) (s.descriptor e) =
        some (decide (kind ≠ kind')) :=
    numberToNumber_accepts hkind (NumericKind.ofErasure?_of_boxed hbase he)
  have hchosen : s.chooseConverter ctx (s.descriptor (.ofClass (kind.box s.registry)))
      (s.descriptor e) = some (some (Builtin.numberToNumber s.registry)) :=
    chooseConverter_of_meetsFirst hs hctx (meetsFirst_numbers hbase he)
      (haccepts.trans (congrArg some (decide_eq_true hne)))
  rw [convertIn, hv, Option.getD_none, hchosen]
  rfl

include hfallback

/-- Numbers of one kind pass through. -/
theorem convertIn_number_of_eq {v : Value} (hv : v.erasure r = .ofClass (kind.box r))
    {e : Erasure} (he : r.boxed e = .ofClass (kind.box r)) :
    (s.convertIn ctx (some v) none (s.descriptor e)).Gives (some v) := by
  obtain ⟨rfl, honly⟩ := onlyBuiltin_of_addDefaults hs
  obtain rfl := config_of_addDefaults hs
  have hkind : NumericKind.ofErasure? s.registry (.ofClass (kind.box s.registry)) = some kind :=
    NumericKind.ofErasure?_of_boxed hbase (NumericKind.boxed_of_type hbase (.inr rfl))
  have hrefuses : ∀ c ∈ s.converters.candidates s.registry (v.erasure s.registry)
      (s.descriptor e).erasure, Keeps ctx (s.descriptor (v.erasure s.registry)) (s.descriptor e) v
        c := by
    intro c hc
    obtain ⟨hbuiltin, pair, hpair, hfrom, hto⟩ := exists_pair_of_mem_candidates honly hc
    rw [hv] at hfrom
    obtain rfl := eq_numberToNumber_of_pair hbase he hbuiltin hpair hfrom hto
    have haccepts : (Builtin.numberToNumber s.registry).accepts ctx
        (s.descriptor (v.erasure s.registry)) (s.descriptor e) = some (decide (kind ≠ kind)) :=
      numberToNumber_accepts (by rw [hv]; exact hkind) (NumericKind.ofErasure?_of_boxed hbase he)
    exact .inl (haccepts.trans (by simp))
  rcases convertIn_of_keeps honly hctx hfallback hrefuses with hgives | ⟨hnot, -⟩
  · exact hgives
  · rw [hv] at hnot
    exact absurd (hnot.symm.trans (hbase.isAssignable_of_boxed he)) Bool.false_ne_true

end

/-! ## Conversions -/

/-- The text of a class without parameters and annotations is its name. -/
theorem display_ofErasure {e : Erasure} {d : ClassDef} (he : e.isArray = false)
    (hd : r.class? e.element = some d) (hparams : d.typeParams = [])
    (hannotations : d.annotations = []) (limit : Nat) :
    (TypeDescriptor.ofErasure r e).display (limit + 2) = some (r.erasureName e) := by
  obtain ⟨c, rfl⟩ := exists_eq_ofClass he
  have hgenerics : r.typeParameters c = [] := by
    have hd : r.class? c = some d := hd
    simp [Registry.typeParameters, hd, hparams]
  have hd : r.class? c = some d := hd
  simp [TypeDescriptor.display, TypeDescriptor.ofErasure, TypeDescriptor.isDefinite, hd,
    hannotations, Node.resolveOption, Node.resolve, Node.ofErasure, Node.ofExpr, Node.display,
    Node.isArray, Node.isOpenVariable, Node.generics, hgenerics]

/-- The outcome for an integral value and any integral type, boxed or not. -/
theorem convertTo_integer {s : ConversionService} {config : ConversionConfig}
    (hbase : r.ExtendsBase) (hs : (bare r config).addDefaults = .ok s)
    (hfallback : config.noOpFallback = true) {v : Value} {n : Int} (hv : v.integer? = some n)
    {bits : Nat} (hbits : kind.bits? = some bits) {e : Erasure}
    (he : e = .ofClass (kind.primitive r) ∨ e = .ofClass (kind.box r)) (limit : Nat) :
    (s.convertTo (limit + 2) (some v) e).run =
      some (if -2 ^ (bits - 1) ≤ n ∧ n < 2 ^ (bits - 1) then .ok (some (kind.ofInteger n))
        else .error (.invalidValue (integerText n) (r.erasureName e) "out of range")) := by
  obtain ⟨own, width, hwidth, heq, hfits⟩ := Value.exists_kind_of_integer? hv
  have hregistry : (s.context (limit + 2)).registry = r := by
    obtain ⟨rfl, -⟩ := onlyBuiltin_of_addDefaults hs
    rfl
  have hown : v.erasure r = .ofClass (own.box r) := heq ▸ NumericKind.erasure_ofInteger r own n
  have hboxed := NumericKind.boxed_of_type hbase he
  change (s.convertIn (s.context (limit + 2)) (some v) none (s.descriptor e)).run = _
  by_cases hne : own = kind
  · obtain rfl := hne
    obtain rfl : width = bits := Option.some.inj (hwidth.symm.trans hbits)
    rw [if_pos hfits, ← heq]
    exact convertIn_number_of_eq hbase hs hfallback hregistry hown hboxed
  · have hkind : NumericKind.ofErasure? r e = some kind :=
      NumericKind.ofErasure?_of_boxed hbase hboxed
    obtain ⟨hplain, d, hd, hparams, hannotations⟩ := NumericKind.class?_of_type hbase he
    have hkind : NumericKind.ofErasure? (TypeDescriptor.ofErasure r e).registry
        (TypeDescriptor.ofErasure r e).erasure = some kind := hkind
    rw [convertIn_number_of_ne hbase hs hregistry hown hne hboxed,
      numberToNumber_run_integer hv hkind hbits]
    split
    · rfl
    · have htext := display_ofErasure hplain hd hparams hannotations limit
      simp [Converter.invalid, Attempt.ofWalk, ExceptT.run_bind, ExceptT.run_mk, context, contextAt,
        htext]

/--
An integral value is converted to any integral type, boxed or not, exactly if the type has its
integer, and is refused otherwise.  Converted to a type that has it, it comes back as it was.
-/
theorem convert_integral_exact {s : ConversionService} {config : ConversionConfig}
    (hbase : r.ExtendsBase) (hs : (bare r config).addDefaults = .ok s)
    (hfallback : config.noOpFallback = true) {v : Value} {n : Int} (hv : v.integer? = some n)
    {bits : Nat} (hbits : kind.bits? = some bits) {e : Erasure}
    (he : e = .ofClass (kind.primitive r) ∨ e = .ofClass (kind.box r)) (limit : Nat) :
    (-2 ^ (bits - 1) ≤ n ∧ n < 2 ^ (bits - 1) →
      (s.convertTo (limit + 2) (some v) e).run = some (.ok (some (kind.ofInteger n))) ∧
        (kind.ofInteger n).integer? = some n ∧
        ∀ (own : NumericKind) (e' : Erasure), v.erasure r = .ofClass (own.box r) →
          e' = .ofClass (own.primitive r) ∨ e' = .ofClass (own.box r) →
          (s.convertTo (limit + 2) (some (kind.ofInteger n)) e').run = some (.ok (some v))) ∧
      (¬(-2 ^ (bits - 1) ≤ n ∧ n < 2 ^ (bits - 1)) →
        (s.convertTo (limit + 2) (some v) e).run =
          some (.error (.invalidValue (integerText n) (r.erasureName e) "out of range"))) := by
  have houtcome := convertTo_integer hbase hs hfallback hv hbits he limit
  refine ⟨fun hfits => ?_, fun hfits => by rw [houtcome, if_neg hfits]⟩
  have hgiven := NumericKind.integer?_ofInteger hbits hfits.1 hfits.2
  refine ⟨by rw [houtcome, if_pos hfits], hgiven, fun own e' hown he' => ?_⟩
  obtain ⟨own', width, hwidth, heq, hfits'⟩ := Value.exists_kind_of_integer? hv
  -- The class of the value tells its kind.
  obtain rfl : own = own' := by
    have hown' := heq ▸ NumericKind.erasure_ofInteger r own' n
    have hkind (kind : NumericKind) :
        NumericKind.ofErasure? r (.ofClass (kind.box r)) = some kind :=
      NumericKind.ofErasure?_of_boxed hbase (NumericKind.boxed_of_type hbase (.inr rfl))
    have hsame := hkind own
    rw [← hown'.symm.trans hown, hkind own'] at hsame
    exact (Option.some.inj hsame).symm
  rw [convertTo_integer hbase hs hfallback hgiven hwidth he', if_pos hfits', ← heq]

/-- A short value of 300 is no byte, one of 100 is, and comes back. -/
theorem convert_integral_exact_numbers :
    ∃ s, (bare bootstrap {}).addDefaults = .ok s ∧
      (s.convertTo 2 (some (.short 300)) (.ofClass bootstrap.wellKnown.primByte)).run =
        some (.error (.invalidValue (integerText 300) "byte" "out of range")) ∧
      (s.convertTo 2 (some (.short 100)) (.ofClass bootstrap.wellKnown.primByte)).run =
        some (.ok (some (.byte 100))) ∧
      (s.convertTo 2 (some (.byte 100)) (.ofClass bootstrap.wellKnown.short)).run =
        some (.ok (some (.short 100))) := by
  obtain ⟨s, hs⟩ := exists_addDefaults bootstrap {}
  have hbits : NumericKind.byte.bits? = some 8 := rfl
  have hlarge : (Value.short 300).integer? = some 300 := rfl
  have hsmall : (Value.short 100).integer? = some 100 := rfl
  have hrefused :=
    (convert_integral_exact extendsBase_bootstrap hs rfl hlarge hbits (.inl rfl) 0).2 (by decide)
  obtain ⟨hgiven, -, hback⟩ :=
    (convert_integral_exact extendsBase_bootstrap hs rfl hsmall hbits (.inl rfl) 0).1 (by decide)
  exact ⟨s, hs, hrefused, hgiven, hback .short _ rfl (.inr rfl)⟩

end ConversionService

end TypeConversion
