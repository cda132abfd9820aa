import TypeConversion.Node.Resolve
import Mathlib.Order.Filter.AtTopBot.Basic

/-!
# Walks without their limits

A walk that found something finds the same under every larger limit.  Such a walk is steady, and
what it finds does not depend on the limit: `Finds` speaks of it without naming one.

A steady walk put together from others finds what these find one after the other, which is
`finds_bind_iff`.  The walks over nodes are described in this way in the modules that follow.
-/

namespace TypeConversion

namespace Walk

variable {α β : Type}

/-- The second answer is the first, unless that one was cut off. -/
def Extends (x y : Walk α) : Prop := ∀ a, x = some a → y = some a

@[simp] theorem Extends.refl (x : Walk α) : Extends x x := fun _ h => h

@[simp] theorem Extends.of_none (y : Walk α) : Extends none y := fun _ h => by simp at h

theorem Extends.bind {x y : Walk α} {f g : α → Walk β} (h : Extends x y)
    (hf : ∀ a, Extends (f a) (g a)) : Extends (x >>= f) (y >>= g) := by
  intro b hb
  obtain ⟨a, ha, hfa⟩ := Option.bind_eq_some_iff.mp hb
  exact Option.bind_eq_some_iff.mpr ⟨a, h a ha, hf a b hfa⟩

/-- What a walk found is found under every larger limit. -/
def Steady (w : Nat → Walk α) : Prop := ∀ limit more, limit ≤ more → Extends (w limit) (w more)

/-- What a walk finds under some limit. -/
def Finds (w : Nat → Walk α) (a : α) : Prop := ∃ limit, w limit = some a

theorem Steady.const (x : Walk α) : Steady fun _ => x := fun _ _ _ => .refl x

theorem Steady.bind {w : Nat → Walk α} {f : α → Nat → Walk β} (h : Steady w)
    (hf : ∀ a, Steady (f a)) : Steady fun limit => w limit >>= fun a => f a limit :=
  fun limit more hle => (h limit more hle).bind fun a => hf a limit more hle

theorem Steady.ite {c : Prop} [Decidable c] {w w' : Nat → Walk α} (h : Steady w) (h' : Steady w') :
    Steady fun limit => if c then w limit else w' limit := by
  by_cases hc : c
  · simpa only [hc, if_true] using h
  · simpa only [hc, if_false] using h'

/-- What a walk found settles what it finds. -/
theorem Finds.intro {w : Nat → Walk α} (limit : Nat) {a : α} (h : w limit = some a) :
    Finds w a :=
  ⟨limit, h⟩

/-- A steady walk finds one thing only. -/
theorem Finds.unique {w : Nat → Walk α} (hw : Steady w) {a b : α} (ha : Finds w a)
    (hb : Finds w b) : a = b := by
  obtain ⟨l, ha⟩ := ha
  obtain ⟨m, hb⟩ := hb
  have ha' := hw l (max l m) (Nat.le_max_left l m) a ha
  have hb' := hw m (max l m) (Nat.le_max_right l m) b hb
  rw [ha'] at hb'
  exact Option.some.inj hb'

/-- Under any limit a steady walk is cut off or finds what it finds. -/
theorem Finds.eq_of_some {w : Nat → Walk α} (hw : Steady w) {a b : α} (ha : Finds w a) {limit : Nat}
    (hb : w limit = some b) : a = b :=
  ha.unique hw (.intro limit hb)

/-- A steady walk finds what it finds under all limits from some one on. -/
theorem Finds.eventually {w : Nat → Walk α} (hw : Steady w) {a : α} (ha : Finds w a) :
    ∀ᶠ limit in Filter.atTop, w limit = some a := by
  obtain ⟨l, ha⟩ := ha
  exact Filter.eventually_atTop.mpr ⟨l, fun limit hle => hw l limit hle a ha⟩

theorem finds_const_iff {x : Walk α} {a : α} : Finds (fun _ => x) a ↔ x = some a :=
  ⟨fun ⟨_, h⟩ => h, fun h => ⟨0, h⟩⟩

/-- A walk that is cut off at the limit zero finds what it finds under the limits that follow. -/
theorem finds_succ_iff {w : Nat → Walk α} (hw : w 0 = none) {a : α} :
    Finds w a ↔ Finds (fun limit => w (limit + 1)) a := by
  constructor
  · rintro ⟨limit, h⟩
    cases limit with
    | zero => simp [hw] at h
    | succ limit => exact ⟨limit, h⟩
  · rintro ⟨limit, h⟩
    exact ⟨limit + 1, h⟩

/-- A walk that goes on from another finds what it finds from there. -/
theorem finds_bind_iff {w : Nat → Walk α} {f : α → Nat → Walk β} (hw : Steady w)
    (hf : ∀ a, Steady (f a)) {b : β} :
    Finds (fun limit => w limit >>= fun a => f a limit) b ↔
      ∃ a, Finds w a ∧ Finds (f a) b := by
  constructor
  · rintro ⟨limit, h⟩
    obtain ⟨a, ha, hfa⟩ := Option.bind_eq_some_iff.mp h
    exact ⟨a, ⟨limit, ha⟩, limit, hfa⟩
  · rintro ⟨a, ⟨l, ha⟩, m, hfa⟩
    refine ⟨max l m, Option.bind_eq_some_iff.mpr ⟨a, ?_, ?_⟩⟩
    · exact hw l _ (Nat.le_max_left l m) a ha
    · exact hf a m _ (Nat.le_max_right l m) b hfa

/-- A walk that finds something, and the same under every larger limit. -/
structure Total (w : Nat → Walk α) : Prop where
  steady : Steady w
  finds : ∃ a, Finds w a

theorem Total.const (a : α) : Total fun _ => some a := ⟨.const _, a, finds_const_iff.mpr rfl⟩

theorem Total.bind_of_finds {w : Nat → Walk α} {f : α → Nat → Walk β} (h : Total w)
    (hf : ∀ a, Finds w a → Total (f a)) : Total fun limit => w limit >>= fun a => f a limit := by
  constructor
  · intro limit more hle b hb
    obtain ⟨a, ha, hb⟩ := Option.bind_eq_some_iff.mp hb
    exact Option.bind_eq_some_iff.mpr
      ⟨a, h.steady limit more hle a ha, (hf a (.intro limit ha)).steady limit more hle b hb⟩
  · obtain ⟨a, l, ha⟩ := h.finds
    obtain ⟨b, m, hb⟩ := (hf a (.intro l ha)).finds
    refine ⟨b, max l m, Option.bind_eq_some_iff.mpr ⟨a, ?_, ?_⟩⟩
    · exact h.steady l _ (Nat.le_max_left l m) a ha
    · exact (hf a (.intro l ha)).steady m _ (Nat.le_max_right l m) b hb

theorem Total.bind {w : Nat → Walk α} {f : α → Nat → Walk β} (h : Total w)
    (hf : ∀ a, Total (f a)) : Total fun limit => w limit >>= fun a => f a limit :=
  h.bind_of_finds fun a _ => hf a

theorem Total.ite {c : Prop} [Decidable c] {w w' : Nat → Walk α} (h : Total w) (h' : Total w') :
    Total fun limit => if c then w limit else w' limit := by
  by_cases hc : c
  · simpa only [hc, if_true] using h
  · simpa only [hc, if_false] using h'

end Walk

end TypeConversion
