import TypeConversion.Conversion.Converter
import Mathlib.Data.List.Forall2

/-!
# What attempts give

An attempt may be cut off, may fail, or may give a result.  `Gives` speaks of the last: an attempt
put together from others gives what they give one after the other.
-/

namespace TypeConversion

namespace Attempt

variable {α β : Type}

/-- An attempt is neither cut off nor fails, and has a result. -/
def Gives (x : Attempt α) (a : α) : Prop := x.run = some (.ok a)

theorem gives_pure_iff (a b : α) : (pure b : Attempt α).Gives a ↔ b = a := by
  simp [Gives, ExceptT.run_pure]

theorem gives_ofWalk_iff (w : Walk α) (a : α) : (ofWalk w).Gives a ↔ w = some a := by
  simp [Gives, ofWalk, ExceptT.run_mk]

theorem gives_ofExcept_iff (e : Except ConversionError α) (a : α) :
    (ofExcept e).Gives a ↔ e = .ok a := by
  simp [Gives, ofExcept, ExceptT.run_mk]

theorem not_gives_throw (e : ConversionError) (a : α) : ¬(throw e : Attempt α).Gives a := by
  simp [Gives, ExceptT.run_throw]

/-- One attempt after another gives what the second makes of what the first gives. -/
theorem gives_bind_iff (x : Attempt α) (f : α → Attempt β) (b : β) :
    (x >>= f).Gives b ↔ ∃ a, x.Gives a ∧ (f a).Gives b := by
  rw [Gives, ExceptT.run_bind]
  constructor
  · intro h
    rcases Option.bind_eq_some_iff.mp h with ⟨outcome, hx, h⟩
    cases outcome with
    | ok a => exact ⟨a, hx, h⟩
    | error e => simp at h
  · rintro ⟨a, hx, h⟩
    rw [show x.run = some (.ok a) from hx]
    exact h

theorem not_gives_bind {x : Attempt α} {f : α → Attempt β} {b : β} (h : ∀ a, ¬(f a).Gives b) :
    ¬(x >>= f).Gives b := by
  rw [gives_bind_iff]
  rintro ⟨a, -, ha⟩
  exact h a ha

/-- A list of attempts gives the list of what each gives. -/
theorem gives_mapM_iff (f : α → Attempt β) (xs : List α) (ys : List β) :
    (xs.mapM f).Gives ys ↔ List.Forall₂ (fun x y => (f x).Gives y) xs ys := by
  induction xs generalizing ys with
  | nil =>
    rw [List.mapM_nil, gives_pure_iff, List.forall₂_nil_left_iff]
    exact eq_comm
  | cons x rest ih =>
    simp only [List.mapM_cons, gives_bind_iff, gives_pure_iff]
    constructor
    · rintro ⟨y, hy, zs, hzs, rfl⟩
      exact .cons hy ((ih zs).mp hzs)
    · intro h
      cases h with
      | @cons _ y _ zs hy hzs => exact ⟨y, hy, zs, (ih zs).mpr hzs, rfl⟩

theorem exists_gives_mapM {f : α → Attempt β} {xs : List α} (h : ∀ x ∈ xs, ∃ y, (f x).Gives y) :
    ∃ ys, (xs.mapM f).Gives ys := by
  induction xs with
  | nil => exact ⟨[], (gives_mapM_iff ..).mpr .nil⟩
  | cons x rest ih =>
    rcases List.forall_mem_cons.mp h with ⟨⟨y, hy⟩, hrest⟩
    rcases ih hrest with ⟨ys, hys⟩
    exact ⟨y :: ys, (gives_mapM_iff ..).mpr (.cons hy ((gives_mapM_iff ..).mp hys))⟩

/-- Whether an attempt gives something that passes a check. -/
def givesAny (x : Attempt α) (check : α → Bool) : Bool :=
  x.run.any fun outcome => outcome.toOption.any check

theorem exists_of_givesAny {x : Attempt α} {check : α → Bool} (h : x.givesAny check = true) :
    ∃ a, x.Gives a ∧ check a = true := by
  rcases (Option.any_eq_true ..).mp h with ⟨outcome, hrun, h⟩
  cases outcome with
  | error e => simp [Except.toOption] at h
  | ok a => exact ⟨a, hrun, by simpa [Except.toOption] using h⟩

end Attempt

namespace Converter

theorem not_gives_mismatch {α : Type} (ctx : ConversionContext) (name : String) (found : Value)
    (target : TypeDescriptor) (a : α) : ¬(mismatch ctx name found target).Gives a :=
  Attempt.not_gives_bind fun _ => Attempt.not_gives_throw _ a

theorem not_gives_invalid {α : Type} (ctx : ConversionContext) (value : String)
    (target : TypeDescriptor) (reason : String) (a : α) :
    ¬(invalid ctx value target reason).Gives a :=
  Attempt.not_gives_bind fun _ => Attempt.not_gives_throw _ a

end Converter

end TypeConversion
