import TypeConversion.Proofs.Substitution.Denotation

/-!
# Views by substitution

The search for a view of a node and the search by substitution go the same way: they look at the
same supertypes in the same order, and what the first finds represents what the second finds.

**Results**

* `Registry.eagerView_steady`: what the search by substitution found does not depend on its limit;
* `Node.Represents.viewIs`: the two searches find the same;
* `Registry.exists_eagerView_of_descends`: an ancestor is found if no supertype lacks an erasure.
-/

namespace TypeConversion

open Walk

namespace Registry

/-- Both searches by substitution find the same under a larger limit. -/
theorem eagerViewing_extends (r : Registry) (limit : Nat) : ∀ more, limit ≤ more →
    (∀ t target, Extends (r.eagerView limit t target) (r.eagerView more t target)) ∧
    (∀ ts target,
      Extends (r.firstEagerView limit ts target) (r.firstEagerView more ts target)) := by
  induction limit with
  | zero =>
    intro more _
    refine ⟨fun t target => .of_none _, ?_⟩
    intro ts target
    cases ts with
    | nil => simp [firstEagerView]
    | cons t rest => exact .of_none _
  | succ limit ih =>
    intro more hle
    obtain ⟨more, rfl⟩ : ∃ k, more = k + 1 := ⟨more - 1, by omega⟩
    obtain ⟨hview, hfirst⟩ := ih more (by omega)
    constructor
    · intro t target
      rw [eagerView, eagerView]
      cases t.erasure? with
      | none => exact .refl _
      | some e =>
        dsimp only
        split
        · exact .refl _
        · refine (hfirst _ target).bind ?_
          intro view
          cases view with
          | some view => exact .refl _
          | none =>
            cases r.genericSuperclass e with
            | none => exact .refl _
            | some s => exact hview _ target
    · intro ts target
      cases ts with
      | nil => simp [firstEagerView]
      | cons t rest =>
        rw [firstEagerView, firstEagerView]
        refine (hview t target).bind ?_
        intro view
        cases view with
        | some view => exact .refl _
        | none => exact hfirst rest target

/-- What the search by substitution found does not depend on its limit. -/
theorem eagerView_steady (r : Registry) (t : TypeExpr) (target : Erasure) :
    Steady fun limit => r.eagerView limit t target :=
  fun limit more hle => (r.eagerViewing_extends limit more hle).1 t target

theorem firstEagerView_steady (r : Registry) (ts : List TypeExpr) (target : Erasure) :
    Steady fun limit => r.firstEagerView limit ts target :=
  fun limit more hle => (r.eagerViewing_extends limit more hle).2 ts target

variable {r : Registry}

/-- What the search by substitution found is an ancestor. -/
theorem descends_of_eagerView (limit : Nat) :
    (∀ s target t, r.eagerView limit s target = some (some t) → r.Descends s t) ∧
    (∀ ss target t, r.firstEagerView limit ss target = some (some t) →
      ∃ s ∈ ss, r.Descends s t) := by
  induction limit with
  | zero =>
    constructor
    · intro s target t h
      simp [eagerView] at h
    · intro ss target t h
      cases ss <;> simp [firstEagerView] at h
  | succ limit ih =>
    obtain ⟨hview, hfirst⟩ := ih
    constructor
    · intro s target t h
      rw [eagerView] at h
      cases hs : s.erasure? with
      | none =>
        obtain rfl : s = t := by simpa [hs] using h
        exact .refl
      | some e =>
        simp only [hs] at h
        by_cases heq : e = target
        · obtain rfl : s = t := by simpa [heq] using h
          exact .refl
        · simp only [heq, if_false] at h
          obtain ⟨first, hfirst', h⟩ := Option.bind_eq_some_iff.mp h
          cases first with
          | some found =>
            obtain rfl : found = t := by simpa using h
            obtain ⟨s', hs', hdescends⟩ := hfirst _ _ _ hfirst'
            obtain ⟨u, hu, rfl⟩ := List.mem_map.mp hs'
            exact hdescends.head ⟨e, u, hs, .inr hu, rfl⟩
          | none =>
            cases hu : r.genericSuperclass e with
            | none => simp [hu] at h
            | some u =>
              simp only [hu] at h
              exact (hview _ _ _ h).head ⟨e, u, hs, .inl hu, rfl⟩
    · intro ss target t h
      cases ss with
      | nil => simp [firstEagerView] at h
      | cons s rest =>
        rw [firstEagerView] at h
        obtain ⟨first, hfirst', h⟩ := Option.bind_eq_some_iff.mp h
        cases first with
        | some found =>
          obtain rfl : found = t := by simpa using h
          exact ⟨s, List.mem_cons_self, hview _ _ _ hfirst'⟩
        | none =>
          obtain ⟨s', hs', hdescends⟩ := hfirst _ _ _ h
          exact ⟨s', List.mem_cons_of_mem _ hs', hdescends⟩

/-- What a complete context puts in place of a variable of its scope is complete. -/
theorem exists_bindings_isComplete {s : TypeExpr} (hcontext : s.IsContext r)
    (hcomplete : s.IsComplete r) {v : TypeVarId} (hv : v ∈ s.scope r) :
    ∃ u, r.bindings s v = some u ∧ u.IsComplete r := by
  obtain ⟨a, ha, hbinding⟩ := exists_bindings_eq hcontext hv
  refine ⟨a, hbinding, ?_⟩
  cases s with
  | parameterized raw args owner => exact (TypeExpr.allComplete_iff r args).mp hcomplete a ha
  | plain _ | genericArray _ | wildcard _ _ | typeVar _ => simp [TypeExpr.arguments] at ha

/-- An ancestor of a complete context is a complete context. -/
theorem Descends.isContext_and_isComplete (hi : r.AcyclicInheritance) (hp : r.FullyParameterized)
    {s t : TypeExpr} (h : r.Descends s t) (hs : s.IsContext r ∧ s.IsComplete r) :
    t.IsContext r ∧ t.IsComplete r := by
  induction h with
  | refl => exact hs
  | tail _ hstep ih =>
    obtain ⟨hcontext, hcomplete⟩ := ih
    obtain ⟨e, u, he, hu, rfl⟩ := hstep
    have hproper := hp.supertypes e u hu
    refine ⟨(hproper.isContext (isSupertype_ne_typeVar hi hu)).instantiate _, ?_⟩
    refine hproper.isComplete_instantiate fun v hv => ?_
    rw [← scope_eq_parametersOf hcontext he] at hv
    exact exists_bindings_isComplete hcontext hcomplete hv

/-! ## Ancestors are found -/

/-- A search that comes to an end, and not in vain if what is sought is there. -/
def Settles (target : Erasure) (isThere : Prop) (w : Nat → Walk (Option TypeExpr)) : Prop :=
  ∃ found, Finds w found ∧ (∀ t ∈ found, t.erasure? = some target) ∧ (isThere → found ≠ none)

theorem Settles.mono {target : Erasure} {P Q : Prop} {w : Nat → Walk (Option TypeExpr)}
    (h : Settles target P w) (hQ : Q → P) : Settles target Q w := by
  obtain ⟨found, hfound, htarget, hthere⟩ := h
  exact ⟨found, hfound, htarget, fun hq => hthere (hQ hq)⟩

/-- One search after another settles what either of them does. -/
theorem Settles.orElse {target : Erasure} {P Q : Prop} {w w' : Nat → Walk (Option TypeExpr)}
    (hw : Steady w) (hw' : Steady w') (h : Settles target P w) (h' : Settles target Q w') :
    Settles target (P ∨ Q) fun limit => w limit >>= fun found =>
      match found with
      | some found => some (some found)
      | none => w' limit := by
  obtain ⟨first, hfirst, htarget, hthere⟩ := h
  obtain ⟨second, hsecond, htarget', hthere'⟩ := h'
  have hsteady : ∀ found : Option TypeExpr, Steady fun limit =>
      (match found with
        | some found => some (some found)
        | none => w' limit : Walk (Option TypeExpr)) := by
    intro found
    cases found with
    | some found => exact .const _
    | none => exact hw'
  cases first with
  | some found =>
    refine ⟨some found, (finds_bind_iff hw hsteady).mpr ⟨some found, hfirst, ?_⟩, htarget, by simp⟩
    exact finds_const_iff.mpr rfl
  | none =>
    refine ⟨second, (finds_bind_iff hw hsteady).mpr ⟨none, hfirst, hsecond⟩, htarget', ?_⟩
    rintro (hP | hQ)
    · exact absurd rfl (hthere hP)
    · exact hthere' hQ

/-- An ancestor with an erasure. -/
def HasAncestor (r : Registry) (s : TypeExpr) (target : Erasure) : Prop :=
  ∃ t, r.Descends s t ∧ t.erasure? = some target

theorem settles_firstEagerView {target : Erasure} {ts : List TypeExpr}
    (h : ∀ t ∈ ts, Settles target (r.HasAncestor t target)
      fun limit => r.eagerView limit t target) :
    Settles target (∃ t ∈ ts, r.HasAncestor t target)
      fun limit => r.firstEagerView limit ts target := by
  induction ts with
  | nil => exact ⟨none, .intro 0 (by simp [firstEagerView]), by simp, by simp⟩
  | cons t rest ih =>
    have hboth := (h t List.mem_cons_self).orElse (r.eagerView_steady t target)
      (r.firstEagerView_steady rest target) (ih fun u hu => h u (List.mem_cons_of_mem _ hu))
    obtain ⟨found, hfound, htarget, hthere⟩ := hboth
    refine ⟨found, ?_, htarget, fun hex => hthere (by simpa using hex)⟩
    rw [finds_succ_iff rfl]
    simp only [firstEagerView]
    exact hfound

/-- A variable in the place of which something stands may stand for anything. -/
theorem standsFor_of_instantiate {t : TypeExpr} {σ : TypeExpr.Bindings} {e : Erasure}
    (h : (t.instantiate σ).erasure? = some e) : r.StandsFor t e := by
  induction hw : t.weight using Nat.strong_induction_on generalizing t e with
  | _ w ih =>
  subst hw
  cases t with
  | plain a =>
    obtain rfl : a = e := by simpa [TypeExpr.instantiate, TypeExpr.erasure?] using h
    exact .plain a
  | parameterized raw args owner =>
    obtain rfl : Erasure.ofClass raw = e := by
      simpa [TypeExpr.instantiate, TypeExpr.erasure?] using h
    exact .parameterized raw args owner
  | genericArray component =>
    obtain ⟨c, hc, hbind⟩ := Option.bind_eq_some_iff.mp h
    exact .genericArray (ih _ (by simp [TypeExpr.weight]) hc rfl) hbind
  | wildcard _ _ => simp [TypeExpr.instantiate, TypeExpr.erasure?] at h
  | typeVar v => exact .typeVar v e

/-- An ancestor is found if no supertype on the way lacks an erasure. -/
theorem exists_eagerView_of_descends (hi : r.AcyclicInheritance) {s : TypeExpr} {target : Erasure}
    (herasure : ∀ t, r.Descends s t → t.erasure? ≠ none) :
    Settles target (r.HasAncestor s target) fun limit => r.eagerView limit s target := by
  obtain ⟨e, he⟩ := Option.ne_none_iff_exists'.mp (herasure s .refl)
  induction e using hi.wellFounded.induction generalizing s with
  | _ e ih =>
  by_cases heq : e = target
  · subst heq
    exact ⟨some s, .intro 1 (by simp [eagerView, he]), by simpa using he, by simp⟩
  have hsupertype : ∀ u, r.IsSupertype e u →
      Settles target (r.HasAncestor (u.instantiate (r.bindings s)) target)
        fun limit => r.eagerView limit (u.instantiate (r.bindings s)) target := by
    intro u hu
    have hstep : r.HasSupertype s (u.instantiate (r.bindings s)) := ⟨e, u, he, hu, rfl⟩
    have herasure' : ∀ t, r.Descends (u.instantiate (r.bindings s)) t → t.erasure? ≠ none :=
      fun t ht => herasure t (ht.head hstep)
    obtain ⟨p, hp⟩ := Option.ne_none_iff_exists'.mp (herasure' _ .refl)
    exact ih p ⟨u, hu, standsFor_of_instantiate hp⟩ herasure' hp
  let interfaces := (r.genericInterfaces e).map (·.instantiate (r.bindings s))
  have hinterfaces : Settles target (∃ t ∈ interfaces, r.HasAncestor t target)
      fun limit => r.firstEagerView limit interfaces target := by
    refine settles_firstEagerView fun t ht => ?_
    obtain ⟨u, hu, rfl⟩ := List.mem_map.mp ht
    exact hsupertype u (.inr hu)
  have hsuper : Settles target
      (∃ u, r.genericSuperclass e = some u ∧ r.HasAncestor (u.instantiate (r.bindings s)) target)
      fun limit => match r.genericSuperclass e with
        | some u => r.eagerView limit (u.instantiate (r.bindings s)) target
        | none => some none := by
    cases hu : r.genericSuperclass e with
    | none => exact ⟨none, finds_const_iff.mpr rfl, by simp, by simp⟩
    | some u => exact (hsupertype u (.inl hu)).mono (by simp)
  have hsteady : Steady fun limit => (match r.genericSuperclass e with
        | some u => r.eagerView limit (u.instantiate (r.bindings s)) target
        | none => some none : Walk (Option TypeExpr)) := by
    cases r.genericSuperclass e with
    | none => exact .const _
    | some u => exact r.eagerView_steady _ target
  obtain ⟨found, hfound, htarget, hthere⟩ :=
    hinterfaces.orElse (r.firstEagerView_steady _ target) hsteady hsuper
  refine ⟨found, ?_, htarget, fun hancestor => hthere ?_⟩
  · rw [finds_succ_iff rfl]
    simp only [eagerView, he, heq, if_false]
    exact hfound
  · obtain ⟨t, hdescends, ht⟩ := hancestor
    rcases hdescends.cases_head with rfl | ⟨s', ⟨e', u, he', hu, rfl⟩, hdescends⟩
    · rw [he] at ht
      exact absurd (Option.some.inj ht) heq
    · obtain rfl : e = e' := Option.some.inj (he.symm.trans he')
      rcases hu with hu | hu
      · exact .inr ⟨u, hu, t, hdescends, ht⟩
      · exact .inl ⟨_, List.mem_map_of_mem hu, t, hdescends, ht⟩

end Registry

namespace Node

open Registry

variable {r : Registry}

/-- Every step of the search for a view is one of the search by substitution. -/
theorem represents_views (hi : r.AcyclicInheritance) (hp : r.FullyParameterized) (limit : Nat) :
    (∀ n s target v, Represents r n s → asErasure r limit (some n) target = some v →
      ∃ u, r.eagerView limit s target = some u ∧ Option.Rel (Represents r) v u) ∧
    (∀ ns ss target v, List.Forall₂ (Represents r) ns ss → firstView r limit ns target = some v →
      ∃ u, r.firstEagerView limit ss target = some u ∧ Option.Rel (Represents r) v u) := by
  induction limit with
  | zero =>
    constructor
    · intro n s target v _ hv
      simp [asErasure] at hv
    · intro ns ss target v hns hv
      cases hns with
      | nil =>
        obtain rfl : none = v := by simpa [firstView] using hv
        exact ⟨none, by simp [firstEagerView], .none⟩
      | cons _ _ => simp [firstView] at hv
  | succ limit ih =>
    obtain ⟨hview, hfirst⟩ := ih
    constructor
    · intro n s target v hn hv
      rw [asErasure] at hv
      obtain ⟨e, he, hv⟩ := Option.bind_eq_some_iff.mp hv
      obtain rfl := hn.denotes.resolvesTo.eq_of_some (resolve_steady r n) he
      rw [eagerView]
      cases hs : s.erasure? with
      | none =>
        obtain rfl : some n = v := by simpa [hs] using hv
        exact ⟨some s, rfl, .some hn⟩
      | some e =>
        simp only [hs] at hv ⊢
        by_cases heq : e = target
        · obtain rfl : some n = v := by simpa [heq] using hv
          exact ⟨some s, by simp [heq], .some hn⟩
        · simp only [heq, if_false] at hv ⊢
          have hresolve : ResolvesTo r n (some e) := hs ▸ hn.denotes.resolvesTo
          obtain ⟨ns, hns, hv⟩ := Option.bind_eq_some_iff.mp hv
          obtain rfl := (finds_interfaces_iff hresolve ns).mp (.intro limit hns)
          obtain ⟨first, hfirst', hv⟩ := Option.bind_eq_some_iff.mp hv
          have hrepresents : List.Forall₂ (Represents r) (interfaceNodes r n e)
              ((r.genericInterfaces e).map (·.instantiate (r.bindings s))) := by
            rw [interfaceNodes, List.forall₂_map_left_iff, List.forall₂_map_right_iff,
              List.forall₂_same]
            intro t ht
            exact hn.supertype hi hp hs (.inr ht)
          obtain ⟨u, hu, hrel⟩ := hfirst _ _ target first hrepresents hfirst'
          cases hrel with
          | @some a b hab =>
            obtain rfl : some a = v := by simpa using hv
            exact ⟨some b, by simp [hu], .some hab⟩
          | none =>
            obtain ⟨m, hm, hv⟩ := Option.bind_eq_some_iff.mp hv
            obtain rfl := (finds_superType_iff hresolve m).mp (.intro limit hm)
            simp only [hu, Option.bind_eq_bind, Option.bind_some]
            cases ht : r.genericSuperclass e with
            | none =>
              obtain rfl : none = v := by simpa [superNode?, ht, asErasure] using hv
              exact ⟨none, rfl, .none⟩
            | some t =>
              rw [superNode?, ht] at hv
              exact hview _ _ target v (hn.supertype hi hp hs (.inl ht)) hv
    · intro ns ss target v hns hv
      cases hns with
      | nil =>
        obtain rfl : none = v := by simpa [firstView] using hv
        exact ⟨none, by simp [firstEagerView], .none⟩
      | cons hn hrest =>
        rw [firstView] at hv
        obtain ⟨first, hfirst', hv⟩ := Option.bind_eq_some_iff.mp hv
        obtain ⟨u, hu, hrel⟩ := hview _ _ target first hn hfirst'
        rw [firstEagerView]
        cases hrel with
        | @some a b hab =>
          obtain rfl : some a = v := by simpa using hv
          exact ⟨some b, by simp [hu], .some hab⟩
        | none =>
          simp only [hu, Option.bind_eq_bind, Option.bind_some]
          exact hfirst _ _ target v hrest hv

/-- A node that represents an expression has a view where the search by substitution has one. -/
theorem Represents.viewIs (hi : r.AcyclicInheritance) (hp : r.FullyParameterized) {n : Node}
    {s : TypeExpr} (h : Represents r n s) (target : Erasure) :
    ∃ v u, ViewIs r (some n) target v ∧
      Finds (fun limit => r.eagerView limit s target) u ∧ Option.Rel (Represents r) v u := by
  have hexists := exists_viewIs_of_resolves hi (fun n => ∃ s, Represents r n s)
    (fun n ⟨s, hn⟩ => ⟨_, hn.denotes.resolvesTo⟩) ?_ n ⟨s, h⟩ target
  · obtain ⟨v, limit, hv⟩ := hexists
    obtain ⟨u, hu, hrel⟩ := (represents_views hi hp limit).1 n s target v h hv
    exact ⟨v, u, .intro limit hv, .intro limit hu, hrel⟩
  · rintro n e t ⟨s, hn⟩ he ht
    have hs : s.erasure? = some e := hn.denotes.resolvesTo.unique (resolve_steady r n) he
    exact ⟨_, hn.supertype hi hp hs ht⟩

end Node

end TypeConversion
