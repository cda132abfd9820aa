import TypeConversion.Proofs.Dispatch.Order

/-!
# Hierarchies are climbed in the order of dispatch

The climb takes entries from the front of its queue and puts superclasses to the front and
interfaces to the end.

**Invariant.**  An entry in the queue stands for its whole chain.  Read in this way, output and
queue are at every step all that the output leads to, in order (`IsClimbing.order`), and the first
entry of the queue is what comes next (`IsClimbing.follows`).  Only the first entry of the queue may
be a superclass, so that no superclass waits behind interfaces.

Entries have the supertypes of their boxes.  A class that is boxed may be declared anew and then be
extended; its subclasses have the supertypes of the box in their hierarchies.

**Results**

* `IsClimbing.exists_step`, `IsClimbing.exists_run`: the invariant is kept until the queue is empty;
* `climbAs_eq_discovery`: what is climbed is what is discovered;
* `classHierarchy_eq_dispatchOrder`: the hierarchies of classes are in the order of dispatch;
* `extendedPrimitive_order_ne`: by the supertypes of the entries themselves they are not.
-/

namespace TypeConversion

namespace Registry

variable {r : Registry}

/-! ## The climb -/

section Climb

variable {form : Erasure → Erasure} {n : Nat} {start e : Erasure}
  {output queue met : List Erasure}

/-- Interfaces are queued at the end in their order, unless they have been met. -/
theorem exists_foldl_meetLast (interfaces queue met : List Erasure) :
    ∃ met', interfaces.foldl (fun (queue, met) i => meetLast (liftErasure false i) queue met)
        (queue, met) = (queue ++ (interfaces.removeAll met).eraseDups, met') ∧
      ∀ x, x ∈ met' ↔ x ∈ met ∨ x ∈ interfaces := by
  induction interfaces generalizing queue met with
  | nil => exact ⟨met, by simp [List.removeAll], by simp⟩
  | cons i interfaces ih =>
    rw [List.foldl_cons]
    by_cases hi : i ∈ met
    · have hstep : meetLast (liftErasure false i) queue met = (queue, met) := by
        simp [meetLast, liftErasure, hi]
      have hskip : (i :: interfaces).removeAll met = interfaces.removeAll met := by
        simp [List.removeAll, hi]
      rcases ih queue met with ⟨met', hfold, hmet⟩
      refine ⟨met', by simp only [hstep, hskip, hfold], fun x => ?_⟩
      rw [hmet]
      grind
    · have hstep : meetLast (liftErasure false i) queue met = (queue ++ [i], i :: met) := by
        simp [meetLast, liftErasure, hi]
      have hkeep : ((i :: interfaces).removeAll met).eraseDups =
          i :: (interfaces.removeAll (i :: met)).eraseDups := by
        have hhead : (i :: interfaces).removeAll met = i :: interfaces.removeAll met := by
          simp [List.removeAll, hi]
        rw [hhead, List.eraseDups_cons]
        congr 2
        simp only [List.removeAll, List.filter_filter]
        refine List.filter_congr fun x _ => ?_
        by_cases hx : x = i <;> simp [hx]
      rcases ih (queue ++ [i]) (i :: met) with ⟨met', hfold, hmet⟩
      refine ⟨met', by simp only [hstep, hkeep, hfold, List.append_assoc, List.cons_append,
        List.nil_append], fun x => ?_⟩
      rw [hmet]
      grind

/--
What holds at every step of the climb from a class that is no array.  The first entry of the queue
may be a superclass, and all others are interfaces; what is in the output and what is yet to come
from the queue is what the output leads to.
-/
structure IsClimbing (r : Registry) (form : Erasure → Erasure) (n : Nat) (start : Erasure)
    (output queue met : List Erasure) : Prop where
  met_iff : ∀ x, x ∈ met ↔ x ∈ output ++ queue
  nodup : (output ++ queue).Nodup
  known : ∀ x ∈ output ++ queue, x.isArray = false ∧ (x = start ∨ x ∈ r.namedSupertypes)
  interfaces : ∀ i ∈ queue.tail, r.isInterface i = true
  superclasses : ∀ a ∈ output, ∀ s, r.climbedSuperclass? (form a) = some s →
    s ∈ output ∨ queue.head? = some s
  order : (output ++ queue.flatMap (r.superclassChain form n)).eraseDups =
    (r.superclassChain form n start ++ output.flatMap (r.discovered form n)).eraseDups
  follows : ∀ known x, known ++ [x] <+: output → known ++ [x] <+:
    (r.superclassChain form n start ++ known.flatMap (r.discovered form n)).eraseDups

/-- The interfaces of an entry that have not been seen, each once. -/
def newInterfaces (r : Registry) (form : Erasure → Erasure) (e : Erasure) (seen : List Erasure) :
    List Erasure :=
  ((r.interfaces (form e)).removeAll seen).eraseDups

theorem mem_newInterfaces_iff {seen : List Erasure} {x : Erasure} :
    x ∈ r.newInterfaces form e seen ↔ x ∈ r.interfaces (form e) ∧ x ∉ seen := by
  simp [newInterfaces, List.mem_eraseDups, List.removeAll]

/-- The superclass of the entry that is climbed from is in the output, or goes to the front. -/
inductive IsFront (r : Registry) (form : Erasure → Erasure) (output queue : List Erasure)
    (e : Erasure) :
    List Erasure → Prop where
  | old (h : ∀ s, r.climbedSuperclass? (form e) = some s → s ∈ output ++ [e]) :
    IsFront r form output queue e []
  | new {s : Erasure} (hs : r.climbedSuperclass? (form e) = some s)
    (hnew : s ∉ output ++ e :: queue) : IsFront r form output queue e [s]

theorem IsFront.mem {front : List Erasure} (h : r.IsFront form output queue e front) {s : Erasure}
    (hs : s ∈ front) :
    r.climbedSuperclass? (form e) = some s ∧ s ∉ output ++ e :: queue := by
  cases h with
  | old _ => exact absurd hs List.not_mem_nil
  | new ht hnew =>
    obtain rfl := List.mem_singleton.mp hs
    exact ⟨ht, hnew⟩

theorem IsFront.nodup {front : List Erasure} (h : r.IsFront form output queue e front) :
    front.Nodup := by
  cases h with
  | old _ => exact List.nodup_nil
  | new _ _ => exact List.nodup_singleton _

namespace IsClimbing

theorem length_le (h : r.IsClimbing form n start output queue met) :
    (output ++ queue).length ≤ r.supertypeCount + 1 := by
  have hsubset : output ++ queue ⊆ start :: r.namedSupertypes := fun x hx =>
    List.mem_cons.mpr (h.known x hx).2
  have hle := (h.nodup.subperm hsubset).length_le
  have hnamed := r.length_namedSupertypes_le
  rw [List.length_cons] at hle
  omega

theorem exists_front (h : r.IsClimbing form n start output (e :: queue) met)
    (hk : r.KindedClimb form) :
    ∃ front, r.IsFront form output queue e front ∧ ∃ met',
      ((r.climbedSuperclass? (form e)).elim (queue, met) fun s =>
        meetFirst (liftErasure false s) queue met) = (front ++ queue, met') ∧
      ∀ x, x ∈ met' ↔ x ∈ output ++ [e] ∨ x ∈ front ++ queue := by
  have hmet : ∀ x, x ∈ met ↔ x ∈ output ++ [e] ∨ x ∈ queue := by
    intro x
    rw [h.met_iff]
    grind
  have he : e.isArray = false := (h.known e (by simp)).1
  cases hs : r.climbedSuperclass? (form e) with
  | none => exact ⟨[], .old fun s h => by simp [hs] at h, met, rfl, hmet⟩
  | some s =>
    by_cases hold : s ∈ met
    · -- The queue holds interfaces only, so the superclass is in the output.
      have hinterface : s ∉ queue := by
        intro hqueue
        have htrue := h.interfaces s hqueue
        rw [(hk.superclass he hs).2.2] at htrue
        exact Bool.false_ne_true htrue
      have houtput : s ∈ output ++ [e] := ((hmet s).mp hold).resolve_right hinterface
      refine ⟨[], .old fun t ht => ?_, met, by simp [meetFirst, liftErasure, hold], hmet⟩
      obtain rfl : s = t := Option.some.inj (hs.symm.trans ht)
      exact houtput
    · have hnew : s ∉ output ++ e :: queue := fun hin => hold ((h.met_iff s).mpr hin)
      refine ⟨[s], .new hs hnew, s :: met, by simp [meetFirst, liftErasure, hold], fun x => ?_⟩
      rw [List.mem_cons, hmet]
      grind

/-- The output is closed under superclasses once the front of the queue is in it. -/
theorem superclass_mem (h : r.IsClimbing form n start output (e :: queue) met)
    (hself : ∀ s, r.climbedSuperclass? (form e) = some s → s ∈ output ++ [e]) {a s : Erasure}
    (ha : a ∈ output ++ [e]) (hs : r.climbedSuperclass? (form a) = some s) :
    s ∈ output ++ [e] := by
  rcases List.mem_append.mp ha with ha | ha
  · rcases h.superclasses a ha s hs with hs | hs
    · exact List.mem_append_left _ hs
    · obtain rfl : e = s := by simpa using hs
      simp
  · obtain rfl : a = e := by simpa using ha
    exact hself s hs

/-- What is in the output or in the queue after a step comes with its chain. -/
theorem superclassChain_subset_step (h : r.IsClimbing form n start output (e :: queue) met)
    (hk : r.KindedClimb form) (hn : r.supertypeCount ≤ n) {front : List Erasure}
    (hfront : r.IsFront form output queue e front) {x : Erasure}
    (hx : x ∈ output ++ [e] ∨ x ∈ front ++ queue) :
    r.superclassChain form n x ⊆
      output ++ [e] ++ (front ++ queue).flatMap (r.superclassChain form n) := by
  have hqueue : ∀ q ∈ front ++ queue, q.isArray = false := by
    intro q hq
    rcases List.mem_append.mp hq with hq | hq
    · exact (hk.superclass (h.known e (by simp)).1 (hfront.mem hq).1).2.1
    · exact (h.known q (by simp [hq])).1
  refine superclassChain_subset (fun a ha s hs => ?_) ?_
  · rcases List.mem_append.mp ha with ha | ha
    · rcases List.mem_append.mp ha with ha | ha
      · rcases h.superclasses a ha s hs with hs | hs
        · simp [hs]
        · obtain rfl : e = s := by simpa using hs
          simp
      · obtain rfl : a = e := by simpa using ha
        cases hfront with
        | old hold => exact List.mem_append_left _ (hold s hs)
        | new ht _ =>
          obtain rfl := Option.some.inj (ht.symm.trans hs)
          simp
    · rcases List.mem_flatMap.mp ha with ⟨q, hq, ha⟩
      have hs := hk.superclassChain_closed hn (hqueue q hq) ha hs
      exact List.mem_append_right _ (List.mem_flatMap.mpr ⟨q, hq, hs⟩)
  · rcases hx with hx | hx
    · exact List.mem_append_left _ hx
    · exact List.mem_append_right _ (List.mem_flatMap.mpr ⟨x, hx, mem_superclassChain_self⟩)

/-- The chain of the entry that is climbed from is the entry and the new front of the queue. -/
theorem eraseDups_front (h : r.IsClimbing form n start output (e :: queue) met)
    (hk : r.KindedClimb form) (hn : r.supertypeCount ≤ n) {front : List Erasure}
    (hfront : r.IsFront form output queue e front) :
    (output ++ r.superclassChain form n e).eraseDups =
      (output ++ [e] ++ front.flatMap (r.superclassChain form n)).eraseDups := by
  have he : e.isArray = false := (h.known e (by simp)).1
  have houtput : output.eraseDups = output.eraseDups := rfl
  have hchain := eraseDups_append_congr houtput (hk.eraseDups_superclassChain hn he)
  rw [hchain, List.append_cons]
  cases hfront with
  | new hs _ => rw [hs, Option.elim_some, List.flatMap_singleton]
  | old hold =>
    rw [List.flatMap_nil, List.append_nil]
    refine eraseDups_append_of_subset ?_
    cases hs : r.climbedSuperclass? (form e) with
    | none => exact List.nil_subset _
    | some s =>
      exact superclassChain_subset (fun a ha t ht => h.superclass_mem hold ha ht) (hold s hs)

/-- The output and the queue after a step hold all that the output leads to. -/
theorem order_step (h : r.IsClimbing form n start output (e :: queue) met)
    (hk : r.KindedClimb form) (hn : r.supertypeCount ≤ n) {front : List Erasure}
    (hfront : r.IsFront form output queue e front) :
    (output ++ [e] ++ (front ++ queue ++
        r.newInterfaces form e (output ++ [e] ++ (front ++ queue))).flatMap
          (r.superclassChain form n)).eraseDups =
      (r.superclassChain form n start ++
        (output ++ [e]).flatMap (r.discovered form n)).eraseDups := by
  rw [newInterfaces]
  set chain := r.superclassChain form n with hchain
  set old := output ++ [e] ++ (front ++ queue) with hold
  have holdchain : (output ++ [e] ++ (front ++ queue).flatMap chain).eraseDups =
      (output ++ (e :: queue).flatMap chain).eraseDups := by
    rw [List.flatMap_append, List.flatMap_cons, ← List.append_assoc, ← List.append_assoc]
    exact eraseDups_append_congr (h.eraseDups_front hk hn hfront).symm rfl
  have hfound : (output ++ [e] ++ (front ++ queue).flatMap chain ++
        ((r.interfaces (form e)).removeAll old).flatMap chain).eraseDups =
      (output ++ [e] ++ (front ++ queue).flatMap chain ++
        (r.interfaces (form e)).flatMap chain).eraseDups := by
    refine eraseDups_append_flatMap_filter fun i _ hi => ?_
    have hi : i ∈ old := by simpa using hi
    exact h.superclassChain_subset_step hk hn hfront (List.mem_append.mp hi)
  rw [List.flatMap_append, ← List.append_assoc]
  calc (output ++ [e] ++ (front ++ queue).flatMap chain ++
        ((r.interfaces (form e)).removeAll old).eraseDups.flatMap chain).eraseDups
    _ = (output ++ [e] ++ (front ++ queue).flatMap chain ++
          ((r.interfaces (form e)).removeAll old).flatMap chain).eraseDups :=
      eraseDups_append_congr rfl (eraseDups_flatMap_eraseDups ..)
    _ = (output ++ (e :: queue).flatMap chain ++
          (r.interfaces (form e)).flatMap chain).eraseDups := by
      rw [hfound]
      exact eraseDups_append_congr holdchain rfl
    _ = (chain start ++ output.flatMap (r.discovered form n) ++
          (r.interfaces (form e)).flatMap chain).eraseDups :=
      eraseDups_append_congr h.order rfl
    _ = (chain start ++ (output ++ [e]).flatMap (r.discovered form n)).eraseDups := by
      rw [List.flatMap_append, List.flatMap_singleton, List.append_assoc]
      rfl

/-- The entry that is climbed from is what the output leads to next. -/
theorem follows_step (h : r.IsClimbing form n start output (e :: queue) met) :
    output ++ [e] <+: (r.superclassChain form n start ++
      output.flatMap (r.discovered form n)).eraseDups := by
  have hnodup : (output ++ [e]).Nodup := by
    have hall := h.nodup
    rw [List.append_cons] at hall
    exact (List.nodup_append.mp hall).1
  rw [← h.order, ← eraseDups_of_nodup hnodup]
  refine eraseDups_prefix ((List.prefix_append_right_inj _).mpr ?_)
  exact (singleton_prefix_superclassChain n e).trans (List.prefix_append ..)

theorem nodup_front (h : r.IsClimbing form n start output (e :: queue) met) {front : List Erasure}
    (hfront : r.IsFront form output queue e front) : (output ++ [e] ++ (front ++ queue)).Nodup := by
  have hnodup : (output ++ [e] ++ queue).Nodup := by
    rw [← List.append_cons]
    exact h.nodup
  refine (List.perm_append_comm_assoc ..).nodup_iff.mp
    (List.nodup_append'.mpr ⟨hfront.nodup, hnodup, ?_⟩)
  intro s hs
  rw [← List.append_cons]
  exact (hfront.mem hs).2

/-- What a step adds are supertypes that are no arrays. -/
theorem known_step (h : r.IsClimbing form n start output (e :: queue) met) (hk : r.KindedClimb form)
    {front seen : List Erasure} (hfront : r.IsFront form output queue e front) :
    ∀ x ∈ output ++ [e] ++ (front ++ queue ++ r.newInterfaces form e seen),
      x.isArray = false ∧ (x = start ∨ x ∈ r.namedSupertypes) := by
  have he : e.isArray = false := (h.known e (by simp)).1
  intro x hx
  rcases List.mem_append.mp hx with hx | hx
  · exact h.known x (by grind)
  rcases List.mem_append.mp hx with hx | hx
  · rcases List.mem_append.mp hx with hx | hx
    · rcases hk.superclass he (hfront.mem hx).1 with ⟨hnamed, hplain, -⟩
      exact ⟨hplain, .inr hnamed⟩
    · exact h.known x (by grind)
  · rcases hk.interface he (mem_newInterfaces_iff.mp hx).1 with ⟨hnamed, hkind⟩
    exact ⟨isArray_of_isInterface hkind, .inr hnamed⟩

/-- Only the front of the queue may be a superclass after a step. -/
theorem interfaces_step (h : r.IsClimbing form n start output (e :: queue) met)
    (hk : r.KindedClimb form) {front seen : List Erasure}
    (hfront : r.IsFront form output queue e front) :
    ∀ i ∈ (front ++ queue ++ r.newInterfaces form e seen).tail, r.isInterface i = true := by
  have he : e.isArray = false := (h.known e (by simp)).1
  have hrest : ∀ i ∈ queue ++ r.newInterfaces form e seen, r.isInterface i = true := by
    intro i hi
    rcases List.mem_append.mp hi with hi | hi
    · exact h.interfaces i hi
    · exact (hk.interface he (mem_newInterfaces_iff.mp hi).1).2
  cases hfront with
  | old _ => exact fun i hi => hrest i (List.mem_of_mem_tail hi)
  | new _ _ => exact hrest

/-- The superclasses of the output are in it after a step, or at the front of the queue. -/
theorem superclasses_step (h : r.IsClimbing form n start output (e :: queue) met)
    {front found : List Erasure} (hfront : r.IsFront form output queue e front) {a s : Erasure}
    (ha : a ∈ output ++ [e]) (hs : r.climbedSuperclass? (form a) = some s) :
    s ∈ output ++ [e] ∨ (front ++ queue ++ found).head? = some s := by
  cases hfront with
  | old hself => exact .inl (h.superclass_mem hself ha hs)
  | new ht _ =>
    rcases List.mem_append.mp ha with ha | ha
    · rcases h.superclasses a ha s hs with hs | hs
      · exact .inl (List.mem_append_left _ hs)
      · obtain rfl : e = s := by simpa using hs
        exact .inl (by simp)
    · obtain rfl : a = e := by simpa using ha
      obtain rfl := Option.some.inj (ht.symm.trans hs)
      exact .inr rfl

/-- A step puts the first entry of the queue into the output. -/
theorem exists_step (h : r.IsClimbing form n start output (e :: queue) met)
    (hk : r.KindedClimb form) (hn : r.supertypeCount ≤ n) :
    ∃ queue' met', (∀ steps, r.climbAs form (steps + 1) (e :: queue) met =
        e :: r.climbAs form steps queue' met') ∧
      r.IsClimbing form n start (output ++ [e]) queue' met' := by
  rcases h.exists_front hk with ⟨front, hfront, met₁, hstate, hmet₁⟩
  rcases exists_foldl_meetLast (r.interfaces (form e)) (front ++ queue) met₁ with
    ⟨met₂, hfold, hmet₂⟩
  have hmet₁' : ∀ x, x ∈ met₁ ↔ x ∈ output ++ [e] ++ (front ++ queue) := fun x => by
    rw [hmet₁, ← List.mem_append]
  rw [removeAll_congr hmet₁', ← newInterfaces] at hfold
  refine ⟨_, met₂, fun steps => ?_, ?met, ?nodup, h.known_step hk hfront,
    h.interfaces_step hk hfront, fun a ha s hs => h.superclasses_step hfront ha hs,
    h.order_step hk hn hfront, ?follows⟩
  · rw [climbAs, climbStep, hstate, hfold]
  case met =>
    intro x
    rw [← List.append_assoc (output ++ [e]), List.mem_append, mem_newInterfaces_iff, hmet₂, hmet₁']
    grind
  case nodup =>
    rw [← List.append_assoc]
    refine List.nodup_append'.mpr ⟨h.nodup_front hfront, nodup_eraseDups _, ?_⟩
    exact fun x hold hx => (mem_newInterfaces_iff.mp hx).2 hold
  case follows =>
    intro known x hprefix
    rcases List.prefix_concat_iff.mp hprefix with heq | hprefix
    · rcases List.append_inj' heq rfl with ⟨rfl, heq⟩
      rw [heq]
      exact h.follows_step
    · exact h.follows known x hprefix

/-- The climb goes on until its queue is empty. -/
theorem exists_run (h : r.IsClimbing form n start output queue met) (hk : r.KindedClimb form)
    (hn : r.supertypeCount ≤ n) {steps : Nat} (hsteps : r.supertypeCount < steps + output.length) :
    ∃ met', r.IsClimbing form n start (output ++ r.climbAs form steps queue met) [] met' := by
  induction steps generalizing output queue met with
  | zero =>
    have hle := h.length_le
    rw [List.length_append] at hle
    obtain rfl : queue = [] := List.length_eq_zero_iff.mp (by omega)
    exact ⟨met, by simpa [climbAs] using h⟩
  | succ steps ih =>
    cases queue with
    | nil => exact ⟨met, by simpa [climbAs] using h⟩
    | cons e queue =>
      rcases h.exists_step hk hn with ⟨queue', met', hstep, h'⟩
      have hlength : r.supertypeCount < steps + (output ++ [e]).length := by
        rw [List.length_append, List.length_singleton]
        omega
      rw [hstep, List.append_cons]
      exact ih h' hlength

theorem isDiscovery (h : r.IsClimbing form n start output [] met) :
    IsDiscovery (r.superclassChain form n start) (r.discovered form n) output where
  complete := by
    have horder := h.order
    rw [List.flatMap_nil, List.append_nil] at horder
    rw [← horder, eraseDups_of_nodup (by simpa using h.nodup)]
  follows := h.follows

end IsClimbing

/-- A climb starts with its first entry in the queue. -/
theorem isClimbing_start (n : Nat) (hplain : start.isArray = false) :
    r.IsClimbing form n start [] [start] [start] where
  met_iff := by simp
  nodup := by simp
  known := by simpa using hplain
  interfaces := by simp
  superclasses := by simp
  order := by simp
  follows := by simp

end Climb

/-! ## Hierarchies -/

theorem appendNew_eq {entries : List Erasure} (h : entries.Nodup) (e : Erasure) :
    appendNew entries e = (entries ++ [e]).eraseDups := by
  rw [appendNew]
  split
  · rename_i he
    have he : e ∈ entries := by simpa using he
    rw [eraseDups_append_of_subset (by simpa using he), eraseDups_of_nodup h]
  · rename_i he
    have he : e ∉ entries := by simpa using he
    refine (eraseDups_of_nodup (List.nodup_append'.mpr ⟨h, List.nodup_singleton e, ?_⟩)).symm
    simpa using he

/-- What a hierarchy ends with comes last unless it has occurred before. -/
theorem appendNew_eraseDups (entries : List Erasure) (e : Erasure) :
    appendNew entries.eraseDups e = (entries ++ [e]).eraseDups := by
  rw [appendNew_eq (nodup_eraseDups entries)]
  exact eraseDups_append_congr (eraseDups_eraseDups entries) rfl

/-- What is climbed from a class, in enough steps, is what is discovered from it. -/
theorem climbAs_eq_discovery_of_lt {form : Erasure → Erasure} (h : r.KindedClimb form)
    {start : Erasure} (hplain : start.isArray = false) {n : Nat} (hn : r.supertypeCount ≤ n)
    {steps : Nat} (hsteps : r.supertypeCount < steps) :
    r.climbAs form steps [start] [start] = (r.discovery form n start).eraseDups ∧
      ∀ e ∈ r.climbAs form steps [start] [start], e.isArray = false := by
  have hlt : r.supertypeCount < steps + ([] : List Erasure).length := hsteps
  rcases (isClimbing_start n hplain).exists_run h hn hlt with ⟨met, hend⟩
  rw [List.nil_append] at hend
  refine ⟨hend.isDiscovery.eq_discovery ?_, fun e he => (hend.known e (by simpa using he)).1⟩
  have hlength := hend.length_le
  rw [List.append_nil] at hlength
  exact hlength.trans (Nat.succ_le_succ hn)

theorem climbAs_eq_discovery {form : Erasure → Erasure} (h : r.KindedClimb form) {start : Erasure}
    (hplain : start.isArray = false) {n : Nat} (hn : r.supertypeCount ≤ n) :
    r.climbAs form r.searchSteps [start] [start] = (r.discovery form n start).eraseDups ∧
      ∀ e ∈ r.climbAs form r.searchSteps [start] [start], e.isArray = false :=
  climbAs_eq_discovery_of_lt h hplain hn (by rw [searchSteps]; omega)

/-- The hierarchy of a class has what is discovered from its box, and then enums and everything. -/
theorem classHierarchy_eq_eraseDups (h : r.KindedInheritance) {e : Erasure}
    (he : e.isArray = false) {n : Nat} (hn : r.supertypeCount ≤ n) :
    r.classHierarchy e = (r.discovery r.boxed n (r.boxed e) ++
      ((if r.isEnum e then [Erasure.ofClass r.wellKnown.enumClass] else []) ++
        [r.object])).eraseDups := by
  have hclimb : r.climbHierarchy false r.searchSteps [r.boxed e] [r.boxed e] =
      (r.discovery r.boxed n (r.boxed e)).eraseDups := by
    rw [climbHierarchy_false]
    exact (climbAs_eq_discovery h.climb_boxed (isArray_boxed r he) hn).1
  have hends : ∀ entries, appendNew (appendNew entries.eraseDups r.object) r.object =
      (entries ++ [r.object]).eraseDups := by
    intro entries
    rw [appendNew_eraseDups, appendNew_eraseDups]
    exact eraseDups_append_of_subset (by simp)
  rw [classHierarchy, he, hclimb, liftErasure, if_neg Bool.false_ne_true]
  split
  · rw [appendNew_eraseDups, hends, List.append_assoc]
  · rw [hends, List.nil_append]

/--
The hierarchy of a class is in the order of dispatch, where entries have the supertypes of their
boxes.
-/
theorem classHierarchy_eq_dispatchOrder (h : r.KindedInheritance) {e : Erasure}
    (he : e.isArray = false) {n : Nat} (hn : r.supertypeCount ≤ n) :
    r.classHierarchy e = r.dispatchOrder r.boxed n e ∧ (r.classHierarchy e).Nodup := by
  have horder := classHierarchy_eq_eraseDups h he hn
  refine ⟨horder, ?_⟩
  rw [horder]
  exact nodup_eraseDups _

/-- `A extends B implements I`, `B extends A`, `I extends J` and `J extends I`. -/
def circles : Registry :=
  (((bootstrap.push
    { name := "A", superClass := some (.ofClass ⟨38⟩), interfaces := [.ofClass ⟨39⟩] }).push
    { name := "B", superClass := some (.ofClass ⟨37⟩) }).push
    { name := "I", kind := .interface, interfaces := [.ofClass ⟨40⟩] }).push
    { name := "J", kind := .interface, interfaces := [.ofClass ⟨39⟩] }

/-- In circles everything is met once. -/
theorem classHierarchy_circles :
    circles.KindedInheritance ∧
      circles.classHierarchy (.ofClass ⟨37⟩) =
        [.ofClass ⟨37⟩, .ofClass ⟨38⟩, .ofClass ⟨39⟩, .ofClass ⟨40⟩, circles.object] ∧
      circles.classHierarchy (.ofClass ⟨37⟩) =
        circles.dispatchOrder circles.boxed circles.supertypeCount (.ofClass ⟨37⟩) ∧
      (circles.classHierarchy (.ofClass ⟨37⟩)).Nodup := by
  have hkinded : circles.KindedInheritance := kindedInheritance_of_check (by decide +kernel)
  exact ⟨hkinded, by decide +kernel, classHierarchy_eq_dispatchOrder hkinded rfl le_rfl⟩

/-! ## Primitives among the superclasses -/

/-- Entries that hold the supertypes of each other hold all that is discovered from them. -/
theorem discovery_subset {form : Erasure → Erasure} {n : Nat} {start : Erasure}
    {entries : List Erasure}
    (hclosed : ∀ a ∈ entries, ∀ s ∈ r.supertypes (form a), s ∈ entries)
    (hstart : start ∈ entries) : r.discovery form n start ⊆ entries := by
  have hchain : ∀ a ∈ entries, r.superclassChain form n a ⊆ entries := fun a ha =>
    superclassChain_subset (fun a ha s hs => hclosed a ha s
      ((mem_supertypes_iff ..).mpr (.inl (Option.filter_eq_some_iff.mp hs).1))) ha
  have hround : ∀ k, r.discoveryRound form n start k ⊆ entries := by
    intro k
    induction k with
    | zero => exact hchain start hstart
    | succ k ih =>
      intro x hx
      rcases List.mem_flatMap.mp hx with ⟨a, ha, hx⟩
      rcases List.mem_flatMap.mp hx with ⟨i, hi, hx⟩
      exact hchain i (hclosed a (ih ha) i ((mem_supertypes_iff ..).mpr (.inr hi))) hx
  intro x hx
  rcases List.mem_flatMap.mp hx with ⟨k, -, hx⟩
  exact hround k hx

/-- `int` as an ordinary class and `X extends int`. -/
def extendedPrimitive : Registry :=
  (bootstrap.define Bootstrap.wellKnown.primInt { name := "int" }).push
    { name := "X", superClass := some (.ofClass Bootstrap.wellKnown.primInt) }

/--
A subclass of a class that is boxed has the supertypes of the box in its hierarchy, which are none
of its own.
-/
theorem extendedPrimitive_order_ne :
    extendedPrimitive.KindedInheritance ∧
      ∀ n, extendedPrimitive.classHierarchy (.ofClass ⟨37⟩) ≠
        extendedPrimitive.dispatchOrder id n (.ofClass ⟨37⟩) := by
  refine ⟨kindedInheritance_of_check (by decide +kernel), fun n heq => ?_⟩
  set entries : List Erasure :=
    [.ofClass ⟨37⟩, .ofClass Bootstrap.wellKnown.primInt, extendedPrimitive.object] with hentries
  have hnumber : .ofClass Bootstrap.wellKnown.number ∈
      extendedPrimitive.classHierarchy (.ofClass ⟨37⟩) := by decide +kernel
  have hsubset : extendedPrimitive.discovery id n (extendedPrimitive.boxed (.ofClass ⟨37⟩)) ⊆
      entries := discovery_subset (by decide +kernel) (by decide +kernel)
  have hrest : .ofClass Bootstrap.wellKnown.number ∉ entries := by decide +kernel
  rw [heq, dispatchOrder, List.mem_eraseDups] at hnumber
  rcases List.mem_append.mp hnumber with hin | hin
  · exact hrest (hsubset hin)
  · revert hin
    decide +kernel

end Registry

end TypeConversion
