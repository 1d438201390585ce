import Metering.Proofs.Accumulator.Samples

/-!
# Sums that stop at the ends of their range

A sum that reaches an end of its range forgets what goes beyond it, so the order of its updates may
count. It does not count as long as all measurements have one sign, or neither those above zero nor
those below it add up beyond the range by themselves. Otherwise some order ends at another sum.
-/

namespace Metering

/-! ## Integers in an interval -/

section
variable {lo hi s : Int} {xs : List Int}

/-- Where an integer ends to which others are added, one after the other and each time within an
interval. -/
def addAll (lo hi s : Int) (xs : List Int) : Int := xs.foldl (fun s x => clamp lo hi (s + x)) s

/-- The sum of the integers above zero. -/
def gains (xs : List Int) : Int := (xs.map fun x => max x 0).sum

/-- The sum of the integers below zero. -/
def losses (xs : List Int) : Int := (xs.map fun x => min x 0).sum

/-- Whether integers can be added up within an interval in any order: they have one sign, or those
of neither sign leave the interval. -/
def OrderFree (lo hi : Int) (xs : List Int) : Prop :=
  (∀ x ∈ xs, 0 ≤ x) ∨ (∀ x ∈ xs, x ≤ 0) ∨ (gains xs ≤ hi ∧ lo ≤ losses xs)

theorem clamp_eq (lo hi i : Int) : clamp lo hi i = max lo (min hi i) := rfl

theorem addAll_cons (s x : Int) (xs : List Int) :
    addAll lo hi s (x :: xs) = addAll lo hi (clamp lo hi (s + x)) xs := rfl

theorem addAll_append (s : Int) (xs ys : List Int) :
    addAll lo hi s (xs ++ ys) = addAll lo hi (addAll lo hi s xs) ys := List.foldl_append

theorem gains_cons (x : Int) (xs : List Int) : gains (x :: xs) = max x 0 + gains xs := by
  simp [gains]

theorem losses_cons (x : Int) (xs : List Int) : losses (x :: xs) = min x 0 + losses xs := by
  simp [losses]

theorem sum_eq_gains_add_losses (xs : List Int) : xs.sum = gains xs + losses xs := by
  induction xs with
  | nil => rfl
  | cons x xs ih =>
    rw [List.sum_cons, gains_cons, losses_cons, ih]
    omega

theorem gains_nonneg (xs : List Int) : 0 ≤ gains xs :=
  List.sum_nonneg (by simp)

theorem losses_nonpos (xs : List Int) : losses xs ≤ 0 := by
  induction xs with
  | nil => exact le_refl _
  | cons x xs ih =>
    rw [losses_cons]
    exact add_nonpos (min_le_right _ _) ih

theorem gains_eq_zero_iff : gains xs = 0 ↔ ∀ x ∈ xs, x ≤ 0 := by
  induction xs with
  | nil => simp [gains]
  | cons x xs ih =>
    have := gains_nonneg xs
    rw [gains_cons, List.forall_mem_cons, ← ih]
    omega

theorem losses_eq_zero_iff : losses xs = 0 ↔ ∀ x ∈ xs, 0 ≤ x := by
  induction xs with
  | nil => simp [losses]
  | cons x xs ih =>
    have := losses_nonpos xs
    rw [losses_cons, List.forall_mem_cons, ← ih]
    omega

theorem addAll_of_nonneg (hlo : lo ≤ s) (hhi : s ≤ hi) (h : ∀ x ∈ xs, 0 ≤ x) :
    addAll lo hi s xs = min hi (s + gains xs) := by
  induction xs generalizing s with
  | nil => simp [addAll, gains, hhi]
  | cons x xs ih =>
    obtain ⟨hx, hxs⟩ := List.forall_mem_cons.mp h
    have hnext : clamp lo hi (s + x) = min hi (s + x) := by
      rw [clamp_eq]
      omega
    have hrest := gains_nonneg xs
    rw [addAll_cons, hnext, ih (by omega) (min_le_left _ _) hxs, gains_cons]
    omega

theorem addAll_of_nonpos (hlo : lo ≤ s) (hhi : s ≤ hi) (h : ∀ x ∈ xs, x ≤ 0) :
    addAll lo hi s xs = max lo (s + losses xs) := by
  induction xs generalizing s with
  | nil => simp [addAll, losses, hlo]
  | cons x xs ih =>
    obtain ⟨hx, hxs⟩ := List.forall_mem_cons.mp h
    have hnext : clamp lo hi (s + x) = max lo (s + x) := by
      rw [clamp_eq]
      omega
    have hrest := losses_nonpos xs
    rw [addAll_cons, hnext, ih (le_max_left _ _) (by omega) hxs, losses_cons]
    omega

/-- Integers of which neither sign leaves the interval add up exactly. -/
theorem addAll_exact (hlo : lo ≤ s + losses xs) (hhi : s + gains xs ≤ hi) :
    addAll lo hi s xs = s + xs.sum := by
  induction xs generalizing s with
  | nil => simp [addAll]
  | cons x xs ih =>
    have hgains := gains_nonneg xs
    have hlosses := losses_nonpos xs
    rw [losses_cons] at hlo
    rw [gains_cons] at hhi
    have hnext : clamp lo hi (s + x) = s + x := by
      rw [clamp_eq]
      omega
    rw [addAll_cons, hnext, ih (by omega) (by omega), List.sum_cons, add_assoc]

/-- Whatever their order, such integers end at their sum, as far as it is in the interval. -/
theorem OrderFree.addAll_eq (h : OrderFree lo hi xs) (hlo : lo ≤ 0) (hhi : 0 ≤ hi) :
    addAll lo hi 0 xs = clamp lo hi xs.sum := by
  have hgains := gains_nonneg xs
  have hlosses := losses_nonpos xs
  have hsum := sum_eq_gains_add_losses xs
  rw [clamp_eq]
  obtain hnonneg | hnonpos | ⟨hup, hdown⟩ := h
  · rw [addAll_of_nonneg hlo hhi hnonneg]
    have hzero := losses_eq_zero_iff.mpr hnonneg
    omega
  · rw [addAll_of_nonpos hlo hhi hnonpos]
    have hzero := gains_eq_zero_iff.mpr hnonpos
    omega
  · rw [addAll_exact (by omega) (by omega)]
    omega

theorem OrderFree.perm {ys : List Int} (h : OrderFree lo hi xs) (hp : xs.Perm ys) :
    OrderFree lo hi ys := by
  have hgains : gains xs = gains ys := (hp.map _).sum_eq
  have hlosses : losses xs = losses ys := (hp.map _).sum_eq
  rw [OrderFree, hgains, hlosses] at h
  simpa only [OrderFree, hp.mem_iff] using h

/-- Integers of both signs, of which those of one sign leave the interval, end elsewhere if those
above zero come first than if those below zero do. -/
theorem orderFree_of_addAll_eq {us ds : List Int} (hlo : lo ≤ 0) (hhi : 0 ≤ hi) (hlt : lo < hi)
    (hus : ∀ x ∈ us, 0 ≤ x) (hds : ∀ x ∈ ds, x ≤ 0)
    (h : addAll lo hi 0 (us ++ ds) = addAll lo hi 0 (ds ++ us)) : OrderFree lo hi (us ++ ds) := by
  have hgains : gains (us ++ ds) = gains us + gains ds := by simp [gains]
  have hlosses : losses (us ++ ds) = losses us + losses ds := by simp [losses]
  have hup := gains_nonneg us
  have hdown := losses_nonpos ds
  rw [addAll_append, addAll_append, addAll_of_nonneg hlo hhi hus, addAll_of_nonpos hlo hhi hds,
    addAll_of_nonpos (by omega) (min_le_left _ _) hds,
    addAll_of_nonneg (le_max_left _ _) (by omega) hus] at h
  rw [OrderFree, ← losses_eq_zero_iff, ← gains_eq_zero_iff, hgains, hlosses,
    gains_eq_zero_iff.mpr hds, losses_eq_zero_iff.mpr hus]
  omega

end

/-! ## Sums of measurements -/

open Accumulator (gather gather_snoc)

variable {d : Descriptor}

theorem exists_gather_newSum (hk : d.numberKind.IsInteger) (rs : List Reading) :
    ∃ n, gather d .newSum rs = .sum n ∧ d.numberKind.toInt n =
      addAll d.numberKind.lowest d.numberKind.highest 0
        (rs.map fun r => d.numberKind.toInt r.value) := by
  induction rs using List.reverseRecOn with
  | nil => exact ⟨⟨0⟩, rfl, NumberKind.toInt_zero _ hk⟩
  | append_singleton rs r ih =>
    obtain ⟨n, hn, hsum⟩ := ih
    refine ⟨n.add d.numberKind r.value, by rw [gather_snoc, hn]; rfl, ?_⟩
    rw [NumberKind.add_eq hk, NumberKind.toInt_ofInt_eq_clamp hk, List.map_append, addAll_append,
      ← hsum]
    rfl

theorem sum_gather_eq_iff (hk : d.numberKind.IsInteger) (rs rs' : List Reading) :
    (gather d .newSum rs').sum? = (gather d .newSum rs).sum? ↔
      addAll d.numberKind.lowest d.numberKind.highest 0
          (rs'.map fun r => d.numberKind.toInt r.value) =
        addAll d.numberKind.lowest d.numberKind.highest 0
          (rs.map fun r => d.numberKind.toInt r.value) := by
  obtain ⟨n, hn, hsum⟩ := exists_gather_newSum hk rs
  obtain ⟨n', hn', hsum'⟩ := exists_gather_newSum hk rs'
  rw [hn, hn', ← hsum, ← hsum']
  exact ⟨fun h => congrArg _ (Option.some.inj h), fun h =>
    congrArg some (NumberKind.toInt_injective hk h)⟩

/-- The sum of integer measurements does not depend on their order exactly if they have one sign, or
if neither those above zero nor those below it leave the range by themselves. The measurements may
be made at any times. -/
theorem sum_order_free_iff (hk : d.numberKind.IsInteger) (rs : List Reading) :
    (∀ rs' : List Reading, (rs'.map (·.value)).Perm (rs.map (·.value)) →
      (gather d .newSum rs').sum? = (gather d .newSum rs).sum?) ↔
    OrderFree d.numberKind.lowest d.numberKind.highest
      (rs.map fun r => d.numberKind.toInt r.value) := by
  have hlo := (NumberKind.inRange_zero d.numberKind).1
  have hhi := (NumberKind.inRange_zero d.numberKind).2
  have hlt : d.numberKind.lowest < d.numberKind.highest := by
    cases d.numberKind <;> decide
  constructor
  · intro h
    -- the measurements above zero first, and those below it first
    let up : List Reading := rs.filter fun r => decide (0 ≤ d.numberKind.toInt r.value)
    let down : List Reading := rs.filter fun r => !decide (0 ≤ d.numberKind.toInt r.value)
    have hperm : (up ++ down).Perm rs := List.filter_append_perm _ rs
    have hsame := (h (up ++ down) (hperm.map _)).trans
      (h (down ++ up) ((List.perm_append_comm.trans hperm).map _)).symm
    rw [sum_gather_eq_iff hk, List.map_append, List.map_append] at hsame
    have hfree := orderFree_of_addAll_eq hlo hhi hlt ?_ ?_ hsame
    · rw [← List.map_append] at hfree
      exact hfree.perm (hperm.map _)
    · intro x hx
      obtain ⟨r, hr, rfl⟩ := List.mem_map.mp hx
      simpa using (List.mem_filter.mp hr).2
    · intro x hx
      obtain ⟨r, hr, rfl⟩ := List.mem_map.mp hx
      have hneg := (List.mem_filter.mp hr).2
      simp only [Bool.not_eq_true', decide_eq_false_iff_not, not_le] at hneg
      exact hneg.le
  · intro h rs' hperm
    have hvalues := hperm.map d.numberKind.toInt
    rw [List.map_map, List.map_map] at hvalues
    have h' := h.perm hvalues.symm
    rw [sum_gather_eq_iff hk, h.addAll_eq hlo hhi]
    exact (h'.addAll_eq hlo hhi).trans (congrArg _ hvalues.sum_eq)

theorem queue_sum_order_free :
    let queue : Descriptor := { name := "queue.size", kind := .upDownCounter, numberKind := .i64 }
    let rs : List Reading := [⟨.ofInt64 5, ⟨0, 1⟩⟩, ⟨.ofInt64 (-8), ⟨0, 2⟩⟩, ⟨.ofInt64 4, ⟨0, 3⟩⟩]
    queue.numberKind.IsInteger ∧
      ∀ rs' : List Reading, (rs'.map (·.value)).Perm (rs.map (·.value)) →
        (gather queue .newSum rs').sum? = (gather queue .newSum rs).sum? := by
  refine ⟨by decide, (sum_order_free_iff (by decide) _).mpr (.inr (.inr ?_))⟩
  decide +kernel

/-- At the end of the range the order of measurements of both signs counts. -/
theorem sum_depends_on_order :
    let queue : Descriptor := { name := "queue.size", kind := .upDownCounter, numberKind := .i64 }
    let rs : List Reading :=
      [⟨.ofInt64 .maxValue, ⟨0, 1⟩⟩, ⟨.ofInt64 1, ⟨0, 2⟩⟩, ⟨.ofInt64 (-1), ⟨0, 3⟩⟩]
    let rs' : List Reading :=
      [⟨.ofInt64 1, ⟨0, 1⟩⟩, ⟨.ofInt64 (-1), ⟨0, 2⟩⟩, ⟨.ofInt64 .maxValue, ⟨0, 3⟩⟩]
    (rs'.map (·.value)).Perm (rs.map (·.value)) ∧
      (gather queue .newSum rs).sum? = some (.ofInt64 (.maxValue - 1)) ∧
      (gather queue .newSum rs').sum? = some (.ofInt64 .maxValue) := by
  decide +kernel

end Metering
