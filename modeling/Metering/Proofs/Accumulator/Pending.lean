import Metering.Proofs.Accumulator.Ledger
import Metering.Proofs.Accumulator.Upkeep
import Metering.Proofs.Processor.Temporality

/-!
# What is pending of a sum

The series whose labels are reduced to those of a key hold what was added to them since the last
completed sweep. A measurement adds its number to that, and a sweep hands over all of it, as long
as it is not more than the highest number.
-/

namespace Metering

/-! ## Merges of sums -/

theorem NumberKind.toInt_foldl_add {kind : NumberKind} (hk : kind = .u64) (x : Number)
    (xs : List Number) (hfits : kind.toInt x + (xs.map kind.toInt).sum ≤ kind.highest) :
    kind.toInt (xs.foldl (·.add kind ·) x) = kind.toInt x + (xs.map kind.toInt).sum := by
  subst hk
  have hint : NumberKind.u64.IsInteger := by decide
  have hnonneg (y : Number) : 0 ≤ NumberKind.u64.toInt y := (toInt_inRange hint y).1
  induction xs generalizing x with
  | nil => simp
  | cons y xs ih =>
    rw [List.map_cons, List.sum_cons, ← add_assoc] at hfits ⊢
    have hrest : 0 ≤ (xs.map NumberKind.u64.toInt).sum :=
      List.sum_nonneg (by simpa using fun x _ => hnonneg x)
    have hadd : NumberKind.u64.toInt (x.add .u64 y) =
        NumberKind.u64.toInt x + NumberKind.u64.toInt y :=
      toInt_add hint ⟨add_nonneg (hnonneg x) (hnonneg y), by omega⟩
    rw [List.foldl_cons, ih _ (by rwa [hadd]), hadd]

theorem Aggregator.foldl_absorb_sum (d : Descriptor) (x : Number) (xs : List Number) :
    (xs.map Aggregator.sum).foldl (absorb d) (.sum x) =
      .sum (xs.foldl (·.add d.numberKind ·) x) := by
  induction xs generalizing x with
  | nil => rfl
  | cons y xs ih => exact ih (x.add d.numberKind y)

theorem Aggregator.integerSum?_mergeAll {d : Descriptor} (hk : d.numberKind = .u64)
    (xs : List Number) (hfits : (xs.map d.numberKind.toInt).sum ≤ d.numberKind.highest) :
    ((mergeAll d (xs.map .sum)).bind (integerSum? d.numberKind)).getD 0 =
      (xs.map d.numberKind.toInt).sum := by
  cases xs with
  | nil => rfl
  | cons x xs =>
    rw [List.map_cons, mergeAll, foldl_absorb_sum]
    exact NumberKind.toInt_foldl_add hk x xs hfits

namespace Accumulator

/-- What the series hold whose labels are reduced to those of a key. -/
def pendingSum (r : Relabelling) (k : SeriesKey) (a : Accumulator) : Int :=
  ((a.series.filter fun s => r.key s.key = k).map amount).sum

variable {choose : Descriptor → Option Aggregator} {r : Relabelling} {k : SeriesKey}
  {ds : List Deed} {a b : Accumulator}

theorem pendingSum_eq (hd : Distinct a.series) :
    pendingSum r k a =
      (((keys a).filter fun k' => r.key k' = k).map fun k' => held (seek k' a.series)).sum := by
  rw [pendingSum, keys, List.filter_map, List.map_map]
  refine congrArg List.sum (List.map_congr_left fun s hs => ?_)
  rw [Function.comp_apply, seek_of_mem hd (List.mem_filter.mp hs).1]
  rfl

theorem pendingSum_enrol (hd : Distinct a.series) (k' : SeriesKey) :
    pendingSum r k a = (((enrol (keys a) k').filter fun k' => r.key k' = k).map
      fun k' => held (seek k' a.series)).sum := by
  rw [pendingSum_eq hd, enrol]
  split
  · rfl
  next hnew =>
    have hnone : held (seek k' a.series) = 0 := by
      rw [seek_eq_none.mpr hnew]
      rfl
    rw [List.filter_append, List.map_append, List.sum_append]
    by_cases hk : r.key k' = k <;> simp [hk, hnone]

/-! ## Measurements -/

private theorem sum_map_update {α : Type} [DecidableEq α] {xs : List α} (hxs : xs.Nodup) {x : α}
    (hx : x ∈ xs) {f g : α → Int} (hfg : ∀ y ≠ x, g y = f y) :
    (xs.map g).sum + f x = (xs.map f).sum + g x := by
  have hrest : (xs.erase x).map g = (xs.erase x).map f :=
    List.map_congr_left fun y hy => hfg y (hxs.mem_erase_iff.mp hy).1
  rw [← List.sum_map_erase f hx, ← List.sum_map_erase g hx, hrest]
  omega

/-- The number that a measurement adds for a key, if it is taken in. -/
def addition (r : Relabelling) (k : SeriesKey) (m : Measurement) : Int :=
  if r.key m.key = k ∧ m.isAccepted = true then k.1.numberKind.toInt m.number else 0

theorem eq_sum_of_made {s : LiveSeries} (h : s.MadeFrom k .newSum) : ∃ x, s.current = .sum x := by
  refine Aggregator.exists_eq_sum ?_
  rw [Aggregator.kind_eq_shape, ← Aggregator.shape_cleared s.current k.1, h.current]
  rfl

theorem held_add {s? : Option LiveSeries} (hs : ∀ s, s? = some s → s.MadeFrom k .newSum)
    (hk : k.1.numberKind = .u64) (n : Number) (stamp : Stamp)
    (hfits : held s? + k.1.numberKind.toInt n ≤ k.1.numberKind.highest) :
    held (some ((s?.getD (.opened k .newSum)).add n stamp)) = held s? + k.1.numberKind.toInt n := by
  have hint : k.1.numberKind.IsInteger := by rw [hk]; decide
  have hnonneg (x : Number) : 0 ≤ k.1.numberKind.toInt x := by
    have hrange := (NumberKind.toInt_inRange hint x).1
    rwa [show k.1.numberKind.lowest = 0 by rw [hk]; rfl] at hrange
  obtain ⟨s, hget, hmade, hheld⟩ : ∃ s, s?.getD (.opened k .newSum) = s ∧ s.MadeFrom k .newSum ∧
      amount s = held s? := by
    cases s? with
    | none =>
      exact ⟨_, rfl, LiveSeries.madeFrom_opened (Aggregator.isNew_newSum k.1),
        NumberKind.toInt_zero _ hint⟩
    | some s => exact ⟨s, rfl, hs s rfl, rfl⟩
  obtain ⟨x, hx⟩ := eq_sum_of_made hmade
  have hdescriptor := hmade.descriptor
  have hamount : 0 ≤ amount s := by
    rw [amount, hx, hdescriptor]
    exact hnonneg x
  rw [← hheld, ← hdescriptor] at hfits ⊢
  rw [← hdescriptor] at hint hnonneg
  rw [hget]
  exact amount_add hx hint (by rwa [abs_of_nonneg hamount, abs_of_nonneg (hnonneg n)]) stamp

theorem Upkept.held_record (h : Upkept choose ds a) {m : Measurement}
    (hsum : choose m.key.1 = some .newSum) (hk : m.key.1.numberKind = .u64)
    (haccepted : m.isAccepted = true)
    (hfits : held (seek m.key a.series) + m.key.1.numberKind.toInt m.number ≤
      m.key.1.numberKind.highest) :
    held (seek m.key (a.record m).series) =
      held (seek m.key a.series) + m.key.1.numberKind.toInt m.number := by
  rw [seek_record h.selector, if_pos ⟨rfl, haccepted⟩, slot_eq hsum]
  exact held_add (fun s => (h.tended m.key _ hsum).made) hk m.number a.stamp hfits

/-- A measurement that is taken in adds its number to what is pending, and to nothing else. -/
theorem Upkept.pendingSum_record (h : Upkept choose ds a)
    (hnew : ∀ d g, choose d = some g → Aggregator.IsNew d g) (hsum : choose k.1 = some .newSum)
    (hk : k.1.numberKind = .u64) {m : Measurement}
    (hfits : r.key m.key = k → m.isAccepted = true →
      held (seek m.key a.series) + k.1.numberKind.toInt m.number ≤ k.1.numberKind.highest) :
    pendingSum r k (a.record m) = pendingSum r k a + addition r k m := by
  have hcounted := h.allMade.counted_record h.selector m
  have hdistinct := (h.record hnew m).distinct
  cases htaken : taken choose (.recorded m) with
  | none =>
    have hnone : addition r k m = 0 := by
      refine if_neg fun ⟨hkey, haccepted⟩ => ?_
      have hg : choose m.descriptor = some .newSum := by rw [← hsum, ← hkey]; rfl
      simp [taken, haccepted, hg] at htaken
    rw [pendingSum, hcounted.unchanged htaken, hnone, add_zero]
    rfl
  | some x =>
    obtain ⟨haccepted, rfl⟩ : m.isAccepted = true ∧ (m.key, m.number) = x := by
      simp only [taken, Option.ite_none_right_eq_some, Option.some.injEq] at htaken
      exact ⟨htaken.1.1, htaken.2⟩
    have hkeys : keys (a.record m) = enrol (keys a) m.key := by rw [hcounted.keys, htaken]; rfl
    have hother : ∀ k' ≠ m.key, seek k' (a.record m).series = seek k' a.series :=
      fun k' hne => (measured_record h.selector m).frame k' hne.symm
    rw [pendingSum_eq hdistinct, pendingSum_enrol h.distinct m.key, hkeys]
    by_cases hkey : r.key m.key = k
    swap
    · rw [addition, if_neg fun hx => hkey hx.1, add_zero]
      refine congrArg List.sum (List.map_congr_left fun k' hk' => ?_)
      rw [hother k' (by rintro rfl; exact hkey (by simpa using (List.mem_filter.mp hk').2))]
    -- Of the keys that are reduced to this one, only that of the measurement has changed.
    have hd : m.key.1 = k.1 := by rw [← hkey]; rfl
    have hadded : held (seek m.key (a.record m).series) =
        held (seek m.key a.series) + addition r k m := by
      rw [addition, if_pos ⟨hkey, haccepted⟩, ← hd]
      exact h.held_record (by rw [hd, hsum]) (by rw [hd, hk]) haccepted
        (by rw [hd]; exact hfits hkey haccepted)
    have hmem : m.key ∈ (enrol (keys a) m.key).filter fun k' => r.key k' = k :=
      List.mem_filter.mpr ⟨mem_enrol.mpr (.inr rfl), by simpa using hkey⟩
    have hnodup : ((enrol (keys a) m.key).filter fun k' => r.key k' = k).Nodup :=
      (hkeys ▸ hdistinct : (enrol (keys a) m.key).Nodup).filter _
    have hsame := sum_map_update hnodup hmem fun k' hne => congrArg held (hother k' hne)
    rw [hadded] at hsame
    omega

/-! ## Sweeps -/

theorem Upkept.amount_eq_zero (h : Upkept choose ds a) (hsum : choose k.1 = some .newSum)
    (hint : k.1.numberKind.IsInteger) {s : LiveSeries} (hs : seek k a.series = some s)
    (hpending : s.isPending = false) : amount s = 0 := by
  have ht := h.tended k .newSum hsum
  have hempty := ht.isPending hs
  rw [hpending] at hempty
  cases hns : given choose k ds with
  | cons n ns =>
    rw [hns] at hempty
    cases hempty
  | nil =>
    rw [hns] at ht
    have hrested := ht s hs
    rw [amount, hrested.current, hrested.made.descriptor]
    exact NumberKind.toInt_zero _ hint

theorem Upkept.pendingSum_joining (h : Upkept choose ds a) (hsum : choose k.1 = some .newSum)
    (hint : k.1.numberKind.IsInteger) :
    pendingSum r k a = ((joining r k a).map amount).sum := by
  have hzero : ∀ s ∈ a.series.filter (fun s => r.key s.key = k), s.isPending = false →
      amount s = 0 := by
    intro s hs hpending
    obtain ⟨hmem, hkey⟩ := List.mem_filter.mp hs
    have hd : s.key.1 = k.1 := by rw [← of_decide_eq_true hkey]; rfl
    exact h.amount_eq_zero (k := s.key) (by rw [hd, hsum]) (by rwa [hd])
      (seek_of_mem h.distinct hmem) hpending
  rw [pendingSum, joining, List.filter_comm]
  generalize a.series.filter (fun s => r.key s.key = k) = ss at hzero
  induction ss with
  | nil => rfl
  | cons s ss ih =>
    obtain ⟨hs, hss⟩ := List.forall_mem_cons.mp hzero
    rw [List.map_cons, List.sum_cons, ih hss]
    cases hpending : s.isPending with
    | true => rw [List.filter_cons_of_pos hpending, List.map_cons, List.sum_cons]
    | false => rw [List.filter_cons_of_neg (by simp [hpending]), hs hpending, zero_add]

/-- A sweep hands over what is pending. -/
theorem Upkept.merged_eq_pendingSum (h : Upkept choose ds a) (hsum : choose k.1 = some .newSum)
    (hk : k.1.numberKind = .u64) (hfits : pendingSum r k a ≤ k.1.numberKind.highest)
    (resource : Resource) :
    ((merged ⟨k.1, k.2, resource⟩ (handedOverAs r resource a)).bind
      (Aggregator.integerSum? k.1.numberKind)).getD 0 = pendingSum r k a := by
  have hint : k.1.numberKind.IsInteger := by rw [hk]; decide
  have hsums : ∀ s ∈ joining r k a, ∃ x, s.current = .sum x ∧
      amount s = k.1.numberKind.toInt x := by
    intro s hs
    obtain ⟨hfound, hkey⟩ := List.mem_filter.mp hs
    have hd : s.key.1 = k.1 := by rw [← of_decide_eq_true hkey]; rfl
    obtain ⟨x, hx⟩ := eq_sum_of_made ((h.tended s.key .newSum (by rw [hd, hsum])).made
      (seek_of_mem h.distinct (List.mem_filter.mp hfound).1))
    exact ⟨x, hx, by rw [amount, hx, ← hd]; rfl⟩
  obtain ⟨xs, hcurrents, hamounts⟩ : ∃ xs : List Number,
      (joining r k a).map (·.current) = xs.map .sum ∧
      (joining r k a).map amount = xs.map k.1.numberKind.toInt := by
    generalize joining r k a = ss at hsums
    induction ss with
    | nil => exact ⟨[], rfl, rfl⟩
    | cons s ss ih =>
      obtain ⟨⟨x, hx, hamount⟩, hss⟩ := List.forall_mem_cons.mp hsums
      obtain ⟨xs, hcurrents, hamounts⟩ := ih hss
      exact ⟨x :: xs, by rw [List.map_cons, hx, hcurrents]; rfl,
        by rw [List.map_cons, hamount, hamounts]; rfl⟩
  rw [h.pendingSum_joining hsum hint, hamounts] at hfits ⊢
  rw [merged, dataOf_handedOverAs, hcurrents]
  exact Aggregator.integerSum?_mergeAll hk xs hfits

/-- After a completed sweep, nothing is pending. -/
theorem Upkept.nothing_pending (h : Upkept choose [] a) :
    ∀ s ∈ a.series, s.isPending = false := by
  intro s hs
  have hseek := seek_of_mem h.distinct hs
  obtain ⟨g, hg, -⟩ := h.allMade s.key s hseek
  exact (h.tended s.key g hg).isPending hseek

theorem Upkept.pendingSum_eq_zero (h : Upkept choose [] a) (hsum : choose k.1 = some .newSum)
    (hint : k.1.numberKind.IsInteger) : pendingSum r k a = 0 := by
  have hnone : a.series.filter (·.isPending) = [] :=
    List.filter_eq_nil_iff.mpr fun s hs => by simp [h.nothing_pending s hs]
  rw [h.pendingSum_joining hsum hint, joining, hnone]
  rfl

end Accumulator
end Metering
