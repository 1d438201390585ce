import Metering.Proofs.Number.Range
import Metering.Proofs.Processor.Reference

/-!
# Changes and totals

A processor that exports changes and one that exports totals are handed the same batches. What is
exported of a series by the one follows from what is exported by the other: totals are the merges
of changes, and the totals of precomputed sums are the sums of their changes.
-/

namespace Metering

namespace Aggregator

/-- The merge of aggregators in order, if there are any. -/
def mergeEach (d : Descriptor) : List Aggregator → Except MetricsError (Option Aggregator)
  | [] => .ok none
  | a :: as => (as.foldlM (merge · · d) a).map some

theorem mergeEach_eq {d : Descriptor} {as : List Aggregator}
    (h : ∀ a ∈ as, ∀ b ∈ as, a.Compatible b) : mergeEach d as = .ok (mergeAll d as) := by
  have hfold : ∀ (as : List Aggregator) (a : Aggregator), (∀ b ∈ as, a.Compatible b) →
      as.foldlM (merge · · d) a = .ok (as.foldl (absorb d) a) := by
    intro as
    induction as with
    | nil => exact fun _ _ => rfl
    | cons b as ih =>
      intro a ha
      obtain ⟨hb, has⟩ := List.forall_mem_cons.mp ha
      rw [List.foldlM_cons, hb.merge_eq]
      exact ih _ fun c hc => (has c hc).congr (shape_absorb d a b) rfl
  cases as with
  | nil => rfl
  | cons a as =>
    rw [mergeEach, hfold as a fun b hb => h a (by simp) b (by simp [hb])]
    rfl

/-- The sum of an aggregator of a kind of integers. -/
def integerSum? (kind : NumberKind) (a : Aggregator) : Option Int := a.sum?.map kind.toInt

@[simp] theorem integerSum?_sum (kind : NumberKind) (x : Number) :
    (sum x).integerSum? kind = some (kind.toInt x) := rfl

end Aggregator

namespace Processor

variable {select : TemporalitySelector} {past batches : List (List Accumulation)}
  {batch : List Accumulation} {k : SeriesId}

/-! ## One collection -/

private theorem merged_of_unseen (h : history (past ++ [batch]) k = []) :
    merged k batch = none := by
  rw [history_snoc, List.append_eq_nil_iff] at h
  simpa using h.2

theorem expected_delta (hp : k.descriptor.kind.isPrecomputedSum = false) :
    expected (Temporality.constant .delta) past batch k = merged k batch := by
  rw [expected]
  cases hh : (history (past ++ [batch]) k).head? with
  | none =>
    rw [merged_of_unseen (List.head?_eq_none_iff.mp hh)]
    rfl
  | some first => simp [exportFor, Temporality.constant, hp]

theorem expected_cumulative (hp : k.descriptor.kind.isPrecomputedSum = false) :
    expected (Temporality.constant .cumulative) past batch k =
      Aggregator.mergeAll k.descriptor (history (past ++ [batch]) k) := by
  rw [expected]
  cases hh : (history (past ++ [batch]) k).head? with
  | none =>
    rw [List.head?_eq_none_iff.mp hh]
    rfl
  | some first => simp [exportFor, Temporality.constant, hp]

theorem expected_cumulative_precomputed (hp : k.descriptor.kind.isPrecomputedSum = true) :
    expected (Temporality.constant .cumulative) past batch k = merged k batch := by
  rw [expected]
  cases hh : (history (past ++ [batch]) k).head? with
  | none =>
    rw [merged_of_unseen (List.head?_eq_none_iff.mp hh)]
    rfl
  | some first => simp [exportFor, Temporality.constant, hp]

theorem expected_delta_precomputed (hp : k.descriptor.kind.isPrecomputedSum = true)
    (hsum : ∀ m ∈ history (past ++ [batch]) k, m.kind = .sum) :
    expected (Temporality.constant .delta) past batch k = (merged k batch).map fun m =>
      (history past k).getLast?.elim m fun last => m.less k.descriptor last := by
  rw [expected]
  cases hh : (history (past ++ [batch]) k).head? with
  | none =>
    rw [merged_of_unseen (List.head?_eq_none_iff.mp hh)]
    rfl
  | some first =>
    have hkind := hsum first (List.mem_of_head? hh)
    simp [exportFor, Temporality.constant, hp, hkind]

/-! ## All collections -/

/-- What is exported of a series at the ends of some collections, one after the other. -/
def expectedAll (select : TemporalitySelector) :
    List (List Accumulation) → List (List Accumulation) → SeriesId → List (Option Aggregator)
  | _, [], _ => []
  | past, batch :: batches, k =>
    expected select past batch k :: expectedAll select (past ++ [batch]) batches k

theorem expectedAll_snoc (select : TemporalitySelector) (past batches : List (List Accumulation))
    (batch : List Accumulation) (k : SeriesId) :
    expectedAll select past (batches ++ [batch]) k =
      expectedAll select past batches k ++ [expected select (past ++ batches) batch k] := by
  induction batches generalizing past with
  | nil => simp [expectedAll]
  | cons first batches ih => simp [expectedAll, ih]

theorem take_expectedAll (select : TemporalitySelector) (past batches : List (List Accumulation))
    (k : SeriesId) (n : Nat) :
    (expectedAll select past batches k).take n = expectedAll select past (batches.take n) k := by
  induction batches generalizing past n with
  | nil => simp [expectedAll]
  | cons batch batches ih =>
    cases n with
    | zero => rfl
    | succ n => simp [expectedAll, ih]

/-- What a processor exports of changes, all together, is what it was handed. -/
theorem expectedAll_delta (past : List (List Accumulation))
    (hp : k.descriptor.kind.isPrecomputedSum = false) :
    (expectedAll (Temporality.constant .delta) past batches k).filterMap id =
      history batches k := by
  induction batches generalizing past with
  | nil => rfl
  | cons batch batches ih =>
    rw [expectedAll, expected_delta hp, List.filterMap_cons, ih]
    rfl

/-- Whether the changes from each total to the next one are in the range of a kind of integers. An
unsigned total must not decrease. -/
def StepsInRange (kind : NumberKind) (vs : List Int) : Prop :=
  match kind with
  | .u64 => vs.IsChain (· ≤ ·)
  | _ => vs.IsChain fun v w => kind.InRange (w - v)

theorem StepsInRange.snoc {kind : NumberKind} {vs : List Int} {w : Int}
    (h : StepsInRange kind (vs ++ [w])) (hw : kind.InRange w) :
    StepsInRange kind vs ∧
      ∀ v, vs.getLast? = some v → kind.InRange v → kind.InRange (w - v) := by
  cases kind with
  | u64 =>
    obtain ⟨hvs, -, hlast⟩ := List.isChain_append.mp h
    refine ⟨hvs, fun v hv hrange => ⟨?_, ?_⟩⟩
    · exact sub_nonneg.mpr (hlast v hv w rfl)
    · exact (sub_le_self w hrange.1).trans hw.2
  | i64 | f64 =>
    obtain ⟨hvs, -, hlast⟩ := List.isChain_append.mp h
    exact ⟨hvs, fun v hv _ => hlast v hv w rfl⟩

theorem integerSum?_less {d : Descriptor} (hk : d.numberKind.IsInteger) {x y : Number}
    (h : d.numberKind.InRange (d.numberKind.toInt x - d.numberKind.toInt y)) :
    ((Aggregator.sum x).less d (.sum y)).integerSum? d.numberKind =
      some (d.numberKind.toInt x - d.numberKind.toInt y) :=
  congrArg some (NumberKind.toInt_sub hk h)

/-- The changes of a precomputed sum add up to the sum that was reported last. -/
theorem sum_expectedAll_delta (hp : k.descriptor.kind.isPrecomputedSum = true)
    (hk : k.descriptor.numberKind.IsInteger) (hsum : ∀ m ∈ history batches k, m.kind = .sum)
    (hsteps : StepsInRange k.descriptor.numberKind
      ((history batches k).filterMap (Aggregator.integerSum? k.descriptor.numberKind))) :
    ((expectedAll (Temporality.constant .delta) [] batches k).filterMap fun a? =>
        a?.bind (Aggregator.integerSum? k.descriptor.numberKind)).sum =
      ((history batches k).filterMap
        (Aggregator.integerSum? k.descriptor.numberKind)).getLast?.getD 0 := by
  induction batches using List.reverseRecOn with
  | nil => rfl
  | append_singleton batches batch ih =>
    have hbefore : ∀ m ∈ history batches k, m.kind = .sum := fun m hm =>
      hsum m (by rw [history_snoc]; exact List.mem_append_left _ hm)
    rw [expectedAll_snoc, List.nil_append, expected_delta_precomputed hp hsum]
    rw [history_snoc] at hsum hsteps ⊢
    cases hm : merged k batch with
    | none =>
      rw [hm, Option.toList_none, List.append_nil] at hsteps
      simpa using ih hbefore hsteps
    | some m =>
      rw [hm] at hsum hsteps
      obtain ⟨x, rfl⟩ := Aggregator.exists_eq_sum (hsum m (by simp))
      rw [List.filterMap_append] at hsteps
      obtain ⟨hearlier, hstep⟩ := hsteps.snoc (NumberKind.toInt_inRange hk x)
      rw [List.filterMap_append, List.sum_append, ih hbefore hearlier, List.filterMap_append]
      rcases List.eq_nil_or_concat (history batches k) with hnil | ⟨earlier, last, hlast⟩
      · simp [hnil]
      · obtain ⟨y, rfl⟩ := Aggregator.exists_eq_sum (hbefore last (by rw [hlast]; simp))
        have hless := integerSum?_less hk (hstep (k.descriptor.numberKind.toInt y)
          (by simp [hlast]) (NumberKind.toInt_inRange hk y))
        simp [hlast, hless]

end Processor
end Metering
