import Mathlib
import Metering.Proofs.Aggregator.Boundaries

/-!
# Counting by bucket

A distribution counts values by bucket and in all, and each count stops at the largest one by
itself. Still every count tells how many values there were up to that largest one, and the counts
of all buckets together determine the count of all values.
-/

namespace Metering

def Count.ofNat (n : Nat) : Count := min n Count.top

theorem Count.plus_ofNat (m n : Nat) :
    Count.plus (Count.ofNat m) (Count.ofNat n) = Count.ofNat (m + n) := by
  change (min (min m Count.top + min n Count.top) Count.top : Nat) = min (m + n) Count.top
  omega

theorem Count.one_eq : (1 : Count) = Count.ofNat 1 := rfl

theorem Count.ofNat_ofNat (n : Nat) : Count.ofNat (Count.ofNat n) = Count.ofNat n := by
  simp [ofNat]

theorem Count.ofNat_sum {ι : Type} (f : ι → Nat) (is : List ι) :
    Count.ofNat (is.map fun i => Count.ofNat (f i)).sum = Count.ofNat (is.map f).sum := by
  induction is with
  | nil => rfl
  | cons i is ih =>
    rw [List.map_cons, List.map_cons, List.sum_cons, List.sum_cons, ← plus_ofNat, ← plus_ofNat,
      ofNat_ofNat, ih]

/-- What has a place below a bound is counted place by place. -/
theorem sum_countP_range {α : Type} (f : α → Nat) (xs : List α) (m : Nat) :
    ((List.range m).map fun i => xs.countP fun x => f x = i).sum =
      xs.countP fun x => f x < m := by
  induction m with
  | zero => simp
  | succ m ih =>
    have hstep : xs.countP (fun x => f x < m + 1) =
        xs.countP (fun x => f x < m) + xs.countP (fun x => f x = m) := by
      clear ih
      induction xs with
      | nil => rfl
      | cons x xs ih =>
        simp only [List.countP_cons, ih, decide_eq_true_eq]
        split <;> split <;> split <;> omega
    rw [List.range_succ, List.map_append, List.sum_append, ih, hstep]
    simp

namespace Distribution

/-- Whether the counts are those of values, by bucket and in all. -/
structure Tallies (bs : List Binary64) (vs : List Binary64) (s : Distribution) : Prop where
  length : s.buckets.length = bs.length + 1
  bucket : ∀ i, i < bs.length + 1 →
    s.buckets[i]? = some (Count.ofNat (vs.countP fun v => Boundaries.bucket bs v = i))
  count : s.count = Count.ofNat vs.length

variable {bs cs vs ws : List Binary64} {s t : Distribution}

theorem tallies_empty (kind : NumberKind) (bs : List Binary64) :
    (empty kind bs.length).Tallies bs [] := by
  constructor
  · simp [empty]
  · intro i hi
    simp [empty, hi, Count.ofNat]
  · rfl

theorem Tallies.record (h : s.Tallies bs vs) (kind : NumberKind) (v : Binary64) (n : Number) :
    (s.record kind (Boundaries.bucket bs v) n).Tallies bs (vs ++ [v]) := by
  constructor
  · simp [Distribution.record, h.length]
  · intro i hi
    rw [Distribution.record, List.getElem?_modify, h.bucket i hi, List.countP_append,
      ← Count.plus_ofNat]
    by_cases hb : Boundaries.bucket bs v = i
    · simp [hb, ← Count.one_eq]
    · simp [hb, Count.plus_ofNat]
  · rw [Distribution.record, h.count, Count.one_eq, Count.plus_ofNat, List.length_append,
      List.length_singleton]

theorem Tallies.merge (hs : s.Tallies bs vs) (ht : t.Tallies bs ws) (kind : NumberKind) :
    (s.merge kind t).Tallies bs (vs ++ ws) := by
  constructor
  · simp [Distribution.merge, hs.length, ht.length]
  · intro i hi
    rw [Distribution.merge, List.getElem?_zipWith, hs.bucket i hi, ht.bucket i hi,
      List.countP_append, ← Count.plus_ofNat]
  · rw [Distribution.merge, hs.count, ht.count, Count.plus_ofNat, List.length_append]

theorem Tallies.congr (h : Boundaries.agree bs cs = true) :
    s.Tallies bs vs ↔ s.Tallies cs vs := by
  have hlength := Boundaries.length_eq_of_agree h
  have hbucket : Boundaries.bucket bs = Boundaries.bucket cs :=
    funext (Boundaries.bucket_congr h)
  constructor
  · intro hs
    exact ⟨hlength ▸ hs.length, hlength ▸ hbucket ▸ hs.bucket, hs.count⟩
  · intro hs
    exact ⟨hlength ▸ hs.length, hlength ▸ hbucket ▸ hs.bucket, hs.count⟩

theorem Tallies.buckets_eq (h : s.Tallies bs vs) :
    s.buckets = (List.range (bs.length + 1)).map fun i =>
      Count.ofNat (vs.countP fun v => Boundaries.bucket bs v = i) := by
  apply List.ext_getElem?
  intro i
  by_cases hi : i < bs.length + 1
  · simp [h.bucket i hi, hi]
  · have hbeyond : s.buckets.length ≤ i := by
      rw [h.length]
      omega
    simp [List.getElem?_eq_none hbeyond, hi]

/-- No value is left out by the buckets, or counted twice. -/
theorem Tallies.count_eq (h : s.Tallies bs vs) : s.count = Count.ofNat s.buckets.sum := by
  have hall : (vs.countP fun v => Boundaries.bucket bs v < bs.length + 1) = vs.length := by
    apply List.countP_eq_length.mpr
    intro v _
    have hle := Boundaries.bucket_le_length bs v
    simp only [decide_eq_true_eq]
    omega
  rw [h.buckets_eq, Count.ofNat_sum, sum_countP_range, hall, h.count]

/-- Without NaN a bucket counts the values between its boundaries. -/
theorem Tallies.getElem?_eq (h : s.Tallies bs vs) (hbs : Boundaries.Increasing bs)
    (hvs : ∀ v ∈ vs, v.isNaN = false) {i : Nat} (hi : i < bs.length + 1) :
    s.buckets[i]? = some (Count.ofNat (vs.countP (Boundaries.spans bs i))) := by
  rw [h.bucket i hi]
  congr 2
  apply List.countP_congr
  intro v hv
  rw [decide_eq_true_eq]
  exact hbs.bucket_eq_iff (hvs v hv) (by omega)

end Distribution
end Metering
