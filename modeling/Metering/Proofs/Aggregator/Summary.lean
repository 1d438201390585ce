import Metering.Proofs.Aggregator.New
import Metering.Proofs.Aggregator.Tally
import Metering.Proofs.Number.Range

/-!
# What an aggregator says of its measurements

While no sum leaves its range, an aggregator is determined by the measurements it was given,
whatever way they took to it: one by one in any order, or merged from other aggregators.
-/

namespace Metering

/-- The exact sum of readings. -/
def total (kind : NumberKind) (rs : List Reading) : Int :=
  (rs.map fun r => kind.toInt r.value).sum

@[simp] theorem total_nil (kind : NumberKind) : total kind [] = 0 := rfl

theorem total_append (kind : NumberKind) (rs rs' : List Reading) :
    total kind (rs ++ rs') = total kind rs + total kind rs' := by
  simp [total]

theorem total_singleton (kind : NumberKind) (r : Reading) :
    total kind [r] = kind.toInt r.value := by
  simp [total]

theorem total_perm (kind : NumberKind) {rs rs' : List Reading} (h : rs.Perm rs') :
    total kind rs = total kind rs' := (h.map _).sum_eq

/-- Whether a reading is the latest one, if there is any. -/
def IsLatest (rs : List Reading) : Option Reading → Prop
  | none => rs = []
  | some r => r ∈ rs ∧ ∀ r' ∈ rs, r'.stamp.sequence ≤ r.stamp.sequence

structure Extremes.Describes (kind : NumberKind) (rs : List Reading) (e : Extremes) : Prop where
  count : e.count = Count.ofNat rs.length
  sum : kind.toInt e.sum = total kind rs
  min_mem : ∃ r ∈ rs, r.value = e.min
  min_le : ∀ r ∈ rs, kind.toInt e.min ≤ kind.toInt r.value
  max_mem : ∃ r ∈ rs, r.value = e.max
  le_max : ∀ r ∈ rs, kind.toInt r.value ≤ kind.toInt e.max

/-- The number of readings in a bucket. -/
def inBucket (kind : NumberKind) (boundaries : List Binary64) (i : Nat) (rs : List Reading) :
    Nat :=
  rs.countP fun r => Boundaries.bucket boundaries (r.value.toBinary64 kind) = i

structure Distribution.Describes (kind : NumberKind) (boundaries : List Binary64)
    (rs : List Reading) (s : Distribution) : Prop where
  length : s.buckets.length = boundaries.length + 1
  bucket : ∀ i, i < boundaries.length + 1 →
    s.buckets[i]? = some (Count.ofNat (inBucket kind boundaries i rs))
  count : s.count = Count.ofNat rs.length
  sum : kind.toInt s.sum = total kind rs

theorem Distribution.describes_iff {kind : NumberKind} {boundaries : List Binary64}
    {rs : List Reading} {s : Distribution} :
    s.Describes kind boundaries rs ↔
      s.Tallies boundaries (rs.map (·.value.toBinary64 kind)) ∧
        kind.toInt s.sum = total kind rs := by
  have hcount (i : Nat) : inBucket kind boundaries i rs =
      (rs.map (·.value.toBinary64 kind)).countP fun v => Boundaries.bucket boundaries v = i := by
    rw [inBucket, List.countP_map]
    rfl
  constructor
  · intro h
    refine ⟨⟨h.length, ?_, by rw [h.count, List.length_map]⟩, h.sum⟩
    intro i hi
    rw [h.bucket i hi, hcount]
  · intro ⟨h, hsum⟩
    refine ⟨h.length, ?_, by rw [h.count, List.length_map], hsum⟩
    intro i hi
    rw [h.bucket i hi, hcount]

/-! ## Parts that readings determine -/

theorem IsLatest.unique {rs : List Reading} {x y : Option Reading} (hx : IsLatest rs x)
    (hy : IsLatest rs y) (ht : (rs.map (·.stamp.sequence)).Nodup) : x = y := by
  cases x with
  | none =>
    obtain rfl : rs = [] := hx
    cases y with
    | none => rfl
    | some r => exact absurd hy.1 (by simp)
  | some r =>
    cases y with
    | none =>
      obtain rfl : rs = [] := hy
      exact absurd hx.1 (by simp)
    | some r' =>
      have htime : r.stamp.sequence = r'.stamp.sequence := le_antisymm (hy.2 r hx.1) (hx.2 r' hy.1)
      rw [List.inj_on_of_nodup_map ht hx.1 hy.1 htime]

theorem Extremes.Describes.unique {kind : NumberKind} (hk : kind.IsInteger) {rs : List Reading}
    {s t : Extremes} (hs : s.Describes kind rs) (ht : t.Describes kind rs) : s = t := by
  obtain ⟨r, hr, hrv⟩ := hs.min_mem
  obtain ⟨r', hr', hrv'⟩ := ht.min_mem
  obtain ⟨q, hq, hqv⟩ := hs.max_mem
  obtain ⟨q', hq', hqv'⟩ := ht.max_mem
  have hcount : s.count = t.count := hs.count.trans ht.count.symm
  have hsum : s.sum = t.sum := NumberKind.toInt_injective hk (hs.sum.trans ht.sum.symm)
  have hmin : s.min = t.min := by
    refine NumberKind.toInt_injective hk (le_antisymm ?_ ?_)
    · exact hrv' ▸ hs.min_le r' hr'
    · exact hrv ▸ ht.min_le r hr
  have hmax : s.max = t.max := by
    refine NumberKind.toInt_injective hk (le_antisymm ?_ ?_)
    · exact hqv ▸ ht.le_max q hq
    · exact hqv' ▸ hs.le_max q' hq'
  cases s
  cases t
  simp_all

theorem Distribution.Describes.unique {kind : NumberKind} (hk : kind.IsInteger)
    {boundaries : List Binary64} {rs : List Reading} {s t : Distribution}
    (hs : s.Describes kind boundaries rs) (ht : t.Describes kind boundaries rs) : s = t := by
  have hbuckets : s.buckets = t.buckets := by
    refine List.ext_getElem? fun i => ?_
    by_cases hi : i < boundaries.length + 1
    · rw [hs.bucket i hi, ht.bucket i hi]
    · rw [List.getElem?_eq_none (by rw [hs.length]; omega),
        List.getElem?_eq_none (by rw [ht.length]; omega)]
  have hcount : s.count = t.count := hs.count.trans ht.count.symm
  have hsum : s.sum = t.sum := NumberKind.toInt_injective hk (hs.sum.trans ht.sum.symm)
  cases s
  cases t
  simp_all

/-! ## Merging parts -/

theorem IsLatest.merge {rs rs' : List Reading} {x y : Option Reading} (hx : IsLatest rs x)
    (hy : IsLatest rs' y) : IsLatest (rs ++ rs') (Aggregator.latest x y) := by
  cases x with
  | none =>
    obtain rfl : rs = [] := hx
    cases y <;> exact hy
  | some r =>
    cases y with
    | none =>
      obtain rfl : rs' = [] := hy
      rw [List.append_nil]
      exact hx
    | some r' =>
      obtain ⟨hr, hle⟩ := hx
      obtain ⟨hr', hle'⟩ := hy
      by_cases ht : r.stamp.sequence < r'.stamp.sequence
      · simp only [Aggregator.latest, ht, if_true]
        refine ⟨List.mem_append_right _ hr', fun r'' h => ?_⟩
        rcases List.mem_append.mp h with h | h
        · exact (hle r'' h).trans ht.le
        · exact hle' r'' h
      · simp only [Aggregator.latest, ht, if_false]
        refine ⟨List.mem_append_left _ hr, fun r'' h => ?_⟩
        rcases List.mem_append.mp h with h | h
        · exact hle r'' h
        · exact (hle' r'' h).trans (not_lt.mp ht)

theorem Extremes.describes_single (kind : NumberKind) (r : Reading) :
    (Extremes.single r.value).Describes kind [r] := by
  refine ⟨rfl, (total_singleton kind r).symm, ⟨r, by simp, rfl⟩, ?_, ⟨r, by simp, rfl⟩, ?_⟩ <;>
    simp [Extremes.single]

theorem compare?_eq_lt {kind : NumberKind} (hk : kind.IsInteger) (m n : Number) :
    m.compare? kind n = some .lt ↔ kind.toInt m < kind.toInt n := by
  cases kind with
  | f64 => exact absurd rfl hk
  | i64 => simp [Number.compare?, compare_lt_iff_lt]
  | u64 => simp [Number.compare?, compare_lt_iff_lt]

theorem compare?_eq_gt {kind : NumberKind} (hk : kind.IsInteger) (m n : Number) :
    m.compare? kind n = some .gt ↔ kind.toInt n < kind.toInt m := by
  cases kind with
  | f64 => exact absurd rfl hk
  | i64 => simp [Number.compare?, compare_gt_iff_gt]
  | u64 => simp [Number.compare?, compare_gt_iff_gt]

theorem Extremes.Describes.merge {kind : NumberKind} (hk : kind.IsInteger)
    {rs rs' : List Reading} {s t : Extremes} (hs : s.Describes kind rs) (ht : t.Describes kind rs')
    (hsum : kind.InRange (total kind rs + total kind rs')) :
    (Extremes.merge kind s t).Describes kind (rs ++ rs') := by
  refine ⟨?_, ?_, ?_, ?_, ?_, ?_⟩
  · rw [Extremes.merge, hs.count, ht.count, Count.plus_ofNat, List.length_append]
  · rw [← hs.sum, ← ht.sum] at hsum
    rw [Extremes.merge, NumberKind.toInt_add hk hsum, hs.sum, ht.sum, total_append]
  · obtain ⟨r, hr, hrv⟩ := hs.min_mem
    obtain ⟨r', hr', hrv'⟩ := ht.min_mem
    simp only [Extremes.merge]
    split
    · exact ⟨r', by simp [hr'], hrv'⟩
    · exact ⟨r, by simp [hr], hrv⟩
  · intro r hr
    simp only [Extremes.merge, compare?_eq_lt hk]
    rcases List.mem_append.mp hr with hr | hr
    · have := hs.min_le r hr
      split <;> omega
    · have := ht.min_le r hr
      split <;> omega
  · obtain ⟨r, hr, hrv⟩ := hs.max_mem
    obtain ⟨r', hr', hrv'⟩ := ht.max_mem
    simp only [Extremes.merge]
    split
    · exact ⟨r', by simp [hr'], hrv'⟩
    · exact ⟨r, by simp [hr], hrv⟩
  · intro r hr
    simp only [Extremes.merge, compare?_eq_gt hk]
    rcases List.mem_append.mp hr with hr | hr
    · have := hs.le_max r hr
      split <;> omega
    · have := ht.le_max r hr
      split <;> omega

theorem Distribution.Describes.merge {kind : NumberKind} (hk : kind.IsInteger)
    {boundaries : List Binary64} {rs rs' : List Reading} {s t : Distribution}
    (hs : s.Describes kind boundaries rs) (ht : t.Describes kind boundaries rs')
    (hsum : kind.InRange (total kind rs + total kind rs')) :
    (Distribution.merge kind s t).Describes kind boundaries (rs ++ rs') := by
  rw [describes_iff] at hs ht ⊢
  have ⟨hs, hs'⟩ := hs
  have ⟨ht, ht'⟩ := ht
  constructor
  · rw [List.map_append]
    exact hs.merge ht kind
  · rw [← hs', ← ht'] at hsum
    rw [Distribution.merge, NumberKind.toInt_add hk hsum, hs', ht', total_append]

theorem Distribution.Describes.record {kind : NumberKind} (hk : kind.IsInteger)
    {boundaries : List Binary64} {rs : List Reading} {s : Distribution}
    (hs : s.Describes kind boundaries rs) (r : Reading)
    (hsum : kind.InRange (total kind (rs ++ [r]))) :
    (s.record kind (Boundaries.bucket boundaries (r.value.toBinary64 kind)) r.value).Describes
      kind boundaries (rs ++ [r]) := by
  rw [describes_iff] at hs ⊢
  have ⟨hs, hs'⟩ := hs
  constructor
  · rw [List.map_append]
    exact hs.record kind _ r.value
  · rw [total_append, total_singleton] at hsum ⊢
    rw [← hs'] at hsum ⊢
    exact NumberKind.toInt_add hk hsum

namespace Aggregator

/-- Whether an aggregator of an instrument says of its measurements what readings are. -/
def Describes (d : Descriptor) (rs : List Reading) : Aggregator → Prop
  | sum x => d.numberKind.toInt x = total d.numberKind rs
  | lastValue last => IsLatest rs last
  | minMaxSumCount _ none => rs = []
  | minMaxSumCount _ (some e) => e.Describes d.numberKind rs
  | histogram _ boundaries s => s.Describes d.numberKind boundaries rs

/-- Whether a sum is kept exactly, where one is kept. -/
def Exact (d : Descriptor) (a : Aggregator) (i : Int) : Prop :=
  a.sum?.isSome = true → d.numberKind.IsInteger ∧ d.numberKind.InRange i

theorem Describes.update {d : Descriptor} {rs : List Reading} {a : Aggregator}
    (h : a.Describes d rs) {r : Reading} (hsum : a.Exact d (total d.numberKind (rs ++ [r])))
    (htime : ∀ r' ∈ rs, r'.stamp.sequence ≤ r.stamp.sequence) :
    (a.update r.value d r.stamp).Describes d (rs ++ [r]) := by
  cases a with
  | sum x =>
    obtain ⟨hk, hrange⟩ := hsum rfl
    have hx : d.numberKind.toInt x = total d.numberKind rs := h
    rw [total_append, total_singleton, ← hx] at hrange
    show d.numberKind.toInt (x.add d.numberKind r.value) = _
    rw [NumberKind.toInt_add hk hrange, total_append, total_singleton, hx]
  | lastValue last =>
    refine ⟨by simp, fun r' hr' => ?_⟩
    rcases List.mem_append.mp hr' with hr' | hr'
    · exact htime r' hr'
    · rw [List.mem_singleton.mp hr']
  | minMaxSumCount kind state =>
    obtain ⟨hk, hrange⟩ := hsum rfl
    cases state with
    | none =>
      obtain rfl : rs = [] := h
      exact Extremes.describes_single d.numberKind r
    | some e =>
      have he : e.Describes d.numberKind rs := h
      rw [total_append] at hrange
      exact he.merge hk (Extremes.describes_single _ r) hrange
  | histogram kind boundaries s =>
    obtain ⟨hk, hrange⟩ := hsum rfl
    have hs : s.Describes d.numberKind boundaries rs := h
    exact hs.record hk r hrange

theorem Describes.absorb {d : Descriptor} {rs rs' : List Reading} {a b : Aggregator}
    (ha : a.Describes d rs) (hb : b.Describes d rs') (hc : a.Compatible b)
    (hshape : a.shape = b.shape)
    (hsum : a.Exact d (total d.numberKind rs + total d.numberKind rs')) :
    (a.absorb d b).Describes d (rs ++ rs') := by
  have hm : mismatch? a b = none := hc
  cases a with
  | sum x =>
    obtain ⟨hk, hrange⟩ := hsum rfl
    cases b with
    | sum y =>
      have hx : d.numberKind.toInt x = total d.numberKind rs := ha
      have hy : d.numberKind.toInt y = total d.numberKind rs' := hb
      rw [← hx, ← hy] at hrange
      show d.numberKind.toInt (x.add d.numberKind y) = _
      rw [NumberKind.toInt_add hk hrange, total_append, hx, hy]
    | _ => simp [shape] at hshape
  | lastValue x =>
    cases b with
    | lastValue y =>
      exact IsLatest.merge ha hb
    | _ => simp [shape] at hshape
  | minMaxSumCount kind x =>
    obtain ⟨hk, hrange⟩ := hsum rfl
    cases b with
    | minMaxSumCount kind' y =>
      cases x with
      | none =>
        obtain rfl : rs = [] := ha
        cases y <;> exact hb
      | some e =>
        cases y with
        | none =>
          obtain rfl : rs' = [] := hb
          rw [List.append_nil]
          exact ha
        | some e' =>
          have he : e.Describes d.numberKind rs := ha
          exact he.merge hk hb hrange
    | _ => simp [shape] at hshape
  | histogram kind boundaries s =>
    obtain ⟨hk, hrange⟩ := hsum rfl
    cases b with
    | histogram kind' boundaries' t =>
      obtain rfl : boundaries = boundaries' := by simpa [shape] using hshape
      have hs : s.Describes d.numberKind boundaries rs := ha
      rw [Aggregator.absorb, merge, hm]
      exact hs.merge hk hb hrange
    | _ => simp [shape] at hshape

theorem Describes.perm {d : Descriptor} {rs rs' : List Reading} {a : Aggregator}
    (h : a.Describes d rs) (hp : rs.Perm rs') : a.Describes d rs' := by
  have htotal := total_perm d.numberKind hp
  cases a with
  | sum x => exact Eq.trans h htotal
  | lastValue last =>
    cases last with
    | none => exact List.Perm.eq_nil (h ▸ hp.symm)
    | some r =>
      obtain ⟨hr, hle⟩ := h
      exact ⟨hp.mem_iff.mp hr, fun r' hr' => hle r' (hp.mem_iff.mpr hr')⟩
  | minMaxSumCount kind state =>
    cases state with
    | none => exact List.Perm.eq_nil (h ▸ hp.symm)
    | some e =>
      have he : e.Describes d.numberKind rs := h
      obtain ⟨r, hr, hrv⟩ := he.min_mem
      obtain ⟨r', hr', hrv'⟩ := he.max_mem
      exact ⟨hp.length_eq ▸ he.count, he.sum.trans htotal, ⟨r, hp.mem_iff.mp hr, hrv⟩,
        fun r hr => he.min_le r (hp.mem_iff.mpr hr), ⟨r', hp.mem_iff.mp hr', hrv'⟩,
        fun r hr => he.le_max r (hp.mem_iff.mpr hr)⟩
  | histogram kind boundaries s =>
    have hs : s.Describes d.numberKind boundaries rs := h
    refine ⟨hs.length, fun i hi => ?_, hp.length_eq ▸ hs.count, hs.sum.trans htotal⟩
    rw [hs.bucket i hi, inBucket, inBucket, hp.countP_eq]

/-- Aggregators of one instrument and one shape that say the same are the same. -/
theorem Describes.unique {d : Descriptor} {rs : List Reading} {a b : Aggregator}
    (ha : a.Describes d rs) (hb : b.Describes d rs) (hcleared : a.cleared d = b.cleared d)
    (hk : a.sum?.isSome = true → d.numberKind.IsInteger)
    (htimes : (rs.map (·.stamp.sequence)).Nodup) : a = b := by
  cases a with
  | sum x =>
    cases b with
    | sum y =>
      have hxy : d.numberKind.toInt x = d.numberKind.toInt y := Eq.trans ha hb.symm
      rw [NumberKind.toInt_injective (hk rfl) hxy]
    | _ => simp [cleared] at hcleared
  | lastValue x =>
    cases b with
    | lastValue y => rw [IsLatest.unique ha hb htimes]
    | _ => simp [cleared] at hcleared
  | minMaxSumCount kind x =>
    cases b with
    | minMaxSumCount kind' y =>
      obtain rfl : kind = kind' := by simpa [cleared] using hcleared
      cases x with
      | none =>
        obtain rfl : rs = [] := ha
        cases y with
        | none => rfl
        | some e =>
          have he : e.Describes d.numberKind [] := hb
          exact absurd he.min_mem (by simp)
      | some e =>
        cases y with
        | none =>
          obtain rfl : rs = [] := hb
          have he : e.Describes d.numberKind [] := ha
          exact absurd he.min_mem (by simp)
        | some e' => rw [Extremes.Describes.unique (hk rfl) ha hb]
    | _ => simp [cleared] at hcleared
  | histogram kind boundaries s =>
    cases b with
    | histogram kind' boundaries' t =>
      obtain ⟨rfl, rfl⟩ : kind = kind' ∧ boundaries = boundaries' := by
        simp only [cleared, histogram.injEq] at hcleared
        exact ⟨hcleared.1, hcleared.2.1⟩
      rw [Distribution.Describes.unique (hk rfl) ha hb]
    | _ => simp [cleared] at hcleared

theorem IsNew.describes {d : Descriptor} {g : Aggregator} (h : IsNew d g)
    (hk : g.sum?.isSome = true → d.numberKind.IsInteger) : g.Describes d [] := by
  obtain ⟨kind, boundaries, rfl⟩ := h
  cases kind with
  | sum => exact NumberKind.toInt_zero _ (hk rfl)
  | lastValue => rfl
  | minMaxSumCount => rfl
  | histogram =>
    refine ⟨List.length_replicate, fun i hi => ?_, rfl, NumberKind.toInt_zero _ (hk rfl)⟩
    exact List.getElem?_replicate_of_lt hi

end Aggregator
end Metering
