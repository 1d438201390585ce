import Metering.Aggregator.Basic
import Metering.Proofs.Aggregator.Tally

/-!
# Histograms under operations

Histograms are made, updated, merged, moved and copied in any order. Each of them keeps its
boundaries, and its counts are those of the measurements that were recorded in it, merged into it
or moved to it.
-/

namespace Metering.Histogram

open Aggregator (newHistogram)

/-- A histogram with the measurements that it took in, as doubles. -/
structure Holding where
  aggregator : Aggregator
  taken : List Binary64

/-- An operation on histograms, which are numbered. -/
inductive Operation where
  | create (d : Descriptor) (boundaries : List Binary64)
  | update (i : Nat) (n : Number) (d : Descriptor) (stamp : Stamp)
  /-- merges the second histogram into the first -/
  | merge (i j : Nat) (d : Descriptor)
  /-- moves the measurements of the first histogram into the second, which is another one -/
  | move (i j : Nat) (d : Descriptor)
  | snapshot (i : Nat)

def update (n : Number) (d : Descriptor) (stamp : Stamp) (h : Holding) : Holding :=
  ⟨h.aggregator.update n d stamp, h.taken ++ [n.toBinary64 d.numberKind]⟩

/-- The histograms after an operation. One that fails changes none of them. -/
def operate (hs : List Holding) : Operation → List Holding
  | .create d boundaries => hs ++ [⟨newHistogram d boundaries, []⟩]
  | .update i n d stamp => hs.modify i (update n d stamp)
  | .merge i j d =>
    match hs[i]?, hs[j]? with
    | some a, some b =>
      match a.aggregator.merge b.aggregator d with
      | .ok merged => hs.set i ⟨merged, a.taken ++ b.taken⟩
      | .error _ => hs
    | _, _ => hs
  | .move i j d =>
    match hs[i]?, hs[j]? with
    | some a, some b =>
      match a.aggregator.move b.aggregator d with
      | .ok (source, destination) =>
        if i = j then hs else (hs.set i ⟨source, []⟩).set j ⟨destination, a.taken⟩
      | .error _ => hs
    | _, _ => hs
  | .snapshot i => hs ++ hs[i]?.toList

def run (operations : List Operation) : List Holding := operations.foldl operate []

/-! ## One histogram -/

/-- A histogram with proper boundaries whose counts are those of what it took in. -/
structure Sound (h : Holding) (kind : NumberKind) (bs : List Binary64) (s : Distribution) :
    Prop where
  shape : h.aggregator = .histogram kind bs s
  increasing : Boundaries.Increasing bs
  tallies : s.Tallies bs h.taken

def IsSound (h : Holding) : Prop := ∃ kind bs s, Sound h kind bs s

theorem isSound_newHistogram (d : Descriptor) (boundaries : List Binary64) :
    IsSound ⟨newHistogram d boundaries, []⟩ :=
  ⟨d.numberKind, Boundaries.ofList boundaries, _, rfl, Boundaries.increasing_ofList boundaries,
    Distribution.tallies_empty _ _⟩

variable {h a b : Holding} {d : Descriptor}

theorem IsSound.update (hh : IsSound h) (n : Number) (d : Descriptor) (stamp : Stamp) :
    IsSound (update n d stamp h) := by
  obtain ⟨kind, bs, s, hs⟩ := hh
  refine ⟨kind, bs, _, ?_, hs.increasing, hs.tallies.record d.numberKind _ n⟩
  rw [Histogram.update, hs.shape]
  rfl

/-- Only histograms whose boundaries agree can be combined. -/
theorem agree_of_mismatch? {kind kind' : NumberKind} {bs cs : List Binary64} {s t : Distribution}
    (hm : Aggregator.mismatch? (.histogram kind bs s) (.histogram kind' cs t) = none) :
    Boundaries.agree bs cs = true := by
  dsimp only [Aggregator.mismatch?] at hm
  split at hm
  next hagree => exact hagree
  next => cases hm

theorem IsSound.merge (ha : IsSound a) (hb : IsSound b) {merged : Aggregator}
    (hmerge : a.aggregator.merge b.aggregator d = .ok merged) :
    IsSound ⟨merged, a.taken ++ b.taken⟩ := by
  obtain ⟨kind, bs, s, hs⟩ := ha
  obtain ⟨kind', cs, t, ht⟩ := hb
  rw [hs.shape, ht.shape] at hmerge
  dsimp only [Aggregator.merge] at hmerge
  split at hmerge
  · cases hmerge
  next hm =>
    have hagree := agree_of_mismatch? hm
    have ht' := (Distribution.Tallies.congr hagree).mpr ht.tallies
    exact ⟨kind, bs, _, (Except.ok.inj hmerge).symm, hs.increasing, hs.tallies.merge ht' _⟩

theorem IsSound.move (ha : IsSound a) (hb : IsSound b) {source destination : Aggregator}
    (hmove : a.aggregator.move b.aggregator d = .ok (source, destination)) :
    IsSound ⟨source, []⟩ ∧ IsSound ⟨destination, a.taken⟩ := by
  obtain ⟨kind, bs, s, hs⟩ := ha
  obtain ⟨kind', cs, t, ht⟩ := hb
  rw [hs.shape, ht.shape] at hmove
  dsimp only [Aggregator.move] at hmove
  split at hmove
  · cases hmove
  next hm =>
    have hagree := agree_of_mismatch? hm
    obtain ⟨rfl, rfl⟩ := Prod.mk.inj (Except.ok.inj hmove)
    constructor
    · exact ⟨kind, bs, _, rfl, hs.increasing, Distribution.tallies_empty kind bs⟩
    · exact ⟨kind', cs, s, rfl, ht.increasing, (Distribution.Tallies.congr hagree).mp hs.tallies⟩

/-! ## Runs -/

variable {hs : List Holding}

theorem isSound_set (h : ∀ a ∈ hs, IsSound a) (hb : IsSound b) (i : Nat) :
    ∀ a ∈ hs.set i b, IsSound a := by
  intro a ha
  rcases List.mem_or_eq_of_mem_set ha with ha | rfl
  · exact h a ha
  · exact hb

theorem isSound_operate (h : ∀ a ∈ hs, IsSound a) (operation : Operation) :
    ∀ a ∈ operate hs operation, IsSound a := by
  cases operation with
  | create d boundaries =>
    intro a ha
    rcases List.mem_append.mp ha with ha | ha
    · exact h a ha
    · rw [List.mem_singleton.mp ha]
      exact isSound_newHistogram d boundaries
  | update i n d stamp =>
    intro a ha
    obtain ⟨j, hj⟩ := List.mem_iff_getElem?.mp ha
    rw [operate, List.getElem?_modify] at hj
    obtain ⟨b, hb, hba⟩ := Option.map_eq_some_iff.mp hj
    have hsound := h b (List.mem_of_getElem? hb)
    split at hba
    · rw [← hba]
      exact hsound.update n d stamp
    · rw [← hba]
      exact hsound
  | merge i j d =>
    dsimp only [operate]
    split
    next a b hi hj =>
      split
      next merged hmerge =>
        have ha := h a (List.mem_of_getElem? hi)
        have hb := h b (List.mem_of_getElem? hj)
        exact isSound_set h (ha.merge hb hmerge) i
      next => exact h
    next => exact h
  | move i j d =>
    dsimp only [operate]
    split
    next a b hi hj =>
      split
      next source destination hmove =>
        have ha := h a (List.mem_of_getElem? hi)
        have hb := h b (List.mem_of_getElem? hj)
        have ⟨hsource, hdestination⟩ := ha.move hb hmove
        split
        · exact h
        · exact isSound_set (isSound_set h hsource i) hdestination j
      next => exact h
    next => exact h
  | snapshot i =>
    intro a ha
    rcases List.mem_append.mp ha with ha | ha
    · exact h a ha
    · exact h a (List.mem_of_getElem? (Option.mem_toList.mp ha))

theorem isSound_run (operations : List Operation) : ∀ h ∈ run operations, IsSound h := by
  have hfold : ∀ operations hs, (∀ h ∈ hs, IsSound h) →
      ∀ h ∈ List.foldl operate hs operations, IsSound h := by
    intro operations
    induction operations with
    | nil => exact fun hs h => h
    | cons operation operations ih => exact fun hs h => ih _ (isSound_operate h operation)
  exact hfold operations [] (by simp)

/-- A histogram is made with the numbers among the boundaries that are given, each of them once up
to the sign of zero, in strictly increasing order. After operations of any kind it has one more
bucket than boundaries, the bucket of every value among them; it is the number of boundaries that
do not exceed the value, which stand in front. The count of all measurements is the sum of the
buckets, up to the largest count. If no measurement was a NaN, a bucket counts the measurements
that the histogram took in between its boundaries, up to the largest count; and all of them, unless
there were so many measurements that a count was cut off. -/
theorem histogram_counts_by_bucket :
    (∀ (d : Descriptor) (given : List Binary64), ∃ boundaries,
      (newHistogram d given).buckets? =
          some (boundaries, List.replicate (boundaries.length + 1) 0) ∧
        Boundaries.Increasing boundaries ∧
        (∀ b ∈ boundaries, b ∈ given) ∧
        ∀ b ∈ given, b.isNaN = false → ∃ c ∈ boundaries, c.numericEq b = true) ∧
      ∀ operations, ∀ h ∈ run operations, ∃ boundaries counts count,
        h.aggregator.buckets? = some (boundaries, counts) ∧ h.aggregator.count? = some count ∧
          Boundaries.Increasing boundaries ∧ counts.length = boundaries.length + 1 ∧
          (∀ v, Boundaries.bucket boundaries v < counts.length ∧
            ∀ j b, boundaries[j]? = some b →
              (j < Boundaries.bucket boundaries v ↔ b.le v = true)) ∧
          count = min counts.sum Count.top ∧
          ((∀ v ∈ h.taken, v.isNaN = false) → ∀ i, i < counts.length →
            counts[i]? = some (min (h.taken.countP (Boundaries.spans boundaries i)) Count.top) ∧
              (h.taken.length ≤ Count.top →
                counts[i]? = some (h.taken.countP (Boundaries.spans boundaries i)))) := by
  constructor
  · intro d given
    refine ⟨Boundaries.ofList given, rfl, Boundaries.increasing_ofList given, ?_, ?_⟩
    · intro b hb
      exact (Boundaries.mem_of_mem_ofList hb).1
    · intro b hb hn
      exact Boundaries.exists_mem_ofList hb hn
  · intro operations h hh
    obtain ⟨kind, bs, s, hs⟩ := isSound_run operations h hh
    refine ⟨bs, s.buckets, s.count, ?_, ?_, hs.increasing, hs.tallies.length, ?_,
      hs.tallies.count_eq, ?_⟩
    · rw [hs.shape]
      rfl
    · rw [hs.shape]
      rfl
    · intro v
      constructor
      · rw [hs.tallies.length]
        exact Nat.lt_succ_of_le (Boundaries.bucket_le_length bs v)
      · intro j b hb
        exact hs.increasing.lt_bucket_iff hb
    · intro hn i hi
      rw [hs.tallies.length] at hi
      have hcount := hs.tallies.getElem?_eq hs.increasing hn hi
      refine ⟨hcount, ?_⟩
      intro htop
      have hle := List.countP_le_length (p := Boundaries.spans bs i) (l := h.taken)
      rw [hcount, Count.ofNat, min_eq_left (hle.trans htop)]

/-- Boundaries with both zeros and a NaN, merged with boundaries that have one zero: latencies are
counted from the lower boundary of their bucket on, and -0 as 0. -/
theorem histogram_counts_of_latencies :
    let d : Descriptor := { name := "latency", kind := .histogram, numberKind := .f64 }
    let zero : Binary64 := ⟨0⟩
    let minusZero : Binary64 := ⟨0x8000000000000000⟩
    let five : Binary64 := ⟨0x4014000000000000⟩
    let ten : Binary64 := ⟨0x4024000000000000⟩
    let nan : Binary64 := ⟨0x7ff8000000000000⟩
    let operations : List Operation :=
      [.create d [ten, five, zero, nan, minusZero, ten], .create d [zero, five, ten],
        .update 0 ⟨minusZero.bits⟩ d ⟨0, 1⟩, .update 0 ⟨ten.bits⟩ d ⟨0, 2⟩,
        .update 1 ⟨five.bits⟩ d ⟨0, 3⟩,
        .merge 0 1 d, .snapshot 0, .update 0 ⟨zero.bits⟩ d ⟨0, 4⟩, .move 2 1 d]
    (run operations).map (·.aggregator.buckets?) =
        [some ([minusZero, five, ten], [0, 2, 1, 1]), some ([zero, five, ten], [0, 1, 1, 1]),
          some ([minusZero, five, ten], [0, 0, 0, 0])] ∧
      ∃ h ∈ run operations, h.taken = [minusZero, ten, five, zero] ∧
        ∃ boundaries counts, h.aggregator.buckets? = some (boundaries, counts) ∧
          ∀ i, i < counts.length →
            counts[i]? = some (h.taken.countP (Boundaries.spans boundaries i)) := by
  intro d zero minusZero five ten nan operations
  have htaken : ∃ h ∈ run operations, h.taken = [minusZero, ten, five, zero] := by decide +kernel
  obtain ⟨h, hh, htaken⟩ := htaken
  refine ⟨by decide +kernel, h, hh, htaken, ?_⟩
  obtain ⟨boundaries, counts, _, hbuckets, _, _, _, _, _, hcounts⟩ :=
    histogram_counts_by_bucket.2 operations h hh
  have hnumbers : ∀ v ∈ h.taken, v.isNaN = false := by
    rw [htaken]
    decide
  refine ⟨boundaries, counts, hbuckets, ?_⟩
  intro i hi
  apply (hcounts hnumbers i hi).2
  rw [htaken]
  decide

end Metering.Histogram
