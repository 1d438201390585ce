import Metering.Proofs.Accumulator.Deeds
import Metering.Proofs.Aggregator.New
import Metering.Proofs.Number.Range

/-!
# The measurements that series hold

Between two sweeps each series holds exactly the measurements that were taken in for it since the
first of them, in the order in which they were made.
-/

namespace Metering.Accumulator

/-- A measurement that was taken in, with the key of its series. -/
structure Sample where
  key : SeriesKey
  reading : Reading

def readings (k : SeriesKey) (us : List Sample) : List Reading :=
  us.filterMap fun u => if u.key = k then some u.reading else none

theorem readings_append (k : SeriesKey) (us us' : List Sample) :
    readings k (us ++ us') = readings k us ++ readings k us' := List.filterMap_append

@[simp] theorem readings_nil (k : SeriesKey) : readings k [] = [] := rfl

theorem readings_singleton (k : SeriesKey) (u : Sample) :
    readings k [u] = if u.key = k then [u.reading] else [] := by
  by_cases h : u.key = k <;> simp [readings, h]

def gather (d : Descriptor) (g : Aggregator) (rs : List Reading) : Aggregator :=
  rs.foldl (fun a r => a.update r.value d r.stamp) g

theorem gather_snoc (d : Descriptor) (g : Aggregator) (rs : List Reading) (r : Reading) :
    gather d g (rs ++ [r]) = (gather d g rs).update r.value d r.stamp := by
  simp [gather]

theorem cleared_gather {d : Descriptor} {g : Aggregator} (hg : g.cleared d = g)
    (rs : List Reading) : (gather d g rs).cleared d = g := by
  induction rs using List.reverseRecOn with
  | nil => exact hg
  | append_singleton rs r ih => rw [gather_snoc, Aggregator.cleared_update, ih]

variable {choose : Descriptor → Option Aggregator} {us : List Sample} {a : Accumulator}

/-- Whether the series of an instrument get new aggregators, and sums are integers. -/
def Regular (choose : Descriptor → Option Aggregator) (d : Descriptor) : Prop :=
  ∀ g, choose d = some g →
    Aggregator.IsNew d g ∧ (g.sum?.isSome = true → d.numberKind.IsInteger)

/-- Whether a series holds exactly some readings. -/
structure Contains (choose : Descriptor → Option Aggregator) (k : SeriesKey) (rs : List Reading)
    (s : LiveSeries) : Prop where
  regular : Regular choose k.1
  current : ∃ g, choose k.1 = some g ∧ s.checkpoint.cleared k.1 = g ∧ s.current = gather k.1 g rs
  collected_le : s.collected ≤ s.updates
  pending : s.isPending = true ↔ rs ≠ []

/-- Whether the series hold exactly some samples, all written before now and one after the other. -/
structure Holds (choose : Descriptor → Option Aggregator) (us : List Sample) (a : Accumulator) :
    Prop where
  distinct : Distinct a.series
  present : ∀ k s, seek k a.series = some s → Contains choose k (readings k us) s
  absent : ∀ k, seek k a.series = none → readings k us = []
  ordered : us.Pairwise fun u u' => u.reading.stamp.sequence < u'.reading.stamp.sequence
  past : ∀ u ∈ us, u.reading.stamp.sequence < a.writes

theorem holds_new (resource : Resource) (idleCycles : Nat) (now : Time) :
    Holds choose [] (new (.ofFunction choose) resource idleCycles now) :=
  ⟨List.nodup_nil, by simp [new], fun _ _ => rfl, .nil, by simp⟩

theorem Holds.same (h : Holds choose us a) {b : Accumulator} (hs : b.series = a.series)
    (hn : a.writes ≤ b.writes) : Holds choose us b :=
  ⟨hs ▸ h.distinct, hs ▸ h.present, hs ▸ h.absent, h.ordered,
    fun u hu => (h.past u hu).trans_le hn⟩

/-! ## Taking in a measurement -/

theorem contains_opened {k : SeriesKey} (hr : Regular choose k.1) {g : Aggregator}
    (hg : choose k.1 = some g) : Contains choose k [] (.opened k g) :=
  ⟨hr, ⟨g, hg, (hr g hg).1.cleared, rfl⟩, le_refl _,
    by simp [LiveSeries.isPending, LiveSeries.opened]⟩

theorem Holds.slot (h : Holds choose us a) {k : SeriesKey} (hr : Regular choose k.1) :
    (choose k.1 = none ∧ seek k a.series = none ∧ Accumulator.slot choose k a.series = none) ∨
    ∃ g s, choose k.1 = some g ∧ Accumulator.slot choose k a.series = some s ∧
      Contains choose k (readings k us) s := by
  cases hs : seek k a.series with
  | some s =>
    have hc := h.present k s hs
    obtain ⟨g, hg, -⟩ := hc.current
    exact .inr ⟨g, s, hg, by rw [Accumulator.slot, hs, Option.some_or], hc⟩
  | none =>
    rw [Accumulator.slot, hs, Option.none_or]
    cases hg : choose k.1 with
    | none => exact .inl ⟨rfl, rfl, rfl⟩
    | some g =>
      rw [h.absent k hs]
      exact .inr ⟨g, _, rfl, rfl, contains_opened hr hg⟩

theorem Contains.add {k : SeriesKey} {rs : List Reading} {s t : LiveSeries} {n : Number}
    {stamp : Stamp} (h : Contains choose k rs s) (hk : t.key = k)
    (hcheckpoint : t.checkpoint = s.checkpoint) (hupdates : t.updates = s.updates)
    (hcollected : t.collected = s.collected)
    (hcurrent : t.current.update n k.1 stamp = s.current.update n k.1 stamp) :
    Contains choose k (rs ++ [⟨n, stamp⟩]) (t.add n stamp) := by
  obtain ⟨g, hg, hck, hcur⟩ := h.current
  have hd : t.descriptor = k.1 := congrArg Prod.fst hk
  have hle := h.collected_le
  refine ⟨h.regular, ⟨g, hg, hcheckpoint ▸ hck, ?_⟩, ?_, ?_⟩
  · rw [gather_snoc, ← hcur]
    simpa [LiveSeries.add, hd] using hcurrent
  · simp only [LiveSeries.add]
    omega
  · have hne : t.updates + 1 ≠ t.collected := by omega
    simp [LiveSeries.isPending, LiveSeries.add, hne]

theorem Holds.addTo (h : Holds choose us a) {k : SeriesKey} {s t : LiveSeries} (n : Number)
    (hs : Accumulator.slot choose k a.series = some s) (hk : t.key = k)
    (hc : Contains choose k (readings k us ++ [⟨n, a.stamp⟩]) (t.add n a.stamp)) :
    Holds choose (us ++ [⟨k, n, a.stamp⟩])
      ({ a with series := opening choose k a.series }.addTo t n) := by
  have hm := measured_addTo { a with series := opening choose k a.series } hk n
  have hseek : seek k ({ a with series := opening choose k a.series }.addTo t n).series =
      some (t.add n a.stamp) := by
    have hopen : seek k (opening choose k a.series) = some s := by
      rw [seek_opening, if_pos rfl, hs]
    exact seek_store_self (s := t.add n a.stamp) hk hopen
  have hother : ∀ k', k ≠ k' →
      seek k' ({ a with series := opening choose k a.series }.addTo t n).series =
        seek k' a.series := by
    intro k' hne
    rw [hm.frame k' hne]
    exact frame_opening k a.series k' hne
  have hreadings : ∀ k', readings k' (us ++ [⟨k, n, a.stamp⟩]) =
      readings k' us ++ if k = k' then [⟨n, a.stamp⟩] else [] := by
    intro k'
    rw [readings_append, readings_singleton]
  refine ⟨hm.distinct (distinct_opening h.distinct k), fun k' s' hs' => ?_, fun k' hs' => ?_,
    ?_, fun u hu => ?_⟩
  · rw [hreadings]
    by_cases hne : k = k'
    · subst hne
      rw [hseek] at hs'
      rw [if_pos rfl, ← Option.some.inj hs']
      exact hc
    · rw [hother k' hne] at hs'
      rw [if_neg hne, List.append_nil]
      exact h.present k' s' hs'
  · rw [hreadings]
    by_cases hne : k = k'
    · subst hne
      simp [hseek] at hs'
    · rw [hother k' hne] at hs'
      rw [if_neg hne, List.append_nil]
      exact h.absent k' hs'
  · refine List.pairwise_append.mpr ⟨h.ordered, List.pairwise_singleton _ _, fun u hu u' hu' => ?_⟩
    rw [List.mem_singleton.mp hu']
    exact h.past u hu
  · show u.reading.stamp.sequence < a.writes + 1
    rcases List.mem_append.mp hu with hu | hu
    · exact (h.past u hu).trans (Nat.lt_succ_self _)
    · rw [List.mem_singleton.mp hu]
      exact Nat.lt_succ_self _

/-- The key and the number that a deed adds to a series, if it does. -/
def taken (choose : Descriptor → Option Aggregator) : Deed → Option (SeriesKey × Number)
  | .recorded m =>
    if m.isAccepted ∧ (choose m.descriptor).isSome then some (m.key, m.number) else none
  | .observed registered d n labels =>
    if d ∈ registered ∧ (d.rangeTest n).isOk ∧ (choose d).isSome then some ((d, labels), n)
    else none
  | .processed _ => none

def sampled (choose : Descriptor → Option Aggregator) (stamp : Stamp) (deed : Deed) : List Sample :=
  (taken choose deed).toList.map fun x => ⟨x.1, x.2, stamp⟩

/-- Instruments that are recorded, and of which the sums are integers. -/
structure Recordable (choose : Descriptor → Option Aggregator) (d : Descriptor) : Prop where
  synchronous : d.kind.isSynchronous = true
  integer : d.numberKind.IsInteger
  new : ∀ g, choose d = some g → Aggregator.IsNew d g

/-- Instruments that are observed, and of which the last value is kept. -/
structure Observable (choose : Descriptor → Option Aggregator) (d : Descriptor) : Prop where
  gauge : d.kind = .gaugeObserver
  lastValue : ∀ g, choose d = some g → g = .newLastValue

theorem Recordable.regular {d : Descriptor} (h : Recordable choose d) : Regular choose d :=
  fun g hg => ⟨h.new g hg, fun _ => h.integer⟩

theorem Observable.regular {d : Descriptor} (h : Observable choose d) : Regular choose d := by
  intro g hg
  rw [h.lastValue g hg]
  exact ⟨Aggregator.isNew_newLastValue d, by simp [Aggregator.newLastValue, Aggregator.sum?]⟩

private theorem opening_of_none {k : SeriesKey} {ss : List LiveSeries} (hc : choose k.1 = none) :
    opening choose k ss = ss := by
  rw [opening, hc]
  split <;> simp

/-- An accepted measurement is added to the series of its key, unless the instrument is
disabled. -/
theorem Holds.update (h : Holds choose us a) (hsel : a.selector = .ofFunction choose)
    {d : Descriptor} {n : Number} (hn : (d.rangeTest n).isOk = true) (labels : LabelSet)
    (isObserved : Bool) (hr : Regular choose d)
    (hlast : isObserved = true → ∀ g, choose d = some g → g = .newLastValue) :
    Holds choose (us ++ if (choose d).isSome then [⟨(d, labels), n, a.stamp⟩] else [])
        (a.update d n labels isObserved) ∧
      (a.update d n labels isObserved).stamp =
        if (choose d).isSome then a.stamp.after 1 else a.stamp := by
  have hrange : d.rangeTest n = .ok () := by
    cases hx : d.rangeTest n with
    | error cause => simp [hx, Except.isOk, Except.toBool] at hn
    | ok u => rfl
  simp only [Accumulator.update, hrange, acquire_eq hsel]
  rcases h.slot (k := (d, labels)) hr with ⟨hc, -, hs⟩ | ⟨g, s, hc, hs, hcont⟩
  · have hc : choose d = none := hc
    rw [hs, hc, opening_of_none (show choose (d, labels).1 = none from hc)]
    simpa using h
  · have hc : choose d = some g := hc
    rw [hs, hc]
    simp only [Option.isSome_some, if_true]
    have hkey := slot_key hs
    cases isObserved with
    | false => exact ⟨h.addTo n hs hkey (hcont.add hkey rfl rfl rfl rfl), rfl⟩
    | true =>
      -- whatever the series had before, the observation replaces it
      obtain rfl := hlast rfl g hc
      obtain ⟨g', hg', -, hcur⟩ := hcont.current
      obtain rfl : Aggregator.newLastValue = g' := Option.some.inj (hc.symm.trans hg')
      have hd : s.descriptor = d := congrArg Prod.fst hkey
      obtain ⟨last, hlast'⟩ : ∃ last, s.current = .lastValue last := by
        have hcl := cleared_gather (d := d) (g := .newLastValue) rfl (readings (d, labels) us)
        rw [← show s.current = _ from hcur] at hcl
        revert hcl
        cases s.current <;> simp [Aggregator.cleared, Aggregator.newLastValue]
      obtain ⟨t, ht, htc, htk, hcp, hup, hco⟩ : ∃ t,
          LiveSeries.reobserved choose (a.epoch + 1) s = .ok t ∧
          (∃ last', t.current = .lastValue last') ∧ t.key = s.key ∧
          t.checkpoint = s.checkpoint ∧ t.updates = s.updates ∧ t.collected = s.collected := by
        have hcs : choose s.descriptor = some .newLastValue := hd ▸ hc
        rw [LiveSeries.reobserved, hcs, hlast']
        split
        · exact ⟨_, rfl, ⟨none, rfl⟩, rfl, rfl, rfl, rfl⟩
        · exact ⟨_, rfl, ⟨last, rfl⟩, rfl, rfl, rfl, rfl⟩
      obtain ⟨last', htc⟩ := htc
      simp only [reobserve_eq (a := { a with series := opening choose (d, labels) a.series }) hsel,
        ht, if_true]
      have hadd : Contains choose (d, labels) (readings (d, labels) us ++ [⟨n, a.stamp⟩])
          (t.add n a.stamp) :=
        hcont.add (htk.trans hkey) hcp hup hco (by rw [htc, hlast']; rfl)
      exact ⟨h.addTo n hs (htk.trans hkey) hadd, rfl⟩

theorem Holds.record (h : Holds choose us a) (hsel : a.selector = .ofFunction choose)
    {m : Measurement} (hm : Recordable choose m.descriptor) :
    Holds choose (us ++ sampled choose a.stamp (.recorded m)) (a.record m) ∧
      (a.record m).stamp = a.stamp.after (sampled choose a.stamp (.recorded m)).length := by
  have hdrop : ∀ reason, Holds choose (us ++ []) (a.drop reason) ∧
      (a.drop reason).stamp = a.stamp.after 0 := fun reason =>
    ⟨by rw [List.append_nil]; exact h.same rfl (le_refl _), rfl⟩
  simp only [Accumulator.record, sampled, taken, Measurement.isAccepted, Bool.and_eq_true,
    decide_eq_true_eq]
  by_cases hk : m.descriptor.numberKind = m.kind
  swap
  · simpa [hk] using hdrop _
  cases hr : m.descriptor.rangeTest m.number with
  | error reason =>
    simpa [hk, hr, Accumulator.update, Except.isOk, Except.toBool] using hdrop reason
  | ok _ =>
    have hu := h.update hsel (n := m.number) (by rw [hr]; rfl) m.labels false hm.regular (by simp)
    cases hc : choose m.descriptor with
    | none => simpa [hk, hr, hc, Except.isOk, Except.toBool] using hu
    | some g => simpa [hk, hr, hc, Except.isOk, Except.toBool, Measurement.key] using hu

theorem Holds.observe (h : Holds choose us a) (hsel : a.selector = .ofFunction choose)
    (registered : List Descriptor) {d : Descriptor} (hd : Observable choose d) (n : Number)
    (labels : LabelSet) :
    Holds choose (us ++ sampled choose a.stamp (.observed registered d n labels))
        (a.observe registered d n labels) ∧
      (a.observe registered d n labels).stamp =
        a.stamp.after (sampled choose a.stamp (.observed registered d n labels)).length := by
  have hdrop : ∀ reason, Holds choose (us ++ []) (a.drop reason) ∧
      (a.drop reason).stamp = a.stamp.after 0 := fun reason =>
    ⟨by rw [List.append_nil]; exact h.same rfl (le_refl _), rfl⟩
  simp only [Accumulator.observe, sampled, taken]
  by_cases hmem : d ∈ registered
  swap
  · simpa [hmem] using hdrop _
  cases hr : d.rangeTest n with
  | error reason =>
    simpa [hmem, hr, Accumulator.update, Except.isOk, Except.toBool] using hdrop reason
  | ok _ =>
    have hu := h.update hsel (n := n) (by rw [hr]; rfl) labels true hd.regular
      (fun _ => hd.lastValue)
    cases hc : choose d with
    | none => simpa [hmem, hr, hc, Except.isOk, Except.toBool] using hu
    | some g => simpa [hmem, hr, hc, Except.isOk, Except.toBool] using hu

end Metering.Accumulator
