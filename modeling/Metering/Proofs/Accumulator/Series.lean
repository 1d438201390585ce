import Mathlib
import Metering.Accumulator.Collect

/-!
# Series by instrument and labels

An accumulator has at most one series for an instrument and a label set. What a measurement, a
sweep or an eviction does is said series by series, for selectors that always make the same choice
for an instrument.
-/

namespace Metering

abbrev SeriesKey := Descriptor × LabelSet

def SeriesId.key (s : SeriesId) : SeriesKey := (s.descriptor, s.labels)

namespace Stamp

/-- The stamp after some writes, at each of which the clock ticks. -/
def after (s : Stamp) (writes : Nat) : Stamp := ⟨s.time + writes, s.sequence + writes⟩

@[simp] theorem after_zero (s : Stamp) : s.after 0 = s := rfl

theorem after_after (s : Stamp) (m n : Nat) : (s.after m).after n = s.after (m + n) := by
  simp [after, Nat.add_assoc]

/-- The stamp after a tick without a write. -/
def tick (s : Stamp) : Stamp := { s with time := s.time + 1 }

end Stamp

namespace LiveSeries

def key (s : LiveSeries) : SeriesKey := (s.descriptor, s.labels)

theorem isFor_iff {s : LiveSeries} {d : Descriptor} {labels : LabelSet} :
    s.isFor d labels = true ↔ s.key = (d, labels) := by
  simp [isFor, key]

def opened (k : SeriesKey) (fresh : Aggregator) : LiveSeries :=
  { descriptor := k.1, labels := k.2, current := fresh, checkpoint := fresh }

@[simp] theorem opened_key (k : SeriesKey) (fresh : Aggregator) : (opened k fresh).key = k := rfl

def add (n : Number) (stamp : Stamp) (s : LiveSeries) : LiveSeries :=
  { s with current := s.current.update n s.descriptor stamp, updates := s.updates + 1 }

@[simp] theorem add_key (n : Number) (stamp : Stamp) (s : LiveSeries) :
    (s.add n stamp).key = s.key := rfl

/-- Counters of sixty-four bits tell whether a series is pending, unless as many measurements came
since its last collection as they count. -/
theorem wrapping_iff {s : LiveSeries} (h : s.collected ≤ s.updates)
    (hs : s.updates < s.collected + 2 ^ 64) :
    UInt64.ofNat s.updates ≠ UInt64.ofNat s.collected ↔ s.isPending = true := by
  rw [isPending, decide_eq_true_iff, Ne, ← UInt64.toNat_inj]
  simp only [UInt64.toNat_ofNat']
  omega

end LiveSeries

namespace Measurement

def key (m : Measurement) : SeriesKey := (m.descriptor, m.labels)

/-- Whether a recorded measurement is taken in. -/
def isAccepted (m : Measurement) : Bool :=
  m.descriptor.numberKind = m.kind && (m.descriptor.rangeTest m.number).isOk

end Measurement

namespace Accumulator

/-! ## Looking up a series -/

def seek (k : SeriesKey) (ss : List LiveSeries) : Option LiveSeries := ss.find? (·.key = k)

def Distinct (ss : List LiveSeries) : Prop := (ss.map (·.key)).Nodup

theorem find?_eq_seek (a : Accumulator) (d : Descriptor) (labels : LabelSet) :
    a.find? d labels = seek (d, labels) a.series := by
  refine congrArg (List.find? · a.series) (funext fun s => ?_)
  rw [Bool.eq_iff_iff, LiveSeries.isFor_iff, decide_eq_true_iff]

@[simp] theorem seek_nil (k : SeriesKey) : seek k [] = none := rfl

theorem seek_cons (k : SeriesKey) (s : LiveSeries) (ss : List LiveSeries) :
    seek k (s :: ss) = if s.key = k then some s else seek k ss := by
  by_cases h : s.key = k <;> simp [seek, h]

theorem seek_append (k : SeriesKey) (ss ts : List LiveSeries) :
    seek k (ss ++ ts) = (seek k ss).or (seek k ts) := List.find?_append

theorem seek_key {k : SeriesKey} {ss : List LiveSeries} {s : LiveSeries}
    (h : seek k ss = some s) : s.key = k := by
  simpa using List.find?_some h

theorem seek_mem {k : SeriesKey} {ss : List LiveSeries} {s : LiveSeries}
    (h : seek k ss = some s) : s ∈ ss := List.mem_of_find?_eq_some h

theorem seek_eq_none {k : SeriesKey} {ss : List LiveSeries} :
    seek k ss = none ↔ k ∉ ss.map (·.key) := by
  simp [seek]

theorem seek_of_mem {ss : List LiveSeries} {s : LiveSeries} (hd : Distinct ss) (hs : s ∈ ss) :
    seek s.key ss = some s := by
  induction ss with
  | nil => simp at hs
  | cons t ss ih =>
    obtain ⟨hne, hd⟩ := List.nodup_cons.mp hd
    rw [seek_cons]
    rcases List.mem_cons.mp hs with rfl | hs
    · simp
    · have hk : t.key ≠ s.key := by
        intro h
        exact hne (List.mem_map.mpr ⟨s, hs, h.symm⟩)
      rw [if_neg hk, ih hd hs]

theorem distinct_perm {ss ts : List LiveSeries} (hp : ts.Perm ss) (h : Distinct ss) : Distinct ts :=
  (hp.map _).nodup_iff.mpr h

theorem seek_perm {ss ts : List LiveSeries} (hp : ts.Perm ss) (h : Distinct ss) (k : SeriesKey) :
    seek k ts = seek k ss := by
  cases hs : seek k ss with
  | none =>
    rw [seek_eq_none] at hs ⊢
    exact fun hk => hs ((hp.map _).mem_iff.mp hk)
  | some s =>
    obtain rfl := seek_key hs
    exact seek_of_mem (distinct_perm hp h) (hp.mem_iff.mpr (seek_mem hs))

theorem seek_map {f : LiveSeries → LiveSeries} (hf : ∀ s, (f s).key = s.key) (k : SeriesKey)
    (ss : List LiveSeries) : seek k (ss.map f) = (seek k ss).map f := by
  induction ss with
  | nil => rfl
  | cons s ss ih =>
    rw [List.map_cons, seek_cons, seek_cons, hf, ih]
    split <;> rfl

theorem distinct_map {f : LiveSeries → LiveSeries} (hf : ∀ s, (f s).key = s.key)
    {ss : List LiveSeries} (h : Distinct ss) : Distinct (ss.map f) := by
  simpa [Distinct, Function.comp_def, hf] using h

theorem seek_filter {ss : List LiveSeries} (hd : Distinct ss) (p : LiveSeries → Bool)
    (k : SeriesKey) : seek k (ss.filter p) = (seek k ss).filter p := by
  induction ss with
  | nil => rfl
  | cons s ss ih =>
    obtain ⟨hne, hd⟩ := List.nodup_cons.mp hd
    rw [seek_cons]
    by_cases hp : p s = true
    · rw [List.filter_cons_of_pos hp, seek_cons, ih hd]
      split
      · rw [Option.filter_some_pos hp]
      · rfl
    · rw [List.filter_cons_of_neg hp, ih hd]
      split
      next hk =>
        rw [← hk, seek_eq_none.mpr hne, Option.filter_some_neg (by simpa using hp)]
        rfl
      next => rfl

theorem distinct_filter {ss : List LiveSeries} (h : Distinct ss) (p : LiveSeries → Bool) :
    Distinct (ss.filter p) := h.sublist (List.filter_sublist.map _)

/-! ## What measurements leave as it is -/

/-- Accumulators that are set up alike and are at the same collection. -/
structure SameSetup (a b : Accumulator) : Prop where
  selector : b.selector = a.selector
  resource : b.resource = a.resource
  idleCycles : b.idleCycles = a.idleCycles
  epoch : b.epoch = a.epoch
  isPoisoned : b.isPoisoned = a.isPoisoned

theorem SameSetup.refl (a : Accumulator) : SameSetup a a := ⟨rfl, rfl, rfl, rfl, rfl⟩

theorem SameSetup.trans {a b c : Accumulator} (h : SameSetup a b) (h' : SameSetup b c) :
    SameSetup a c :=
  ⟨h'.selector.trans h.selector, h'.resource.trans h.resource,
    h'.idleCycles.trans h.idleCycles, h'.epoch.trans h.epoch, h'.isPoisoned.trans h.isPoisoned⟩

/-! ## Storing -/

theorem store_key {s t : LiveSeries} :
    (if t.isFor s.descriptor s.labels then s else t).key = t.key := by
  split
  next h => exact (LiveSeries.isFor_iff.mp h).symm
  next => rfl

theorem seek_store (a : Accumulator) (s : LiveSeries) (k : SeriesKey) :
    seek k (a.store s).series =
      if s.key = k then (seek k a.series).map fun _ => s else seek k a.series := by
  rw [store, seek_map fun t => store_key]
  cases ht : seek k a.series with
  | none => simp
  | some t =>
    have hk := seek_key ht
    by_cases hs : s.key = k
    · rw [if_pos hs, Option.map_some, if_pos (LiveSeries.isFor_iff.mpr (hk.trans hs.symm))]
      rfl
    · rw [if_neg hs, Option.map_some, if_neg]
      intro h
      exact hs ((LiveSeries.isFor_iff.mp h).symm.trans hk)

theorem seek_store_self {a : Accumulator} {s t : LiveSeries} {k : SeriesKey} (hk : s.key = k)
    (ht : seek k a.series = some t) : seek k (a.store s).series = some s := by
  rw [seek_store, if_pos hk, ht]
  rfl

theorem distinct_store {a : Accumulator} (h : Distinct a.series) (s : LiveSeries) :
    Distinct (a.store s).series := distinct_map (fun _ => store_key) h

/-! ## Acquiring -/

section
variable {choose : Descriptor → Option Aggregator}

/-- The series to which measurements with a key go, if the instrument is not disabled. -/
def slot (choose : Descriptor → Option Aggregator) (k : SeriesKey) (ss : List LiveSeries) :
    Option LiveSeries :=
  (seek k ss).or ((choose k.1).map (.opened k))

theorem slot_key {k : SeriesKey} {ss : List LiveSeries} {s : LiveSeries}
    (h : slot choose k ss = some s) : s.key = k := by
  cases hs : seek k ss with
  | some t =>
    obtain rfl : t = s := by simpa [slot, hs] using h
    exact seek_key hs
  | none =>
    obtain ⟨fresh, -, rfl⟩ : ∃ fresh, choose k.1 = some fresh ∧ .opened k fresh = s := by
      simpa [slot, hs] using h
    rfl

/-- The series with the one for a key, which is made if there is none. -/
def opening (choose : Descriptor → Option Aggregator) (k : SeriesKey) (ss : List LiveSeries) :
    List LiveSeries :=
  if (seek k ss).isSome then ss else ss ++ ((choose k.1).map (.opened k)).toList

theorem seek_opening (k k' : SeriesKey) (ss : List LiveSeries) :
    seek k' (opening choose k ss) = if k = k' then slot choose k ss else seek k' ss := by
  cases hs : seek k ss with
  | some s =>
    rw [opening, hs, if_pos Option.isSome_some, slot, hs, Option.some_or]
    split
    next hk => rw [← hk, hs]
    next => rfl
  | none =>
    rw [opening, hs, if_neg (by simp), seek_append, slot, hs, Option.none_or]
    split
    next hk =>
      rw [← hk, hs, Option.none_or]
      cases choose k.1 <;> simp [seek_cons]
    next hk => cases choose k.1 <;> simp [seek_cons, hk]

theorem distinct_opening {ss : List LiveSeries} (h : Distinct ss) (k : SeriesKey) :
    Distinct (opening choose k ss) := by
  rw [opening]
  split
  · exact h
  next hs =>
    have hne : k ∉ ss.map (·.key) := seek_eq_none.mp (by simpa using hs)
    cases choose k.1 with
    | none => simpa using h
    | some fresh =>
      rw [Distinct, List.map_append]
      refine List.nodup_append.mpr ⟨h, by simp, ?_⟩
      intro x hx y hy hxy
      obtain rfl : y = k := by simpa using hy
      exact hne (hxy ▸ hx)

theorem ask_eq {a : Accumulator} (h : a.selector = .ofFunction choose) (d : Descriptor) :
    a.ask d = (a, choose d) := by
  cases a
  obtain rfl : _ = Selector.ofFunction choose := h
  rfl

theorem acquire_eq {a : Accumulator} (h : a.selector = .ofFunction choose) (d : Descriptor)
    (labels : LabelSet) :
    a.acquire d labels =
      ({ a with series := opening choose (d, labels) a.series },
        slot choose (d, labels) a.series) := by
  rw [acquire, find?_eq_seek]
  cases hs : seek (d, labels) a.series with
  | some s => simp [opening, slot, hs]
  | none =>
    simp only [ask_eq h]
    cases hc : choose d with
    | none => simp [opening, slot, hs, hc]
    | some fresh => simp [opening, slot, hs, hc, ask_eq h, LiveSeries.opened]

/-! ## Measuring -/

def Frame (k : SeriesKey) (ss ss' : List LiveSeries) : Prop :=
  ∀ k', k ≠ k' → seek k' ss' = seek k' ss

theorem Frame.refl (k : SeriesKey) (ss : List LiveSeries) : Frame k ss ss := fun _ _ => rfl

theorem Frame.trans {k : SeriesKey} {ss ss' ss'' : List LiveSeries} (h : Frame k ss ss')
    (h' : Frame k ss' ss'') : Frame k ss ss'' := fun k' hk => (h' k' hk).trans (h k' hk)

theorem frame_opening (k : SeriesKey) (ss : List LiveSeries) :
    Frame k ss (opening choose k ss) := by
  intro k' hk
  rw [seek_opening, if_neg hk]

theorem frame_store (a : Accumulator) (s : LiveSeries) :
    Frame s.key a.series (a.store s).series := by
  intro k' hk
  rw [seek_store, if_neg hk]

/-- What a measurement for a key may do: it changes no other series, and the clock moves on at
most. -/
structure Measured (k : SeriesKey) (a b : Accumulator) : Prop where
  setup : SameSetup a b
  observers : b.observers = a.observers
  flags : b.flags = a.flags
  frame : Frame k a.series b.series
  distinct : Distinct a.series → Distinct b.series

theorem Measured.refl (k : SeriesKey) (a : Accumulator) : Measured k a a :=
  ⟨.refl a, rfl, rfl, .refl k _, id⟩

theorem Measured.trans {k : SeriesKey} {a b c : Accumulator} (h : Measured k a b)
    (h' : Measured k b c) : Measured k a c :=
  ⟨h.setup.trans h'.setup, h'.observers.trans h.observers, h'.flags.trans h.flags,
    h.frame.trans h'.frame, h'.distinct ∘ h.distinct⟩

theorem Measured.events {k : SeriesKey} {a b : Accumulator} (h : Measured k a b)
    (events : List Event) : Measured k a { b with events } :=
  ⟨⟨h.setup.1, h.setup.2, h.setup.3, h.setup.4, h.setup.5⟩, h.observers, h.flags, h.frame,
    h.distinct⟩

theorem measured_drop (k : SeriesKey) (a : Accumulator) (reason : MetricsError) :
    Measured k a (a.drop reason) := ⟨⟨rfl, rfl, rfl, rfl, rfl⟩, rfl, rfl, .refl k _, id⟩

theorem measured_report (k : SeriesKey) (a : Accumulator) (cause : MetricsError) :
    Measured k a (a.report cause) := ⟨⟨rfl, rfl, rfl, rfl, rfl⟩, rfl, rfl, .refl k _, id⟩

theorem measured_opening (k : SeriesKey) (a : Accumulator) :
    Measured k a { a with series := opening choose k a.series } :=
  ⟨⟨rfl, rfl, rfl, rfl, rfl⟩, rfl, rfl, frame_opening k _, fun h => distinct_opening h k⟩

theorem measured_store {k : SeriesKey} (a : Accumulator) {s : LiveSeries} (hs : s.key = k) :
    Measured k a (a.store s) :=
  ⟨⟨rfl, rfl, rfl, rfl, rfl⟩, rfl, rfl, hs ▸ frame_store a s, fun h => distinct_store h s⟩

theorem measured_addTo {k : SeriesKey} (a : Accumulator) {s : LiveSeries} (hs : s.key = k)
    (n : Number) : Measured k a (a.addTo s n) :=
  have h := measured_store a (k := k) (s := s.add n a.stamp) hs
  ⟨⟨h.setup.1, h.setup.2, h.setup.3, h.setup.4, h.setup.5⟩, h.observers, h.flags, h.frame,
    h.distinct⟩

/-- A series prepared for an observation: cleared if that is a repeated one in the epoch. -/
def LiveSeries.reobserved (choose : Descriptor → Option Aggregator) (epoch : Nat)
    (s : LiveSeries) : Except MetricsError LiveSeries :=
  if s.observedEpoch = epoch then
    match choose s.descriptor with
    | none => .ok { s with observedEpoch := epoch }
    | some scratch => (s.current.move scratch s.descriptor).map fun moved =>
        { s with current := moved.1, observedEpoch := epoch }
  else .ok { s with observedEpoch := epoch }

theorem reobserve_eq {a : Accumulator} (h : a.selector = .ofFunction choose) (s : LiveSeries) :
    a.reobserve s = (a, LiveSeries.reobserved choose (a.epoch + 1) s) := by
  rw [reobserve, LiveSeries.reobserved]
  simp only [ask_eq h]
  by_cases hr : s.observedEpoch = a.epoch + 1
  · simp only [hr, if_true]
    cases choose s.descriptor <;> rfl
  · simp [hr]

theorem reobserved_key {epoch : Nat} {s s' : LiveSeries}
    (h : LiveSeries.reobserved choose epoch s = .ok s') : s'.key = s.key := by
  rw [LiveSeries.reobserved] at h
  split at h
  · split at h
    · rw [← Except.ok.inj h]
      rfl
    next scratch _ =>
      cases hm : s.current.move scratch s.descriptor with
      | error cause => simp [hm, Except.map] at h
      | ok moved =>
        rw [hm] at h
        rw [← Except.ok.inj h]
        rfl
  · rw [← Except.ok.inj h]
    rfl

theorem update_recorded {a : Accumulator} (h : a.selector = .ofFunction choose) {d : Descriptor}
    {n : Number} (hn : d.rangeTest n = .ok ()) (labels : LabelSet) :
    a.update d n labels false =
      match slot choose (d, labels) a.series with
      | none => { a with series := opening choose (d, labels) a.series }
      | some s => { a with series := opening choose (d, labels) a.series }.addTo s n := by
  simp only [update, hn, acquire_eq h]
  cases slot choose (d, labels) a.series <;> rfl

theorem measured_update {a : Accumulator} (h : a.selector = .ofFunction choose) (d : Descriptor)
    (n : Number) (labels : LabelSet) (isObserved : Bool) :
    Measured (d, labels) a (a.update d n labels isObserved) := by
  rw [update]
  cases d.rangeTest n with
  | error reason => exact measured_drop _ a reason
  | ok _ =>
    simp only [acquire_eq h]
    have hopen : Measured (d, labels) a
        { a with series := opening choose (d, labels) a.series } := measured_opening ..
    cases hs : slot choose (d, labels) a.series with
    | none => exact hopen
    | some s =>
      have hk := slot_key hs
      cases isObserved with
      | false => exact hopen.trans (measured_addTo _ hk n)
      | true =>
        simp only [reobserve_eq (a := { a with series := opening choose (d, labels) a.series }) h,
          if_true]
        cases hr : LiveSeries.reobserved choose (a.epoch + 1) s with
        | ok s' => exact hopen.trans (measured_addTo _ ((reobserved_key hr).trans hk) n)
        | error cause =>
          exact (hopen.trans (measured_store _ (s := { s with observedEpoch := a.epoch + 1 })
            hk)).trans (measured_report _ _ cause)

theorem measured_record {a : Accumulator} (h : a.selector = .ofFunction choose) (m : Measurement) :
    Measured (m.descriptor, m.labels) a (a.record m) := by
  simp only [record]
  split
  · exact measured_update h ..
  · exact measured_drop ..

theorem measured_observe {a : Accumulator} (h : a.selector = .ofFunction choose)
    (registered : List Descriptor) (d : Descriptor) (n : Number) (labels : LabelSet) :
    Measured (d, labels) a (a.observe registered d n labels) := by
  rw [observe]
  split
  · exact measured_update h ..
  · exact measured_drop ..

theorem seek_record {a : Accumulator} (h : a.selector = .ofFunction choose) (m : Measurement)
    (k : SeriesKey) :
    seek k (a.record m).series =
      if m.key = k ∧ m.isAccepted = true then (slot choose k a.series).map (.add m.number a.stamp)
      else seek k a.series := by
  by_cases hk : m.key = k
  swap
  · rw [if_neg (fun hx => hk hx.1)]
    exact (measured_record h m).frame k hk
  subst hk
  simp only [record, Measurement.isAccepted, true_and, Bool.and_eq_true, decide_eq_true_eq]
  by_cases hkind : m.descriptor.numberKind = m.kind
  swap
  · rw [if_neg hkind, if_neg (fun hx => hkind hx.1)]
    rfl
  rw [if_pos hkind]
  cases hr : m.descriptor.rangeTest m.number with
  | error reason =>
    rw [if_neg (by simp [Except.isOk, Except.toBool]), update, hr]
    rfl
  | ok _ =>
    rw [if_pos ⟨hkind, rfl⟩, update_recorded h hr]
    have hopen : seek m.key (opening choose m.key a.series) = slot choose m.key a.series := by
      rw [seek_opening, if_pos rfl]
    rw [← show m.key = (m.descriptor, m.labels) from rfl]
    cases hs : slot choose m.key a.series with
    | none => exact hopen.trans hs
    | some s =>
      have hkey : (s.add m.number a.stamp).key = m.key :=
        (LiveSeries.add_key ..).trans (slot_key hs)
      have hstore := seek_store { a with series := opening choose m.key a.series }
        (s.add m.number a.stamp) m.key
      rw [if_pos hkey, hopen, hs] at hstore
      exact hstore

end

/-! ## Sweeping -/

theorem measured_map (k : SeriesKey) (a : Accumulator) {f : LiveSeries → LiveSeries}
    (hf : ∀ s, (f s).key = s.key) (hk : ∀ s, s.key ≠ k → f s = s) :
    Measured k a { a with series := a.series.map f } := by
  refine ⟨⟨rfl, rfl, rfl, rfl, rfl⟩, rfl, rfl, fun k' hne => ?_, distinct_map hf⟩
  rw [seek_map hf]
  cases hs : seek k' a.series with
  | none => rfl
  | some s => rw [Option.map_some, hk s (seek_key hs ▸ hne.symm)]

theorem markCollected_eq (found : LiveSeries) (a : Accumulator) :
    markCollected found a = { a with
      series := a.series.map fun s =>
        if s.key = found.key then { s with collected := found.updates, idleSweeps := 0 }
        else s } := by
  rw [markCollected]
  congr 2
  funext s
  refine if_congr (LiveSeries.isFor_iff) rfl rfl

theorem measured_markCollected (found : LiveSeries) (a : Accumulator) :
    Measured found.key a (markCollected found a) := by
  rw [markCollected_eq]
  refine measured_map _ a (fun s => ?_) fun s hs => if_neg hs
  split <;> rfl

theorem seek_markCollected_self (found : LiveSeries) (a : Accumulator) :
    seek found.key (markCollected found a).series =
      (seek found.key a.series).map fun s =>
        { s with collected := found.updates, idleSweeps := 0 } := by
  rw [markCollected_eq, seek_map]
  · cases hs : seek found.key a.series with
    | none => rfl
    | some s => rw [Option.map_some, Option.map_some, if_pos (seek_key hs)]
  · intro s
    split <;> rfl

/-- A series after one more sweep, if that found nothing new. -/
def aged (s : LiveSeries) : LiveSeries :=
  if s.isPending then s else { s with idleSweeps := s.idleSweeps + 1 }

@[simp] theorem aged_key (s : LiveSeries) : (aged s).key = s.key := by
  rw [aged]
  split <;> rfl

theorem aged_of_not_pending {s : LiveSeries} (h : s.isPending = false) :
    aged s = { s with idleSweeps := s.idleSweeps + 1 } := by
  rw [aged, h, if_neg Bool.false_ne_true]

theorem ageIdle_series (a : Accumulator) : a.ageIdle.series = a.series.map aged := rfl

theorem evictIdle_eq (a : Accumulator) :
    ∃ events, a.evictIdle =
      { a with series := a.series.filter fun s => !a.isEvictable s, events } := by
  have hlog : ∀ (ss : List LiveSeries) (b : Accumulator), ∃ events,
      ss.foldl (fun a s => a.log (.seriesEvicted s.descriptor.name)) b = { b with events } := by
    intro ss
    induction ss with
    | nil => exact fun b => ⟨b.events, rfl⟩
    | cons s ss ih => exact fun b => ih (b.log _)
  exact hlog _ _

end Accumulator
end Metering
