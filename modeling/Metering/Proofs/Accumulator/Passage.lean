import Metering.Proofs.Accumulator.Handover

/-!
# One series through a sweep

What an observation does to the series with a key, and what becomes of that series in a sweep whose
processor may record anything meanwhile: it is handed over at most once, and what is recorded before
and afterwards is added to it.
-/

namespace Metering

namespace LiveSeries

/-- Whether the aggregators of a series were made from an instrument's new one. -/
structure MadeFrom (k : SeriesKey) (g : Aggregator) (s : LiveSeries) : Prop where
  key : s.key = k
  current : s.current.cleared k.1 = g
  checkpoint : s.checkpoint.cleared k.1 = g

variable {k : SeriesKey} {g : Aggregator} {s : LiveSeries}

theorem MadeFrom.descriptor (h : s.MadeFrom k g) : s.descriptor = k.1 := congrArg Prod.fst h.key

theorem MadeFrom.add (h : s.MadeFrom k g) (n : Number) (stamp : Stamp) :
    (s.add n stamp).MadeFrom k g := by
  refine ⟨h.key, ?_, h.checkpoint⟩
  rw [LiveSeries.add, h.descriptor, Aggregator.cleared_update, h.current]

theorem madeFrom_opened (hg : Aggregator.IsNew k.1 g) : (opened k g).MadeFrom k g :=
  ⟨rfl, hg.cleared, hg.cleared⟩

theorem MadeFrom.move (h : s.MadeFrom k g) (hg : Aggregator.IsNew k.1 g) :
    s.current.move s.checkpoint s.descriptor = .ok (g, s.current) := by
  rw [h.descriptor]
  exact hg.move h.current h.checkpoint

theorem MadeFrom.moved (h : s.MadeFrom k g) (hg : Aggregator.IsNew k.1 g) :
    ({ s with current := g, checkpoint := s.current } : LiveSeries).MadeFrom k g :=
  ⟨h.key, hg.cleared, h.current⟩

/-- A series as an observation in an epoch finds it: empty, if it was observed in the epoch. -/
def renewed (g : Aggregator) (epoch : Nat) (s : LiveSeries) : LiveSeries :=
  { s with current := if s.observedEpoch = epoch then g else s.current, observedEpoch := epoch }

theorem MadeFrom.renewed (h : s.MadeFrom k g) (hg : Aggregator.IsNew k.1 g) (epoch : Nat) :
    (s.renewed g epoch).MadeFrom k g := by
  refine ⟨h.key, ?_, h.checkpoint⟩
  rw [LiveSeries.renewed]
  split
  · exact hg.cleared
  · exact h.current

theorem MadeFrom.aged (h : s.MadeFrom k g) : (Accumulator.aged s).MadeFrom k g := by
  rw [Accumulator.aged]
  split
  · exact h
  · exact ⟨h.key, h.current, h.checkpoint⟩

end LiveSeries

namespace Accumulator

variable {choose : Descriptor → Option Aggregator} {k : SeriesKey} {g : Aggregator}
  {a : Accumulator}

/-! ## Measurements of one series -/

/-- The number that a deed adds to the series with a key, if it does. -/
def given? (choose : Descriptor → Option Aggregator) (k : SeriesKey) (deed : Deed) :
    Option Number :=
  (taken choose deed).bind fun x => if x.1 = k then some x.2 else none

/-- The numbers that were added to the series with a key. -/
def given (choose : Descriptor → Option Aggregator) (k : SeriesKey) (ds : List Deed) :
    List Number :=
  ds.filterMap (given? choose k)

theorem given_append (ds ds' : List Deed) :
    given choose k (ds ++ ds') = given choose k ds ++ given choose k ds' := List.filterMap_append

theorem given_snoc (ds : List Deed) (deed : Deed) :
    given choose k (ds ++ [deed]) = given choose k ds ++ (given? choose k deed).toList := by
  rw [given_append]
  cases h : given? choose k deed <;> simp [given, h]

theorem given?_recorded (hg : choose k.1 = some g) (m : Measurement) :
    given? choose k (.recorded m) =
      if m.key = k ∧ m.isAccepted = true then some m.number else none := by
  rw [given?, taken]
  by_cases hk : m.key = k
  · have hc : choose m.descriptor = some g := by rw [← hg, ← hk]; rfl
    cases m.isAccepted <;> simp [hk, hc]
  · cases m.isAccepted <;> cases choose m.descriptor <;> simp [hk]

theorem given?_observed (hg : choose k.1 = some g) (registered : List Descriptor) (d : Descriptor)
    (n : Number) (labels : LabelSet) :
    given? choose k (.observed registered d n labels) =
      if (d, labels) = k ∧ d ∈ registered ∧ (d.rangeTest n).isOk = true then some n else none := by
  rw [given?, taken]
  by_cases hk : (d, labels) = k
  · have hc : choose d = some g := by rw [← hg, ← hk]
    by_cases hr : d ∈ registered <;> cases (d.rangeTest n).isOk <;> simp [hk, hc, hr]
  · split <;> simp [hk]

theorem slot_eq (hg : choose k.1 = some g) (ss : List LiveSeries) :
    slot choose k ss = some ((seek k ss).getD (.opened k g)) := by
  rw [slot, hg]
  cases seek k ss <;> rfl

theorem seek_record_given (hsel : a.selector = .ofFunction choose) (hg : choose k.1 = some g)
    (m : Measurement) :
    seek k (a.record m).series = ((given? choose k (.recorded m)).map fun n =>
      ((seek k a.series).getD (.opened k g)).add n a.stamp).or (seek k a.series) := by
  rw [seek_record hsel, given?_recorded hg, slot_eq hg]
  split <;> simp

theorem observe_eq (hsel : a.selector = .ofFunction choose) {registered : List Descriptor}
    {d : Descriptor} {n : Number} {labels : LabelSet} (hg : choose d = some g)
    (hnew : Aggregator.IsNew d g)
    (hmade : ∀ s, seek (d, labels) a.series = some s → s.MadeFrom (d, labels) g)
    (hr : d ∈ registered) (hn : d.rangeTest n = .ok ()) :
    a.observe registered d n labels =
      { a with series := opening choose (d, labels) a.series }.addTo
        (((seek (d, labels) a.series).getD (.opened (d, labels) g)).renewed g (a.epoch + 1)) n := by
  rw [observe, if_pos hr, update, hn]
  have hslot := slot_eq (k := (d, labels)) hg a.series
  simp only [acquire_eq hsel, hslot, if_true]
  have hs : ((seek (d, labels) a.series).getD (.opened (d, labels) g)).MadeFrom (d, labels) g := by
    cases hseek : seek (d, labels) a.series with
    | none => exact LiveSeries.madeFrom_opened hnew
    | some t => exact hmade t hseek
  generalize (seek (d, labels) a.series).getD (.opened (d, labels) g) = s at hs
  have hre : LiveSeries.reobserved choose (a.epoch + 1) s = .ok (s.renewed g (a.epoch + 1)) := by
    have hc : choose s.descriptor = some g := by rw [hs.descriptor]; exact hg
    rw [LiveSeries.reobserved, LiveSeries.renewed, hc]
    split
    · rw [hs.descriptor]
      have hmove := hnew.move hs.current hnew.cleared
      simp only [hmove]
      rfl
    · rfl
  simp only [reobserve_eq (a := { a with series := opening choose (d, labels) a.series }) hsel,
    hre]

/-- What an observation does to the series with a key. -/
theorem seek_observe_given (hsel : a.selector = .ofFunction choose) (hg : choose k.1 = some g)
    (hnew : Aggregator.IsNew k.1 g) (hmade : ∀ s, seek k a.series = some s → s.MadeFrom k g)
    (registered : List Descriptor) (d : Descriptor) (n : Number) (labels : LabelSet) :
    seek k (a.observe registered d n labels).series =
      ((given? choose k (.observed registered d n labels)).map fun n =>
        (((seek k a.series).getD (.opened k g)).renewed g (a.epoch + 1)).add n a.stamp).or
      (seek k a.series) := by
  rw [given?_observed hg]
  by_cases hk : (d, labels) = k
  swap
  · rw [if_neg (fun h => hk h.1)]
    exact (measured_observe hsel registered d n labels).frame k hk
  subst hk
  by_cases hr : d ∈ registered
  swap
  · rw [observe, if_neg hr, if_neg (fun h => hr h.2.1)]
    rfl
  cases hn : d.rangeTest n with
  | error reason =>
    rw [observe, if_pos hr, update, hn, if_neg (by simp [Except.isOk, Except.toBool])]
    rfl
  | ok _ =>
    rw [if_pos ⟨rfl, hr, rfl⟩, observe_eq hsel hg hnew hmade hr hn]
    have hslot := slot_eq (k := (d, labels)) hg a.series
    generalize (seek (d, labels) a.series).getD (.opened (d, labels) g) = s at hslot ⊢
    have hkey := slot_key hslot
    have hopen : seek (d, labels) (opening choose (d, labels) a.series) = some s := by
      rw [seek_opening, if_pos rfl, hslot]
    have hstore := seek_store_self (a := { a with series := opening choose (d, labels) a.series })
      (s := (s.renewed g (a.epoch + 1)).add n a.stamp) hkey hopen
    exact hstore

/-! ## A sweep -/

def isHandedOver (k : SeriesKey) (deed : Deed) : Bool :=
  (handedOver deed).any fun acc => acc.series.key = k

/-- Properties of the series with a key, and of the deeds, that neither the processor's own
measurements nor the handing over of other series end. -/
structure Enduring (choose : Descriptor → Option Aggregator) (k : SeriesKey) (g : Aggregator)
    (P : List Deed → Option LiveSeries → Prop) : Prop where
  other : ∀ {ds s? deed}, P ds s? → given? choose k deed = none → isHandedOver k deed = false →
    P (ds ++ [deed]) s?
  add : ∀ {ds s? m n}, P ds s? → given? choose k (.recorded m) = some n → ∀ stamp,
    P (ds ++ [.recorded m]) (some ((s?.getD (.opened k g)).add n stamp))

section
variable {P : List Deed → Option LiveSeries → Prop} {ds : List Deed} {σ : Type}

theorem Enduring.record (hP : Enduring choose k g P) (hg : choose k.1 = some g)
    (ha : Sound choose a) (h : P ds (seek k a.series)) (m : Measurement) :
    P (ds ++ [.recorded m]) (seek k (a.record m).series) := by
  rw [seek_record_given ha.selector hg]
  cases hm : given? choose k (.recorded m) with
  | none => exact hP.other h hm rfl
  | some n => exact hP.add h hm a.stamp

theorem Enduring.recordAll (hP : Enduring choose k g P) (hg : choose k.1 = some g)
    (ha : Sound choose a) (h : P ds (seek k a.series)) (ms : List Measurement) :
    P (ds ++ ms.map .recorded) (seek k (ms.foldl Accumulator.record a).series) := by
  induction ms generalizing a ds with
  | nil => simpa using h
  | cons m ms ih =>
    simpa using ih (ha.measured (measured_record ha.selector m)) (hP.record hg ha h m)

theorem setup_recordAll (ha : Sound choose a) (ms : List Measurement) :
    SameSetup a (ms.foldl record a) := by
  induction ms generalizing a with
  | nil => exact .refl a
  | cons m ms ih =>
    have hm := measured_record ha.selector m
    exact hm.setup.trans (ih (ha.measured hm))

theorem setup_callObservers (ha : Sound choose a) (cx : Context) (is : List Nat) :
    SameSetup a (callObservers cx is a).1 := by
  have hkept : Kept choose fun _ b => SameSetup a b :=
    ⟨fun h hsame _ => h.trans hsame,
      fun hb h m => h.trans (measured_record hb.selector m).setup,
      fun hb _ h d n labels => h.trans (measured_observe hb.selector ..).setup⟩
  exact (@Kept.callObservers _ _ [] _ hkept cx is ha (.refl a)).2

theorem setup_checkpointSeries (ha : Sound choose a) (step : ProcessorStep σ) (s : LiveSeries)
    (p : σ) (ds : List Deed) : SameSetup a (checkpointSeries (logged step) s (p, ds) a).1 := by
  have hspec := checkpointSeries_spec step s p ds a
  cases hm : s.current.move s.checkpoint s.descriptor with
  | error cause =>
    simp only [hm] at hspec
    rw [hspec]
    exact (measured_report s.key a cause).setup
  | ok moved =>
    obtain ⟨current, checkpoint⟩ := moved
    simp only [hm] at hspec
    obtain ⟨events, p', records, hr, -, -⟩ := hspec
    have hstore := measured_store a (k := s.key) (s := { s with current, checkpoint }) rfl
    have hrec := hstore.setup.trans (setup_recordAll (ha.measured hstore) records)
    rw [hr]
    exact ⟨hrec.1, hrec.2, hrec.3, hrec.4, hrec.5⟩

theorem setup_checkpointAll (ha : Sound choose a) (step : ProcessorStep σ)
    (found : List LiveSeries) (p : σ) (ds : List Deed) :
    SameSetup a (checkpointAll (logged step) found (p, ds) a).1 := by
  induction found generalizing p ds a with
  | nil => exact .refl a
  | cons f found ih =>
    have hone := setup_checkpointSeries ha step ((a.find? f.descriptor f.labels).getD f) p ds
    have hsound := ha.checkpointSeries (logged step)
      ((a.find? f.descriptor f.labels).getD f) (p, ds)
    rw [checkpointAll]
    rcases hr : checkpointSeries (logged step) ((a.find? f.descriptor f.labels).getD f) (p, ds) a
      with ⟨a', ⟨p', ds'⟩, cause | n⟩
    · rw [hr] at hone
      exact hone
    · rw [hr] at hone hsound
      have hmark := measured_markCollected f a'
      have hrest := ih (a := markCollected f a') (hsound.markCollected f) p' ds'
      exact (hone.trans hmark.setup).trans hrest

theorem Sound.ageIdle (ha : Sound choose a) : Sound choose a.ageIdle :=
  ⟨ha.selector, distinct_map aged_key ha.distinct, ha.asynchronous⟩

theorem setup_sweep (ha : Sound choose a) (step : ProcessorStep σ) (p : σ) (ds : List Deed) :
    SameSetup a (sweep (logged step) (p, ds) a).1 := by
  have hall := setup_checkpointAll ha.ageIdle step (a.series.filter (·.isPending)) p ds
  rw [sweep]
  rcases hr : checkpointAll (logged step) (a.series.filter (·.isPending)) (p, ds) a.ageIdle with
    ⟨b, ⟨q, ds'⟩, cause | n⟩
  · rw [hr] at hall
    exact ⟨hall.1, hall.2, hall.3, hall.4, hall.5⟩
  · rw [hr] at hall
    obtain ⟨events, he⟩ := evictIdle_eq b
    simp only [he]
    exact ⟨hall.1, hall.2, hall.3, hall.4, hall.5⟩

theorem Enduring.checkpointSeries (hP : Enduring choose k g P) (hg : choose k.1 = some g)
    (step : ProcessorStep σ) {s : LiveSeries} (hs : s.key ≠ k) (p : σ) (ha : Sound choose a)
    (h : P ds (seek k a.series)) :
    let r := checkpointSeries (logged step) s (p, ds) a
    P r.2.1.2 (seek k r.1.series) := by
  intro r
  have hspec := checkpointSeries_spec step s p ds a
  cases hm : s.current.move s.checkpoint s.descriptor with
  | error cause =>
    simp only [hm] at hspec
    rw [show r = _ from hspec]
    exact h
  | ok moved =>
    obtain ⟨current, checkpoint⟩ := moved
    simp only [hm] at hspec
    obtain ⟨events, p', records, hr, hlog, -⟩ := hspec
    have hstore := measured_store a (k := s.key) (s := { s with current, checkpoint }) rfl
    have hprocessed : P (ds ++ [.processed ⟨⟨s.descriptor, s.labels, a.resource⟩, checkpoint⟩])
        (seek k (a.store { s with current, checkpoint }).series) := by
      rw [hstore.frame k hs]
      exact hP.other h rfl (decide_eq_false hs)
    have hrec := hP.recordAll hg (ha.measured hstore) hprocessed records
    rw [List.append_assoc] at hrec
    rw [show r.1 = _ from hr, show r.2.1 = _ from hlog]
    exact hrec

theorem Enduring.checkpointAll (hP : Enduring choose k g P) (hg : choose k.1 = some g)
    (step : ProcessorStep σ) {found : List LiveSeries} (hk : k ∉ found.map (·.key)) (p : σ)
    (ha : Sound choose a) (h : P ds (seek k a.series)) :
    let r := checkpointAll (logged step) found (p, ds) a
    P r.2.1.2 (seek k r.1.series) := by
  induction found generalizing p ds a with
  | nil => exact h
  | cons f found ih =>
    rw [List.map_cons, List.mem_cons, not_or] at hk
    have hf : ((a.find? f.descriptor f.labels).getD f).key ≠ k := by
      rw [seek_getD_key]
      exact Ne.symm hk.1
    have hone := hP.checkpointSeries hg step hf p ha h
    have hsound := ha.checkpointSeries (logged step)
      ((a.find? f.descriptor f.labels).getD f) (p, ds)
    simp only [Accumulator.checkpointAll]
    rcases hr : Accumulator.checkpointSeries (logged step)
        ((a.find? f.descriptor f.labels).getD f) (p, ds) a with ⟨a', ⟨p', ds'⟩, cause | n⟩
    · rw [hr] at hone
      exact hone
    · rw [hr] at hone hsound
      have hmark := (measured_markCollected f a').frame k (Ne.symm hk.1)
      exact ih hk.2 p' (hsound.markCollected f) (hmark ▸ hone)

/-- How the series with a key passes a sweep that found it as `f`: one property holds until its
turn, another one from then until it is marked as collected, and a last one afterwards. -/
structure Passage (choose : Descriptor → Option Aggregator) (k : SeriesKey) (g : Aggregator)
    (resource : Resource) (f : LiveSeries)
    (Before After Done : List Deed → Option LiveSeries → Prop) : Prop where
  before : Enduring choose k g Before
  after : Enduring choose k g After
  done : Enduring choose k g Done
  turn : ∀ {ds s}, Before ds (some s) →
    ∃ current checkpoint, s.current.move s.checkpoint s.descriptor = .ok (current, checkpoint) ∧
      After (ds ++ [.processed ⟨⟨k.1, k.2, resource⟩, checkpoint⟩])
        (some { s with current, checkpoint })
  present : ∀ {ds}, ¬Before ds none
  mark : ∀ {ds s?}, After ds s? →
    Done ds (s?.map fun s => { s with collected := f.updates, idleSweeps := 0 })

theorem Passage.checkpointSeries {f s : LiveSeries}
    {Before After Done : List Deed → Option LiveSeries → Prop}
    (h : Passage choose k g a.resource f Before After Done) (hg : choose k.1 = some g)
    (step : ProcessorStep σ) (p : σ) (ha : Sound choose a) (hs : seek k a.series = some s)
    (hb : Before ds (some s)) :
    After (Accumulator.checkpointSeries (logged step) s (p, ds) a).2.1.2
      (seek k (Accumulator.checkpointSeries (logged step) s (p, ds) a).1.series) := by
  have hkey := seek_key hs
  obtain ⟨current, checkpoint, hm, hturn⟩ := h.turn hb
  have hspec := checkpointSeries_spec step s p ds a
  simp only [hm] at hspec
  obtain ⟨events, p', records, hr, hlog, -⟩ := hspec
  have hstore := measured_store a (k := k) (s := { s with current, checkpoint }) hkey
  have hseek : seek k (a.store { s with current, checkpoint }).series =
      some { s with current, checkpoint } := seek_store_self hkey hs
  have hid : (⟨s.descriptor, s.labels, a.resource⟩ : SeriesId) = ⟨k.1, k.2, a.resource⟩ := by
    rw [← hkey]
    rfl
  have hrec := h.after.recordAll hg (ha.measured hstore) (hseek ▸ hturn) records
  rw [List.append_assoc] at hrec
  rw [hr, hlog, hid]
  exact hrec

theorem Passage.checkpointAll {f : LiveSeries}
    {Before After Done : List Deed → Option LiveSeries → Prop}
    (h : Passage choose k g a.resource f Before After Done) (hg : choose k.1 = some g)
    (step : ProcessorStep σ) {found : List LiveSeries} (hd : Distinct found) (hf : f ∈ found)
    (hk : f.key = k) (p : σ) (ha : Sound choose a) (hb : Before ds (seek k a.series)) :
    let r := checkpointAll (logged step) found (p, ds) a
    Done r.2.1.2 (seek k r.1.series) ∨
      (∃ cause, r.2.2 = .error cause) ∧
        (Before r.2.1.2 (seek k r.1.series) ∨ After r.2.1.2 (seek k r.1.series)) := by
  induction found generalizing p ds a with
  | nil => simp at hf
  | cons e found ih =>
    obtain ⟨hne, hd⟩ := List.nodup_cons.mp hd
    have hsound := ha.checkpointSeries (logged step)
      ((a.find? e.descriptor e.labels).getD e) (p, ds)
    have hsetup := setup_checkpointSeries ha step ((a.find? e.descriptor e.labels).getD e) p ds
    simp only [Accumulator.checkpointAll]
    by_cases he : e.key = k
    · -- its turn: no other series that was found has the key
      have hef : f = e := by
        rcases List.mem_cons.mp hf with rfl | hf
        · rfl
        · exact absurd (List.mem_map.mpr ⟨f, hf, hk.trans he.symm⟩) hne
      subst hef
      obtain ⟨s, hs⟩ : ∃ s, seek k a.series = some s := by
        cases hs : seek k a.series with
        | none => exact absurd (hs ▸ hb) h.present
        | some s => exact ⟨s, rfl⟩
      have hfind : (a.find? f.descriptor f.labels).getD f = s := by
        rw [find?_eq_seek, show (f.descriptor, f.labels) = k from hk, hs]
        rfl
      have hafter := h.checkpointSeries hg step p ha hs (hs ▸ hb)
      rw [hfind] at hsound ⊢
      rcases hr : Accumulator.checkpointSeries (logged step) s (p, ds) a with
        ⟨a', ⟨p', ds'⟩, cause | n⟩
      · rw [hr] at hafter
        exact .inr ⟨⟨cause, rfl⟩, .inr hafter⟩
      · rw [hr] at hafter hsound
        have hmark : Done ds' (seek k (markCollected f a').series) := by
          rw [← hk, seek_markCollected_self, hk]
          exact h.mark hafter
        exact .inl (h.done.checkpointAll hg step (hk ▸ hne) p' (hsound.markCollected f) hmark)
    · -- the turn of another series, in which the processor may record for this one
      have hkey := seek_getD_key e a
      generalize (a.find? e.descriptor e.labels).getD e = s at hkey hsound hsetup ⊢
      have hs : s.key ≠ k := hkey ▸ he
      have hone := h.before.checkpointSeries hg step hs p ha hb
      have hf : f ∈ found := by
        rcases List.mem_cons.mp hf with rfl | hf
        · exact absurd hk he
        · exact hf
      rcases hr : Accumulator.checkpointSeries (logged step) s (p, ds) a with
        ⟨a', ⟨p', ds'⟩, cause | n⟩
      · rw [hr] at hone
        exact .inr ⟨⟨cause, rfl⟩, .inl hone⟩
      · rw [hr] at hone hsound hsetup
        have hmark := measured_markCollected e a'
        have hresource : (markCollected e a').resource = a.resource :=
          hmark.setup.resource.trans hsetup.resource
        have hbefore : Before ds' (seek k (markCollected e a').series) := by
          rw [hmark.frame k he]
          exact hone
        have hrest := ih (a := markCollected e a') (hresource ▸ h) hd hf p'
          (hsound.markCollected e) hbefore
        rcases hrest with hrest | ⟨⟨cause, hx⟩, hrest⟩
        · exact .inl hrest
        · exact .inr ⟨⟨cause, by simp only [hx]; rfl⟩, hrest⟩

/-- Whether a property survives the eviction of a series with nothing new. -/
def Expendable (P : List Deed → Option LiveSeries → Prop) : Prop :=
  ∀ ⦃ds s⦄, P ds (some s) → s.isPending = false → P ds none

theorem Expendable.evictIdle (hP : Expendable P) (ha : Sound choose a)
    (h : P ds (seek k a.series)) : P ds (seek k a.evictIdle.series) := by
  obtain ⟨events, he⟩ := evictIdle_eq a
  rw [he, seek_filter ha.distinct]
  cases hs : seek k a.series with
  | none =>
    rw [hs] at h
    exact h
  | some s =>
    rw [hs] at h
    cases hevict : a.isEvictable s with
    | false =>
      rw [Option.filter_some_pos (by simp [hevict])]
      exact h
    | true =>
      rw [Option.filter_some_neg (by simp [hevict])]
      exact hP h (by simpa using (Bool.and_eq_true_iff.mp hevict).2)

/-- A whole sweep that finds nothing new in the series with the key. -/
theorem Enduring.sweep (hP : Enduring choose k g P) (hevict : Expendable P)
    (hg : choose k.1 = some g) (step : ProcessorStep σ) (p : σ) (ha : Sound choose a)
    (hidle : ∀ s, seek k a.series = some s → s.isPending = false)
    (h : P ds ((seek k a.series).map aged)) :
    let r := sweep (logged step) (p, ds) a
    P r.2.1.2 (seek k r.1.series) := by
  have hk : k ∉ (a.series.filter (·.isPending)).map (·.key) := by
    intro hmem
    obtain ⟨f, hf, hfk⟩ := List.mem_map.mp hmem
    obtain ⟨hf, hp⟩ := List.mem_filter.mp hf
    have hs := seek_of_mem ha.distinct hf
    rw [hfk] at hs
    exact absurd hp (by simp [hidle f hs])
  have haged : P ds (seek k a.ageIdle.series) := by
    rw [ageIdle_series, seek_map aged_key]
    exact h
  have hall := hP.checkpointAll hg step hk p ha.ageIdle haged
  have hsound := ha.ageIdle.checkpointAll (logged step) (a.series.filter (·.isPending)) (p, ds)
  simp only [Accumulator.sweep]
  rcases hr : Accumulator.checkpointAll (logged step) (a.series.filter (·.isPending)) (p, ds)
    a.ageIdle with ⟨b, ⟨q, ds'⟩, cause | n⟩
  · rw [hr] at hall
    exact hall
  · rw [hr] at hall hsound
    exact hevict.evictIdle hsound hall

/-- A whole sweep that finds something new in the series with the key. -/
theorem Passage.sweep {f : LiveSeries} {Before After Done : List Deed → Option LiveSeries → Prop}
    (h : Passage choose k g a.resource f Before After Done) (hevict : Expendable Done)
    (hg : choose k.1 = some g) (step : ProcessorStep σ) (p : σ) (ha : Sound choose a)
    (hs : seek k a.series = some f) (hf : f.isPending = true) (hb : Before ds (some f)) :
    let r := sweep (logged step) (p, ds) a
    Done r.2.1.2 (seek k r.1.series) ∨
      (∃ cause, r.2.2 = .error cause) ∧
        (Before r.2.1.2 (seek k r.1.series) ∨ After r.2.1.2 (seek k r.1.series)) := by
  have hfound : f ∈ a.series.filter (·.isPending) := List.mem_filter.mpr ⟨seek_mem hs, hf⟩
  have haged : Before ds (seek k a.ageIdle.series) := by
    rw [ageIdle_series, seek_map aged_key, hs, Option.map_some, aged, if_pos hf]
    exact hb
  have hall := Passage.checkpointAll (a := a.ageIdle) h hg step (distinct_filter ha.distinct _)
    hfound (seek_key hs) p ha.ageIdle haged
  have hsound := ha.ageIdle.checkpointAll (logged step) (a.series.filter (·.isPending)) (p, ds)
  simp only [Accumulator.sweep]
  rcases hr : Accumulator.checkpointAll (logged step) (a.series.filter (·.isPending)) (p, ds)
    a.ageIdle with ⟨b, ⟨q, ds'⟩, cause | n⟩
  · rw [hr] at hall
    exact hall
  · rw [hr] at hall hsound
    rcases hall with hall | ⟨⟨cause, hx⟩, -⟩
    · exact .inl (hevict.evictIdle hsound hall)
    · cases hx

end
end Accumulator
end Metering
