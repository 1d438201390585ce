import Metering.Proofs.Accumulator.Merge
import Metering.Proofs.Accumulator.Reports

/-!
# Sweeps series by series

A sweep whose processor does not record anything empties the pending series, ages the others and
evicts those that are idle for too long. The series that remain stay in order, so that what is
handed over can be read off the order of the keys and the series with each key.
-/

namespace Metering

/-- A series after a sweep. -/
def LiveSeries.swept (s : LiveSeries) : LiveSeries :=
  if s.isPending then Accumulator.emptied s else Accumulator.aged s

/-- What a sweep hands over of a series, if anything. -/
def LiveSeries.content (s : LiveSeries) : Option Aggregator :=
  if s.isPending then some s.current else none

namespace Accumulator

variable {a : Accumulator}

/-! ## Keys and series -/

theorem map_key_filter {ss : List LiveSeries} (hd : Distinct ss) (p : LiveSeries → Bool) :
    (ss.filter p).map (·.key) = (ss.map (·.key)).filter fun k => (seek k (ss.filter p)).isSome := by
  rw [List.filter_map]
  refine congrArg (List.map _) (List.filter_congr fun s hs => ?_)
  rw [Function.comp_apply, seek_filter hd, seek_of_mem hd hs]
  cases hp : p s with
  | true => rw [Option.filter_some_pos hp]; rfl
  | false => rw [Option.filter_some_neg (by simp [hp])]; rfl

private theorem map_filter_eq_filterMap {α β : Type} (p : α → Bool) (f : α → β) (xs : List α) :
    (xs.filter p).map f = xs.filterMap fun x => if p x then some (f x) else none := by
  induction xs with
  | nil => rfl
  | cons x xs ih => cases hp : p x <;> simp [hp, ih]

/-- What is handed over for a key is read off the keys and the series with each of them. -/
theorem map_current_joining (hd : Distinct a.series) (r : Relabelling) (k : SeriesKey) :
    (joining r k a).map (·.current) =
      ((keys a).filter fun k' => r.key k' = k).filterMap fun k' =>
        (seek k' a.series).bind LiveSeries.content := by
  have hcontent : ∀ s ∈ a.series.filter (fun s => r.key s.key = k),
      ((seek s.key a.series).bind LiveSeries.content) =
        if s.isPending then some s.current else none := by
    intro s hs
    rw [seek_of_mem hd (List.mem_filter.mp hs).1]
    rfl
  calc (joining r k a).map (·.current)
      = ((a.series.filter fun s => r.key s.key = k).filter (·.isPending)).map (·.current) := by
        rw [joining, List.filter_comm]
    _ = (a.series.filter fun s => r.key s.key = k).filterMap fun s =>
          if s.isPending then some s.current else none := map_filter_eq_filterMap ..
    _ = (a.series.filter fun s => r.key s.key = k).filterMap fun s =>
          (seek s.key a.series).bind LiveSeries.content :=
        (List.filterMap_congr hcontent).symm
    _ = _ := by rw [keys, List.filter_map, List.filterMap_map]; rfl

/-- What a sweep hands over. -/
def contents (a : Accumulator) : List Accumulation :=
  (a.series.filter (·.isPending)).map (handOver a.resource)

theorem handedOverAs_eq_map (r : Relabelling) (a : Accumulator) :
    handedOverAs r a.resource a = a.contents.map (Accumulation.relabel r) := by
  rw [contents, List.map_map]
  rfl

theorem mem_contents (hd : Distinct a.series) {acc : Accumulation} :
    acc ∈ a.contents ↔ acc.series.resource = a.resource ∧
      (seek acc.series.key a.series).bind LiveSeries.content = some acc.aggregator := by
  rw [contents, List.mem_map]
  constructor
  · rintro ⟨s, hs, rfl⟩
    obtain ⟨hmem, hpending⟩ := List.mem_filter.mp hs
    refine ⟨rfl, ?_⟩
    show (seek s.key a.series).bind LiveSeries.content = some s.current
    rw [seek_of_mem hd hmem, Option.bind_some, LiveSeries.content, if_pos hpending]
  · rintro ⟨hresource, hcontent⟩
    obtain ⟨s, hs, hcurrent⟩ := Option.bind_eq_some_iff.mp hcontent
    rw [LiveSeries.content, Option.ite_none_right_eq_some] at hcurrent
    obtain ⟨hdescriptor, hlabels⟩ := Prod.mk.inj (seek_key hs)
    refine ⟨s, List.mem_filter.mpr ⟨seek_mem hs, hcurrent.1⟩, ?_⟩
    rw [handOver, hdescriptor, hlabels, ← hresource, Option.some.inj hcurrent.2]

theorem exists_mem_contents (hd : Distinct a.series) {k : SeriesKey} :
    (∃ acc ∈ a.contents, acc.series.key = k) ↔
      ((seek k a.series).bind LiveSeries.content).isSome = true := by
  rw [Option.isSome_iff_exists]
  constructor
  · rintro ⟨acc, hacc, rfl⟩
    exact ⟨acc.aggregator, ((mem_contents hd).mp hacc).2⟩
  · rintro ⟨x, hx⟩
    exact ⟨⟨⟨k.1, k.2, a.resource⟩, x⟩, (mem_contents hd).mpr ⟨rfl, hx⟩, rfl⟩

/-! ## Silent sweeps -/

/-- What a sweep leaves whose processor does not record anything. -/
structure Cleared (a b : Accumulator) : Prop where
  setup : SameSetup a b
  observers : b.observers = a.observers
  flags : b.flags = a.flags
  stamp : b.stamp = a.stamp
  distinct : Distinct b.series
  seeks : ∀ k, seek k b.series = ((seek k a.series).map (·.swept)).filter (!a.isEvictable ·)
  keys : keys b = (keys a).filter fun k => (seek k b.series).isSome

theorem Cleared.now {a b : Accumulator} (h : Cleared a b) : b.now = a.now :=
  congrArg Stamp.time h.stamp

theorem Cleared.writes {a b : Accumulator} (h : Cleared a b) : b.writes = a.writes :=
  congrArg Stamp.sequence h.stamp

variable {σ : Type} {P : σ → Prop} {step : ProcessorStep σ} {p : σ}

theorem keys_checkpointSeries (hstep : Silent P step) (s : LiveSeries) (hp : P p) :
    keys (checkpointSeries step s p a).1 = keys a ∧ P (checkpointSeries step s p a).2.1 := by
  rw [checkpointSeries]
  cases s.current.move s.checkpoint s.descriptor with
  | error cause => exact ⟨rfl, hp⟩
  | ok moved =>
    obtain ⟨hrecords, -, hp'⟩ := hstep p ⟨⟨s.descriptor, s.labels, a.resource⟩, moved.2⟩ hp
    have hstore := keys_store a { s with current := moved.1, checkpoint := moved.2 }
    simp only [store, hrecords, List.foldl_nil] at hstore ⊢
    split <;> exact ⟨hstore, hp'⟩

theorem keys_markCollected (f : LiveSeries) (a : Accumulator) :
    keys (markCollected f a) = keys a := by
  rw [markCollected_eq, keys, List.map_map]
  refine List.map_congr_left fun s _ => ?_
  rw [Function.comp_apply]
  split <;> rfl

theorem keys_checkpointAll (hstep : Silent P step) (found : List LiveSeries) (hp : P p) :
    keys (checkpointAll step found p a).1 = keys a := by
  induction found generalizing p a with
  | nil => rfl
  | cons f found ih =>
    obtain ⟨hkeys, hp'⟩ :=
      keys_checkpointSeries (a := a) hstep ((a.find? f.descriptor f.labels).getD f) hp
    rw [checkpointAll]
    rcases hr : checkpointSeries step ((a.find? f.descriptor f.labels).getD f) p a with
      ⟨b, q, cause | n⟩
    · rw [hr] at hkeys
      exact hkeys
    · rw [hr] at hkeys hp'
      exact (ih (a := markCollected f b) hp').trans ((keys_markCollected f b).trans hkeys)

theorem sweep_silent (hstep : Silent P step) (hp : P p) (hd : Distinct a.series)
    (hmovable : ∀ s ∈ a.series, Movable s) :
    (sweep step p a).2 =
        (feed step p ((a.series.filter (·.isPending)).map (handOver a.resource)),
          .ok (a.series.filter (·.isPending)).length) ∧
      Cleared a (sweep step p a).1 := by
  have hfound : ∀ f ∈ a.series.filter (·.isPending),
      seek f.key a.ageIdle.series = some f ∧ Movable f := by
    intro f hf
    obtain ⟨hmem, hpending⟩ := List.mem_filter.mp hf
    refine ⟨?_, hmovable f hmem⟩
    rw [ageIdle_series, seek_map aged_key, seek_of_mem hd hmem, Option.map_some, aged,
      if_pos hpending]
  obtain ⟨hr, hswept⟩ := checkpointAll_silent hstep (distinct_filter hd _) hfound hp
  have hkeys := keys_checkpointAll (a := a.ageIdle) hstep (a.series.filter (·.isPending)) hp
  have haged : keys a.ageIdle = keys a := by
    rw [keys, ageIdle_series, List.map_map]
    exact List.map_congr_left fun s _ => aged_key s
  rw [sweep]
  rcases hc : checkpointAll step (a.series.filter (·.isPending)) p a.ageIdle with ⟨b, p', res⟩
  rw [hc] at hr hswept hkeys
  obtain ⟨rfl, rfl⟩ := Prod.mk.inj hr
  obtain ⟨events, he⟩ := evictIdle_eq b
  have hb : Distinct b.series := hswept.distinct (distinct_map aged_key hd)
  have hevictable : ∀ s, b.isEvictable s = a.isEvictable s := by
    intro s
    rw [isEvictable, isEvictable, hswept.setup.idleCycles]
    rfl
  have hseeks : ∀ k, seek k b.series = (seek k a.series).map (·.swept) := by
    intro k
    rw [hswept.seeks, ageIdle_series, seek_map aged_key, Option.map_map]
    cases hs : seek k a.series with
    | none => rfl
    | some s =>
      have hmem := mem_pending_iff hd hs
      simp only [Option.map_some, Function.comp_apply, LiveSeries.swept, hmem]
      congr 1
      by_cases hpending : s.isPending = true
      · rw [if_pos hpending, if_pos hpending, aged, if_pos hpending]
      · rw [if_neg hpending, if_neg hpending]
  simp only [he]
  refine ⟨rfl, ⟨hswept.setup.1, hswept.setup.2, hswept.setup.3, hswept.setup.4, hswept.setup.5⟩,
    hswept.observers, hswept.flags, hswept.stamp, distinct_filter hb _, fun k => ?_, ?_⟩
  · rw [seek_filter hb, hseeks]
    simp only [hevictable]
  · exact (map_key_filter hb _).trans (congrArg _ (hkeys.trans haged))

/-- The registry may be gone through in any order: a sweep hands the same accumulations over in
that order, and leaves the same series. -/
theorem sweep_reordered (hstep : Silent P step) (hp : P p) (hd : Distinct a.series)
    (hmovable : ∀ s ∈ a.series, Movable s) {ss : List LiveSeries} (hss : ss.Perm a.series) :
    let b : Accumulator := { a with series := ss }
    (sweep step p a).2 = (feed step p a.contents, .ok a.contents.length) ∧
      (sweep step p b).2 = (feed step p b.contents, .ok a.contents.length) ∧
      b.contents.Perm a.contents ∧ (sweep step p b).1.stamp = (sweep step p a).1.stamp ∧
      ∀ k, seek k (sweep step p b).1.series = seek k (sweep step p a).1.series := by
  intro b
  obtain ⟨hresult, hleft⟩ := sweep_silent hstep hp hd hmovable
  obtain ⟨hresult', hright⟩ := sweep_silent (a := b) hstep hp (distinct_perm hss hd)
    fun s hs => hmovable s (hss.mem_iff.mp hs)
  have hfound : (b.series.filter (·.isPending)).Perm (a.series.filter (·.isPending)) :=
    hss.filter _
  refine ⟨?_, ?_, hfound.map _, hright.stamp.trans hleft.stamp.symm, fun k => ?_⟩
  · rw [hresult, contents, List.length_map]
  · rw [hresult', hfound.length_eq, contents, contents, List.length_map]
  · have hseek : seek k b.series = seek k a.series := seek_perm hss hd k
    rw [hright.seeks, hleft.seeks, hseek]
    rfl

/-! ## Series made for their instruments -/

variable {choose : Descriptor → Option Aggregator}

theorem AllMade.movable (h : AllMade choose a)
    (hnew : ∀ d g, choose d = some g → Aggregator.IsNew d g) (hd : Distinct a.series) :
    ∀ s ∈ a.series, Movable s := by
  intro s hs
  obtain ⟨g, hg, hmade⟩ := h s.key s (seek_of_mem hd hs)
  have hcurrent : s.current.cleared s.descriptor = g := hmade.current
  rw [Movable, hcurrent]
  exact hmade.move (hnew _ g hg)

theorem AllMade.collected_eq {cx : Context} {errors : List MetricsError}
    (h : AllMade choose (a.afterCallbacks cx))
    (hnew : ∀ d g, choose d = some g → Aggregator.IsNew d g)
    (hd : Distinct (a.afterCallbacks cx).series) (hproceeds : Proceeds cx a errors)
    (hstep : Silent P step) (hp : P p) :
    collected cx step p a = calledAll cx (List.range a.observers.length) a ++
      (a.afterCallbacks cx).contents.map .processed := by
  have hswept := (sweep_silent hstep.logged (p := (p, [])) hp hd (h.movable hnew hd)).1
  rw [hproceeds.collected_eq, hswept, hstep.feed_logged hp, List.nil_append]
  rfl

theorem AllMade.made_handedOverAs (h : AllMade choose a)
    (hnew : ∀ d g, choose d = some g → Aggregator.IsNew d g) (hd : Distinct a.series)
    (r : Relabelling) (resource : Resource) :
    ∀ acc ∈ handedOverAs r resource a, Made choose acc := by
  intro acc hacc
  obtain ⟨s, hs, rfl⟩ := List.mem_map.mp hacc
  obtain ⟨g, hg, hmade⟩ := h s.key s (seek_of_mem hd (List.mem_filter.mp hs).1)
  exact ⟨g, hg, hnew _ g hg, hmade.current⟩

end Accumulator
end Metering
