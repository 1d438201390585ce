import Metering.Proofs.Accumulator.Samples

/-!
# Sweeps

A sweep with a processor that does not record anything itself hands over what the pending series
hold, series by series, and leaves them empty.
-/

namespace Metering.Accumulator

def handOver (resource : Resource) (s : LiveSeries) : Accumulation :=
  ⟨⟨s.descriptor, s.labels, resource⟩, s.current⟩

def emptied (s : LiveSeries) : LiveSeries :=
  { s with
    current := s.current.cleared s.descriptor, checkpoint := s.current, collected := s.updates,
    idleSweeps := 0 }

/-- Whether a processor neither records nor panics, in states that it does not leave. -/
def Silent {σ : Type} (P : σ → Prop) (step : ProcessorStep σ) : Prop :=
  ∀ p acc, P p → (step p acc).2.records = [] ∧
    (∀ cause, (step p acc).2.outcome ≠ .error (.panic cause)) ∧ P (step p acc).1

def feed {σ : Type} (step : ProcessorStep σ) (p : σ) (accs : List Accumulation) : σ :=
  accs.foldl (fun p acc => (step p acc).1) p

theorem Silent.logged {σ : Type} {P : σ → Prop} {step : ProcessorStep σ} (h : Silent P step) :
    Silent (fun p => P p.1) (logged step) := fun p acc hp => h p.1 acc hp

theorem Silent.feed_logged {σ : Type} {P : σ → Prop} {step : ProcessorStep σ} (h : Silent P step)
    {p : σ} (hp : P p) (log : List Deed) (accs : List Accumulation) :
    feed (Accumulator.logged step) (p, log) accs =
      (feed step p accs, log ++ accs.map .processed) := by
  induction accs generalizing p log with
  | nil => simp [feed]
  | cons acc accs ih =>
    obtain ⟨hrecords, -, hp'⟩ := h p acc hp
    have hone : (Accumulator.logged step (p, log) acc).1 =
        ((step p acc).1, log ++ [.processed acc]) := by
      simp [Accumulator.logged, hrecords]
    have hrest := ih hp' (log ++ [.processed acc])
    rw [← hone, List.append_assoc] at hrest
    exact hrest

/-- What a sweep of some series leaves: these are empty, and nothing else has changed. -/
structure Swept (found : List LiveSeries) (a b : Accumulator) : Prop where
  setup : SameSetup a b
  observers : b.observers = a.observers
  flags : b.flags = a.flags
  stamp : b.stamp = a.stamp
  distinct : Distinct a.series → Distinct b.series
  seeks : ∀ k, seek k b.series =
    (seek k a.series).map fun s => if k ∈ found.map (·.key) then emptied s else s

section
variable {σ : Type} {P : σ → Prop} {step : ProcessorStep σ} {a : Accumulator}

/-- Whether the measurements of a series can move to its checkpoint and leave it empty. -/
def Movable (s : LiveSeries) : Prop :=
  s.current.move s.checkpoint s.descriptor = .ok (s.current.cleared s.descriptor, s.current)

theorem checkpointSeries_silent (hstep : Silent P step) {s : LiveSeries} (hs : Movable s) {p : σ}
    (hp : P p) :
    ∃ events, checkpointSeries step s p a =
      ({ a.store { s with current := s.current.cleared s.descriptor, checkpoint := s.current } with
          events }, (step p (handOver a.resource s)).1, .ok 1) := by
  obtain ⟨hrecords, hpanic, -⟩ := hstep p (handOver a.resource s) hp
  rw [checkpointSeries, show s.current.move s.checkpoint s.descriptor = _ from hs]
  simp only [handOver] at hrecords hpanic
  simp only [store, handOver, hrecords, List.foldl_nil]
  split
  · exact ⟨_, rfl⟩
  · exact ⟨_, rfl⟩
  next cause hx => exact absurd hx (hpanic cause)

theorem swept_one {s : LiveSeries} (hs : seek s.key a.series = some s) (events : List Event) :
    Swept [s] a (markCollected s
      { a.store { s with current := s.current.cleared s.descriptor, checkpoint := s.current } with
        events }) := by
  have hstore := measured_store a (k := s.key)
    (s := { s with current := s.current.cleared s.descriptor, checkpoint := s.current }) rfl
  have hm := (hstore.events events).trans (measured_markCollected s _)
  refine ⟨hm.setup, hm.observers, hm.flags, rfl, hm.distinct, fun k => ?_⟩
  by_cases hk : s.key = k
  · subst hk
    rw [seek_markCollected_self, hs]
    have hseek : seek s.key (a.store { s with
        current := s.current.cleared s.descriptor, checkpoint := s.current }).series = _ :=
      seek_store_self rfl hs
    simp only [hseek, Option.map_some, List.map_cons, List.map_nil, List.mem_singleton, if_true]
    rfl
  · rw [hm.frame k hk]
    cases seek k a.series with
    | none => rfl
    | some t => simp [Ne.symm hk]

theorem Swept.cons {s : LiveSeries} {found : List LiveSeries} {b c : Accumulator}
    (h : Swept [s] a b) (h' : Swept found b c) (hne : s.key ∉ found.map (·.key)) :
    Swept (s :: found) a c := by
  refine ⟨h.setup.trans h'.setup, h'.observers.trans h.observers, h'.flags.trans h.flags,
    h'.stamp.trans h.stamp, h'.distinct ∘ h.distinct, fun k => ?_⟩
  rw [h'.seeks, h.seeks]
  cases seek k a.series with
  | none => rfl
  | some t =>
    by_cases hk : k = s.key
    · subst hk
      simp [hne]
    · simp [hk]

theorem checkpointAll_silent (hstep : Silent P step) {found : List LiveSeries}
    (hd : Distinct found) (hfound : ∀ f ∈ found, seek f.key a.series = some f ∧ Movable f) {p : σ}
    (hp : P p) :
    (checkpointAll step found p a).2 =
        (feed step p (found.map (handOver a.resource)), .ok found.length) ∧
      Swept found a (checkpointAll step found p a).1 := by
  induction found generalizing a p with
  | nil =>
    refine ⟨rfl, .refl a, rfl, rfl, rfl, id, fun k => ?_⟩
    simp [checkpointAll]
  | cons f found ih =>
    obtain ⟨hne, hd⟩ := List.nodup_cons.mp hd
    obtain ⟨⟨hf, hm⟩, hrest⟩ := List.forall_mem_cons.mp hfound
    have hfind : (a.find? f.descriptor f.labels).getD f = f := by
      rw [find?_eq_seek, show (f.descriptor, f.labels) = f.key from rfl, hf]
      rfl
    obtain ⟨events, hone⟩ := checkpointSeries_silent (a := a) hstep hm hp
    have hswept := swept_one hf events
    have hrest' : ∀ g ∈ found, seek g.key (markCollected f
        { a.store { f with current := f.current.cleared f.descriptor, checkpoint := f.current }
          with events }).series = some g ∧ Movable g := by
      intro g hg
      have hgk : g.key ≠ f.key := fun h => hne (List.mem_map.mpr ⟨g, hg, h⟩)
      rw [hswept.seeks, (hrest g hg).1]
      simp [hgk, (hrest g hg).2]
    obtain ⟨hr, hs⟩ := ih hd hrest' (hstep p (handOver a.resource f) hp).2.2
    rw [checkpointAll, hfind, hone]
    simp only [hr]
    refine ⟨?_, hswept.cons hs hne⟩
    rw [hswept.setup.resource]
    simp [feed, Except.map, Nat.add_comm]

/-! ## Whole sweeps -/

variable {choose : Descriptor → Option Aggregator} {us : List Sample}

theorem Contains.new {k : SeriesKey} {rs : List Reading} {s : LiveSeries}
    (h : Contains choose k rs s) : ∃ g, choose k.1 = some g ∧ Aggregator.IsNew k.1 g ∧
      (g.sum?.isSome = true → k.1.numberKind.IsInteger) ∧ s.checkpoint.cleared k.1 = g ∧
      s.current = gather k.1 g rs ∧ s.current.cleared k.1 = g := by
  obtain ⟨g, hg, hck, hcur⟩ := h.current
  obtain ⟨hnew, hsum⟩ := h.regular g hg
  exact ⟨g, hg, hnew, hsum, hck, hcur, by rw [hcur, cleared_gather hnew.cleared]⟩

theorem Contains.movable {k : SeriesKey} {rs : List Reading} {s : LiveSeries}
    (h : Contains choose k rs s) (hk : s.key = k) : Movable s := by
  obtain ⟨g, -, hnew, -, hck, -, hcl⟩ := h.new
  subst hk
  rw [Movable, show s.current.cleared s.descriptor = g from hcl]
  exact hnew.move hcl hck

theorem Contains.emptied {k : SeriesKey} {rs : List Reading} {s : LiveSeries}
    (h : Contains choose k rs s) (hk : s.key = k) : Contains choose k [] (emptied s) := by
  obtain ⟨g, hg, -, -, -, -, hcl⟩ := h.new
  subst hk
  exact ⟨h.regular, ⟨g, hg, hcl, hcl⟩, le_refl _,
    by simp [Accumulator.emptied, LiveSeries.isPending]⟩

theorem Holds.pending_found (h : Holds choose us a) :
    ∀ f ∈ a.series.filter (·.isPending), seek f.key a.ageIdle.series = some f ∧ Movable f := by
  intro f hf
  obtain ⟨hmem, hpending⟩ := List.mem_filter.mp hf
  have hs := seek_of_mem h.distinct hmem
  refine ⟨?_, (h.present _ f hs).movable rfl⟩
  rw [ageIdle_series, seek_map aged_key, hs, Option.map_some, aged, if_pos hpending]

theorem mem_pending_iff (hd : Distinct a.series) {k : SeriesKey} {s : LiveSeries}
    (hs : seek k a.series = some s) :
    k ∈ (a.series.filter (·.isPending)).map (·.key) ↔ s.isPending = true := by
  constructor
  · intro hmem
    obtain ⟨f, hf, hk⟩ := List.mem_map.mp hmem
    obtain ⟨hf, hp⟩ := List.mem_filter.mp hf
    have hfound := seek_of_mem hd hf
    rw [hk, hs] at hfound
    rw [Option.some.inj hfound]
    exact hp
  · intro hp
    exact List.mem_map.mpr ⟨s, List.mem_filter.mpr ⟨seek_mem hs, hp⟩, seek_key hs⟩

/-- The series that a sweep leaves hold nothing: those that it did not find pending held nothing
before. -/
theorem Holds.swept (h : Holds choose us a) {b : Accumulator}
    (hswept : Swept (a.series.filter (·.isPending)) a.ageIdle b) {k : SeriesKey} {s : LiveSeries}
    (hs : seek k b.series = some s) : Contains choose k [] s := by
  rw [hswept.seeks, ageIdle_series, seek_map aged_key] at hs
  cases ht : seek k a.series with
  | none => simp [ht] at hs
  | some t =>
    have hcont := h.present k t ht
    rw [ht, Option.map_some, Option.map_some] at hs
    have hs := Option.some.inj hs
    by_cases hp : t.isPending = true
    · rw [if_pos ((mem_pending_iff h.distinct ht).mpr hp), aged, if_pos hp] at hs
      rw [← hs]
      exact hcont.emptied (seek_key ht)
    · rw [if_neg (fun hx => hp ((mem_pending_iff h.distinct ht).mp hx)), aged, if_neg hp] at hs
      have hnil : readings k us = [] := by
        by_contra hne
        exact hp (hcont.pending.mpr hne)
      rw [hnil] at hcont
      rw [← hs]
      exact ⟨hcont.regular, hcont.current, hcont.collected_le, hcont.pending⟩

/-- A sweep hands over all that the series hold. -/
theorem Holds.sweep (h : Holds choose us a) (hstep : Silent P step) {p : σ} (hp : P p) :
    (sweep step p a).2 =
        (feed step p ((a.series.filter (·.isPending)).map (handOver a.resource)),
          .ok (a.series.filter (·.isPending)).length) ∧
      Holds choose [] (sweep step p a).1 ∧ SameSetup a (sweep step p a).1 ∧
      (sweep step p a).1.observers = a.observers ∧ (sweep step p a).1.flags = a.flags ∧
      (sweep step p a).1.stamp = a.stamp := by
  obtain ⟨hr, hswept⟩ :=
    checkpointAll_silent hstep (distinct_filter h.distinct _) h.pending_found hp
  rw [Accumulator.sweep]
  rcases hc : checkpointAll step (a.series.filter (·.isPending)) p a.ageIdle with ⟨b, p', res⟩
  rw [hc] at hr hswept
  obtain ⟨rfl, rfl⟩ := Prod.mk.inj hr
  obtain ⟨events, he⟩ := evictIdle_eq b
  simp only [he]
  have hb : Distinct b.series := hswept.distinct (distinct_map aged_key h.distinct)
  refine ⟨rfl, ⟨distinct_filter hb _, fun k s hs => ?_, fun k _ => rfl, .nil, by simp⟩,
    ⟨hswept.setup.1, hswept.setup.2, hswept.setup.3, hswept.setup.4, hswept.setup.5⟩,
    hswept.observers, hswept.flags, hswept.stamp⟩
  rw [seek_filter hb] at hs
  exact h.swept hswept (Option.eq_some_of_filter_eq_some hs)

theorem Proceeds.collected {cx : Context} {errors : List MetricsError} (h : Proceeds cx a errors)
    (hb : Holds choose us (a.afterCallbacks cx)) (hstep : Silent P step) {p : σ} (hp : P p) :
    collected cx step p a = calledAll cx (List.range a.observers.length) a ++
      (((a.afterCallbacks cx).series.filter (·.isPending)).map
        (handOver (a.afterCallbacks cx).resource)).map .processed := by
  have hswept := (hb.sweep hstep.logged (p := (p, [])) hp).1
  rw [h.collected_eq, hswept, hstep.feed_logged hp, List.nil_append]

end
end Metering.Accumulator
