import Metering.Proofs.Accumulator.Traces

/-!
# What does not depend on callbacks

The series, the selector and the clock go their way whatever callbacks are registered and whatever
happened before. Measuring and sweeping do the same on accumulators that differ in these only.
-/

namespace Metering

/-- Whether a measurement was dropped. -/
def Event.isDrop : Event → Bool
  | .logged (.measurementDropped _) => true
  | _ => false

namespace Accumulator

/-- The accumulator with other callbacks and another past. -/
def furnished (a : Accumulator) (observers : List Observer) (events : List Event) : Accumulator :=
  { a with observers, events }

/-- The accumulator with other callbacks and another past, in which a number of measurements were
dropped. -/
def outfitted (a : Accumulator) (observers : List Observer) (dropped : Nat)
    (events : List Event) : Accumulator :=
  { a with observers, dropped, events }

variable (a : Accumulator) (observers : List Observer) (events : List Event)

/-! ## Measurements -/

theorem acquire_outfitted (dropped : Nat) (d : Descriptor) (labels : LabelSet) :
    (a.outfitted observers dropped events).acquire d labels =
      ((a.acquire d labels).1.outfitted observers dropped events, (a.acquire d labels).2) := by
  simp only [acquire, find?, outfitted, ask]
  cases a.series.find? (·.isFor d labels) with
  | some s => rfl
  | none =>
    dsimp only
    cases (a.selector.ask a.asked d).1 with
    | none => rfl
    | some current =>
      dsimp only
      cases (a.selector.ask (a.selector.ask a.asked d).2 d).1 <;> rfl

theorem reobserve_outfitted (dropped : Nat) (s : LiveSeries) :
    (a.outfitted observers dropped events).reobserve s =
      ((a.reobserve s).1.outfitted observers dropped events, (a.reobserve s).2) := by
  rw [reobserve, reobserve]
  simp only [outfitted, ask]
  by_cases hr : s.observedEpoch = a.epoch + 1
  · simp only [hr, if_true]
    cases (a.selector.ask a.asked s.descriptor).1 <;> rfl
  · simp only [hr, if_false]

/-- A measurement in range is taken in without a look at the callbacks and the past, to which no
dropped measurement is added. -/
theorem update_outfitted {d : Descriptor} {n : Number} (hn : d.rangeTest n = .ok ())
    (labels : LabelSet) (isObserved : Bool) :
    ∃ new : List Event, (∀ e ∈ new, e.isDrop = false) ∧
      ∀ observers dropped events,
        (a.outfitted observers dropped events).update d n labels isObserved =
          (a.update d n labels isObserved).outfitted observers dropped (events ++ new) := by
  rw [update, hn]
  dsimp only
  rcases hacquire : a.acquire d labels with ⟨b, none | s⟩
  · refine ⟨[], by simp, fun observers dropped events => ?_⟩
    rw [update, hn, List.append_nil]
    simp only [acquire_outfitted, hacquire]
  · cases isObserved with
    | false =>
      refine ⟨[], by simp, fun observers dropped events => ?_⟩
      rw [update, hn, List.append_nil]
      simp only [acquire_outfitted, hacquire]
      rfl
    | true =>
      rcases hreobserve : b.reobserve s with ⟨b', cause | s'⟩
      · refine ⟨[.reported (.metric cause)], by simp [Event.isDrop],
          fun observers dropped events => ?_⟩
        rw [update, hn]
        simp only [acquire_outfitted, hacquire, if_true, reobserve_outfitted, hreobserve]
        rfl
      · refine ⟨[], by simp, fun observers dropped events => ?_⟩
        rw [update, hn, List.append_nil]
        simp only [acquire_outfitted, hacquire, if_true, reobserve_outfitted, hreobserve]
        rfl

theorem update_furnished (d : Descriptor) (n : Number) (labels : LabelSet) (isObserved : Bool) :
    ∃ events', (a.furnished observers events).update d n labels isObserved =
      (a.update d n labels isObserved).furnished observers events' := by
  cases hn : d.rangeTest n with
  | error reason =>
    rw [update, update, hn]
    exact ⟨_, rfl⟩
  | ok _ =>
    obtain ⟨new, -, h⟩ := update_outfitted a hn labels isObserved
    refine ⟨events ++ new, (h observers a.dropped events).trans ?_⟩
    rw [← (takesIn_update (a := a) hn labels isObserved).dropped]
    rfl

theorem record_furnished (m : Measurement) :
    ∃ events', (a.furnished observers events).record m =
      (a.record m).furnished observers events' := by
  simp only [record]
  split
  · exact update_furnished a observers events m.descriptor m.number m.labels false
  · exact ⟨_, rfl⟩

theorem observe_furnished (registered : List Descriptor) (d : Descriptor) (n : Number)
    (labels : LabelSet) :
    ∃ events', (a.furnished observers events).observe registered d n labels =
      (a.observe registered d n labels).furnished observers events' := by
  simp only [observe]
  split
  · exact update_furnished a observers events d n labels true
  · exact ⟨_, rfl⟩

theorem recordAll_furnished (ms : List Measurement) :
    ∃ events', ms.foldl record (a.furnished observers events) =
      (ms.foldl record a).furnished observers events' := by
  induction ms generalizing a events with
  | nil => exact ⟨events, rfl⟩
  | cons m ms ih =>
    obtain ⟨events', h⟩ := record_furnished a observers events m
    rw [List.foldl_cons, List.foldl_cons, h]
    exact ih (a.record m) events'

/-! ## Sweeps -/

section
variable {σ : Type} (step : ProcessorStep σ)

theorem checkpointSeries_furnished (s : LiveSeries) (p : σ) :
    ∃ events', checkpointSeries step s p (a.furnished observers events) =
      ((checkpointSeries step s p a).1.furnished observers events',
        (checkpointSeries step s p a).2) := by
  simp only [checkpointSeries]
  cases s.current.move s.checkpoint s.descriptor with
  | error cause => exact ⟨_, rfl⟩
  | ok moved =>
    obtain ⟨events', h⟩ := recordAll_furnished
      (a.store { s with current := moved.1, checkpoint := moved.2 }) observers events
      (step p ⟨⟨s.descriptor, s.labels, a.resource⟩, moved.2⟩).2.records
    simp only [store, furnished] at h ⊢
    rw [h]
    generalize step p ⟨⟨s.descriptor, s.labels, a.resource⟩, moved.2⟩ = reply
    rcases reply.2.outcome with (cause | cause) | _
    all_goals exact ⟨_, rfl⟩

theorem checkpointAll_furnished (found : List LiveSeries) (p : σ) :
    ∃ events', checkpointAll step found p (a.furnished observers events) =
      ((checkpointAll step found p a).1.furnished observers events',
        (checkpointAll step found p a).2) := by
  induction found generalizing p a events with
  | nil => exact ⟨_, rfl⟩
  | cons f found ih =>
    obtain ⟨events', h⟩ := checkpointSeries_furnished a observers events step
      ((a.find? f.descriptor f.labels).getD f) p
    rw [checkpointAll, checkpointAll]
    dsimp only
    rw [show (a.furnished observers events).find? f.descriptor f.labels =
      a.find? f.descriptor f.labels from rfl, h]
    rcases checkpointSeries step ((a.find? f.descriptor f.labels).getD f) p a with
      ⟨b, q, cause | n⟩
    · exact ⟨_, rfl⟩
    · obtain ⟨events'', hrest⟩ := ih (markCollected f b) events' q
      rw [show (markCollected f b).furnished observers events' =
        markCollected f (b.furnished observers events') from rfl] at hrest
      dsimp only
      rw [hrest]
      exact ⟨_, rfl⟩

theorem evictIdle_furnished :
    ∃ events', (a.furnished observers events).evictIdle =
      a.evictIdle.furnished observers events' := by
  obtain ⟨_, h⟩ := evictIdle_eq a
  obtain ⟨events', h'⟩ := evictIdle_eq (a.furnished observers events)
  rw [h, h']
  exact ⟨events', rfl⟩

theorem sweep_furnished (p : σ) :
    ∃ events', sweep step p (a.furnished observers events) =
      ((sweep step p a).1.furnished observers events', (sweep step p a).2) := by
  obtain ⟨events', h⟩ := checkpointAll_furnished a.ageIdle observers events step
    (a.series.filter (·.isPending)) p
  rw [show a.ageIdle.furnished observers events = (a.furnished observers events).ageIdle from rfl]
    at h
  rw [sweep, sweep, show (a.furnished observers events).series = a.series from rfl, h]
  rcases checkpointAll step (a.series.filter (·.isPending)) p a.ageIdle with ⟨b, q, cause | n⟩
  · exact ⟨_, rfl⟩
  · obtain ⟨events'', hevict⟩ := evictIdle_furnished b observers events'
    dsimp only
    rw [hevict]
    exact ⟨_, rfl⟩

end

theorem observers_sweep {σ : Type} (step : ProcessorStep σ) (p : σ) :
    (sweep step p a).1.observers = a.observers := by
  obtain ⟨events', h⟩ := sweep_furnished a a.observers a.events step p
  rw [show a.furnished a.observers a.events = a from rfl] at h
  rw [h]
  rfl

theorem observers_observe (registered : List Descriptor) (d : Descriptor) (n : Number)
    (labels : LabelSet) : (a.observe registered d n labels).observers = a.observers := by
  obtain ⟨events', h⟩ := observe_furnished a a.observers a.events registered d n labels
  rw [show a.furnished a.observers a.events = a from rfl] at h
  rw [h]
  rfl

end Accumulator
end Metering
