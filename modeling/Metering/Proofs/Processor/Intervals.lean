import Metering.Proofs.Processor.Reordering

/-!
# The intervals of checkpoint sets

Every checkpoint set covers the time since the one before it ended, and the first one the time
since the processor was made. The end of the interval moves only where a collection ends well: a
collection that is aborted, refused or fails leaves the time it took to the next one. Within a set
the records differ in their starts alone, by temporality.
-/

namespace Metering.Processor

def Reply.set? : Reply → Option CheckpointSet
  | .finished (.ok set) => some set
  | _ => none

/-- The checkpoint sets of a run, in their order. -/
def checkpoints (past : List (Call × Reply)) : List CheckpointSet :=
  past.filterMap fun step => step.2.set?

/-- The end of the last checkpoint set, or the time at which the processor was made. -/
def lastStop (created : Time) (sets : List CheckpointSet) : Time :=
  sets.getLast?.elim created (·.stop)

variable {select : TemporalitySelector} {created now : Time} {past : List (Call × Reply)}
  {p : Processor} {c : Int} {set : CheckpointSet}

theorem checkpoints_snoc (past : List (Call × Reply)) (step : Call × Reply) :
    checkpoints (past ++ [step]) = checkpoints past ++ step.2.set?.toList := by
  rw [checkpoints, List.filterMap_append]
  cases h : step.2.set? <;> simp [checkpoints, h]

/-! ## The clock of a processor -/

theorem offer_times (select : TemporalitySelector) (acc : Accumulation) (p : Processor) :
    (p.offer select acc).1.processStart = p.processStart ∧
      (p.offer select acc).1.intervalStart = p.intervalStart := by
  obtain hsame | ⟨entries, -, -, hoffer⟩ := offer_cases select acc p
  · rw [hsame]
    exact ⟨rfl, rfl⟩
  · rw [hoffer]
    exact ⟨rfl, rfl⟩

/-- The end of a collection moves the interval on if there is a checkpoint set, which covers the
interval until then; otherwise the interval goes on. -/
theorem finishCollection_times (now : Time) (p : Processor) :
    (p.finishCollection now).1.processStart = p.processStart ∧
      match (p.finishCollection now).2 with
      | .ok set =>
        set.start = p.intervalStart ∧ set.stop = now ∧
          (p.finishCollection now).1.intervalStart = now
      | .error _ => (p.finishCollection now).1.intervalStart = p.intervalStart := by
  obtain ⟨-, hfinish⟩ | ⟨-, cause, -, hfinish⟩ | ⟨-, -, hfinish⟩ := finishCollection_cases now p <;>
    rw [hfinish]
  · exact ⟨rfl, rfl⟩
  · exact ⟨rfl, rfl⟩
  · exact ⟨rfl, rfl, rfl, rfl⟩

/-- The clock of a processor after a run: totals start when it was made, its interval starts where
the last checkpoint set ended, and the sets up to then leave no gap and do not overlap. -/
structure Timed (created : Time) (sets : List CheckpointSet) (p : Processor) : Prop where
  processStart : p.processStart = created
  intervalStart : p.intervalStart = lastStop created sets
  first : ∀ set ∈ sets.head?, set.start = created
  next : sets.IsChain fun set later => later.start = set.stop

theorem timed_new (created : Time) : Timed created [] (new created) :=
  ⟨rfl, rfl, by simp, .nil⟩

variable {sets : List CheckpointSet}

theorem Timed.same (h : Timed created sets p) {q : Processor} (hp : q.processStart = p.processStart)
    (hi : q.intervalStart = p.intervalStart) : Timed created sets q :=
  ⟨hp.trans h.processStart, hi.trans h.intervalStart, h.first, h.next⟩

theorem Timed.finish (h : Timed created sets p) (now : Time) :
    Timed created (sets ++ (Reply.finished (p.finishCollection now).2).set?.toList)
      (p.finishCollection now).1 := by
  have ⟨hp, hi⟩ := finishCollection_times now p
  cases hresult : (p.finishCollection now).2 with
  | error cause =>
    rw [hresult] at hi
    simpa [Reply.set?] using h.same hp hi
  | ok set =>
    rw [hresult] at hi
    have ⟨hstart, hstop, hi⟩ := hi
    have hlast : set.start = lastStop created sets := hstart.trans h.intervalStart
    simp only [Reply.set?, Option.toList_some]
    refine ⟨hp.trans h.processStart, ?_, ?_, ?_⟩
    · simp [lastStop, hi, hstop]
    · cases sets with
      | nil => simpa [lastStop] using hlast
      | cons first sets => simpa using h.first
    · apply List.isChain_append.mpr
      refine ⟨h.next, List.isChain_singleton set, ?_⟩
      intro before hbefore later hlater
      obtain rfl : set = later := by simpa using hlater
      rw [hlast, lastStop, Option.mem_def.mp hbefore, Option.elim_some]

theorem Timed.call (h : Timed created sets p) (c : Call) :
    Timed created (sets ++ (Processor.call select c p).2.set?.toList)
      (Processor.call select c p).1 := by
  cases c with
  | start =>
    have hsame : Timed created sets p.startCollection := h.same rfl rfl
    simpa [Processor.call, Reply.set?] using hsame
  | process acc =>
    obtain ⟨hp, hi⟩ := offer_times select acc p
    simpa [Processor.call, Reply.set?] using h.same hp hi
  | abort =>
    have hsame : Timed created sets p.abortCollection := h.same rfl rfl
    simpa [Processor.call, Reply.set?] using hsame
  | finish now => exact h.finish now

theorem Runs.timed (h : Runs select created past p) : Timed created (checkpoints past) p := by
  induction h with
  | new => exact timed_new created
  | call _ c ih =>
    rw [checkpoints_snoc]
    exact ih.call c
  | reordered _ _ ih => exact ih.same rfl rfl

/-! ## Where temporalities come from -/

/-- Whether a temporality was chosen for an accumulation of the series that was processed. -/
def Chosen (select : TemporalitySelector) (past : List (Call × Reply)) (k : SeriesId)
    (t : Temporality) : Prop :=
  ∃ acc, (Call.process acc, Reply.processed (.ok ())) ∈ past ∧ acc.series = k ∧
    t = select acc.series.descriptor acc.aggregator.kind

theorem Chosen.later {k : SeriesId} {t : Temporality} (h : Chosen select past k t)
    (steps : List (Call × Reply)) : Chosen select (past ++ steps) k t := by
  obtain ⟨acc, hacc, hchosen⟩ := h
  exact ⟨acc, List.mem_append_left _ hacc, hchosen⟩

/-- Every entry has the temporality that was chosen when it was made. -/
def AllChosen (select : TemporalitySelector) (past : List (Call × Reply)) (es : List Entry) :
    Prop := ∀ e ∈ es, Chosen select past e.series e.temporality

theorem AllChosen.later {es : List Entry} (h : AllChosen select past es)
    (steps : List (Call × Reply)) : AllChosen select (past ++ steps) es :=
  fun e he => (h e he).later steps

theorem AllChosen.offer (h : AllChosen select past p.entries) (acc : Accumulation) :
    AllChosen select (past ++ [(.process acc, .processed (p.offer select acc).2)])
      (p.offer select acc).1.entries := by
  obtain hsame | ⟨entries, -, hinsert, hoffer⟩ := offer_cases select acc p
  · rw [hsame]
    exact h.later _
  · rw [hoffer]
    apply insert_forall hinsert _ _ (h.later [(.process acc, .processed (.ok ()))])
    · exact ⟨acc, by simp, rfl, rfl⟩
    · intro e e' _ he hreceive
      rw [receive_fields hreceive]
      exact he

theorem AllChosen.abort (h : AllChosen select past p.entries) :
    AllChosen select past p.abortCollection.entries := by
  intro e' he'
  obtain ⟨e, he, hfields⟩ := mem_abortCollection he'
  rw [hfields]
  exact h e he

theorem AllChosen.finish (h : AllChosen select past p.entries) (now : Time) :
    AllChosen select past (p.finishCollection now).1.entries := by
  rcases finishCollection_entries now p with heq | heq
  · rw [heq]
    exact h
  · intro e' he'
    rw [heq] at he'
    obtain ⟨e, he, hs | rfl | rfl⟩ := mem_settleAll he'
    · cases hs <;> exact h e he
    · exact h e' he
    · exact h e he

theorem Runs.allChosen (h : Runs select created past p) : AllChosen select past p.entries := by
  induction h with
  | new => simp [AllChosen, Processor.new]
  | call _ c ih =>
    cases c with
    | start => exact ih.later _
    | process acc => exact ih.offer acc
    | abort => exact ih.abort.later _
    | finish now => exact (ih.finish now).later _
  | reordered _ hp ih =>
    intro e he
    exact ih e (hp.mem_iff.mp he)

/-! ## Records -/

theorem exported?_start {e : Entry} {a : Aggregator} {start : Time}
    (h : exported? p c e = some (a, start)) :
    start = match e.temporality with
      | .delta => p.intervalStart
      | .cumulative => p.processStart := by
  cases ht : e.temporality <;> cases hs : e.isStateful <;> simp only [exported?, ht, hs] at h
  · exact (Prod.mk.inj (Option.some.inj h)).2.symm
  · obtain ⟨total, _, heq⟩ := Option.map_eq_some_iff.mp h
    exact (Prod.mk.inj heq).2.symm
  · exact (Prod.mk.inj (Option.some.inj h)).2.symm
  · split at h
    · obtain ⟨delta, _, heq⟩ := Option.map_eq_some_iff.mp h
      exact (Prod.mk.inj heq).2.symm
    · cases h

theorem mem_records_of_finishCollection (h : (p.finishCollection now).2 = .ok set) {r : Record}
    (hr : r ∈ set.records) :
    ∃ e ∈ p.entries, e.series = r.series ∧ r.stop = now ∧
      r.start = match e.temporality with
        | .delta => p.intervalStart
        | .cumulative => p.processStart := by
  obtain ⟨_, hrecords⟩ := records_of_finishCollection h
  rw [hrecords] at hr
  obtain ⟨e', he', a, start, hexported, rfl⟩ := mem_records.mp hr
  obtain ⟨e, he, hs⟩ := List.mem_filterMap.mp he'
  have hfields := settled_fields hs
  refine ⟨e, he, (settled_series hs).symm, rfl, ?_⟩
  rw [exported?_start hexported, hfields]

/-- The checkpoint sets of a processor tile the time since it was made: the first one starts then,
and each later one where the one before it ended, whatever was aborted, refused or failed between
them. So does the set of the collection that ends now. Each of its records belongs to the one entry
of its series, whose temporality was chosen for an accumulation of the series; a record of changes
covers the time of the set, and one of totals all time until the set ends. -/
theorem checkpoint_intervals_tile (h : Runs select created past p) :
    (∀ set ∈ (checkpoints past).head?, set.start = created) ∧
      (checkpoints past).IsChain (fun set later => later.start = set.stop) ∧
      ∀ now set, (p.finishCollection now).2 = .ok set →
        set.start = lastStop created (checkpoints past) ∧ set.stop = now ∧
          ∀ r ∈ set.records, ∃ e ∈ p.entries,
            e.series = r.series ∧ (∀ e' ∈ p.entries, e'.series = r.series → e' = e) ∧
              Chosen select past r.series e.temporality ∧ r.stop = set.stop ∧
              r.start = match e.temporality with
                | .delta => set.start
                | .cumulative => created := by
  have htimed := h.timed
  refine ⟨htimed.first, htimed.next, ?_⟩
  intro now set hset
  have ⟨_, htimes⟩ := finishCollection_times now p
  rw [hset] at htimes
  have ⟨hstart, hstop, _⟩ := htimes
  refine ⟨hstart.trans htimed.intervalStart, hstop, ?_⟩
  intro r hr
  obtain ⟨e, he, hseries, hrstop, hrstart⟩ := mem_records_of_finishCollection hset hr
  refine ⟨e, he, hseries, ?_, hseries ▸ h.allChosen e he, hrstop.trans hstop.symm, ?_⟩
  · intro e' he' hseries'
    have hself := lookup_of_mem h.reachable.orderly.distinct he
    have hother := lookup_of_mem h.reachable.orderly.distinct he'
    rw [hseries] at hself
    rw [hseries', hself] at hother
    exact (Option.some.inj hother).symm
  · rw [hrstart, hstart, htimed.processStart]

/-- A run in which a collection is refused, one is aborted and one fails, because a series of sums
is handed a last value: the second checkpoint set starts where the first one ended, and holds
changes since then and totals since the start. -/
theorem checkpoint_intervals_of_failed_collections :
    let id (name : String) : SeriesId :=
      ⟨{ name, kind := .counter, numberKind := .u64 }, .empty, .empty⟩
    let select := Temporality.deltaFor ["requests"]
    let requests := Call.process ⟨id "requests", .sum ⟨3⟩⟩
    let calls : List Call :=
      [.finish 1, .start, requests, .process ⟨id "errors", .sum ⟨1⟩⟩, .finish 2,
        .start, requests, .abort, .finish 3,
        .start, .process ⟨id "errors", .lastValue none⟩, .finish 4,
        .start, requests, .process ⟨id "errors", .sum ⟨2⟩⟩]
    let past := calls.zip (run select calls (new 0)).2
    let p := (run select calls (new 0)).1
    (checkpoints past).map (fun set => (set.start, set.stop)) = [(0, 2)] ∧
      ∃ set, (p.finishCollection 5).2 = .ok set ∧ set.start = 2 ∧ set.stop = 5 ∧
        (∀ name ∈ ["errors", "requests"], id name ∈ set.records.map (·.series)) ∧
        ∀ r ∈ set.records, ∃ e ∈ p.entries, e.series = r.series ∧ r.stop = 5 ∧
          r.start = match e.temporality with
            | .delta => 2
            | .cumulative => 0 := by
  intro id select requests calls past p
  have hruns : Runs select 0 past p := Runs.new.run calls
  obtain ⟨_, _, hfinish⟩ := checkpoint_intervals_tile hruns
  have hpast : (checkpoints past).map (fun set => (set.start, set.stop)) = [(0, 2)] := by
    decide +kernel
  have hlast : lastStop 0 (checkpoints past) = 2 := by decide +kernel
  have hends : (p.finishCollection 5).2.toBool = true := by decide +kernel
  have hupdated : ∀ name ∈ ["errors", "requests"],
      ∃ e ∈ p.entries, e.series = id name ∧ e.updated = p.finished := by decide +kernel
  refine ⟨hpast, ?_⟩
  cases hset : (p.finishCollection 5).2 with
  | error cause => simp [hset, Except.toBool] at hends
  | ok set =>
    obtain ⟨hstart, hstop, hrecords⟩ := hfinish 5 set hset
    rw [hlast] at hstart
    refine ⟨set, rfl, hstart, hstop, ?_, ?_⟩
    · intro name hname
      obtain ⟨e, he, hseries, hu⟩ := hupdated name hname
      apply (hruns.reachable.orderly.exports_iff hset (id name)).mpr
      exact ⟨e, he, hseries, .inl hu⟩
    · intro r hr
      obtain ⟨e, he, hseries, _, _, hrstop, hrstart⟩ := hrecords r hr
      rw [hstart] at hrstart
      exact ⟨e, he, hseries, hrstop.trans hstop, hrstart⟩

end Metering.Processor
