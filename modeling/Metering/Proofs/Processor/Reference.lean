import Metering.Proofs.Processor.History

/-!
# What a processor exports

A run of completed collections exports exactly what its batches say of each series: a running
total, the data of the last collection, or the change of a sum that is reported as a total.
-/

namespace Metering.Processor

/-- What is exported of a series whose data are of a kind, under a temporality: the merge of all
collections for a total, the change since the last report for the delta of a precomputed sum, and
the data of the last collection otherwise. -/
def exportFor (t : Temporality) (kind : AggregationKind) (past : List (List Accumulation))
    (batch : List Accumulation) (k : SeriesId) : Option Aggregator :=
  let d := k.descriptor
  match t, d.kind.isPrecomputedSum with
  | .cumulative, false => Aggregator.mergeAll d (history (past ++ [batch]) k)
  | .delta, true =>
    if kind = .sum then
      (merged k batch).map fun m => (history past k).getLast?.elim m fun last => m.less d last
    else merged k batch
  | _, _ => merged k batch

/-- What is exported of a series at the end of a collection, given the batches of the earlier
collections and its own. -/
def expected (select : TemporalitySelector) (past : List (List Accumulation))
    (batch : List Accumulation) (k : SeriesId) : Option Aggregator :=
  (history (past ++ [batch]) k).head?.bind fun first =>
    exportFor (select k.descriptor first.kind) first.kind past batch k

/-- A completed collection: its accumulations, and the clock at its end. -/
structure Collection where
  batch : List Accumulation
  now : Time

def Collection.calls (c : Collection) : List Call :=
  .start :: c.batch.map .process ++ [.finish c.now]

variable {select : TemporalitySelector} {past : List (List Accumulation)}
  {batch : List Accumulation} {k : SeriesId}

theorem expected_eq {x : Accumulation} (hc : Consistent (past.flatten ++ batch))
    (hx : x ∈ past.flatten ++ batch) (hk : x.series = k) :
    expected select past batch k =
      exportFor (select k.descriptor x.aggregator.kind) x.aggregator.kind past batch k := by
  have hflat : (past ++ [batch]).flatten = past.flatten ++ batch := by simp
  cases hh : history (past ++ [batch]) k with
  | nil =>
    rw [history_eq_nil, hflat] at hh
    exact absurd hk (hh x hx)
  | cons first rest =>
    obtain ⟨y, hy, hyk, hs⟩ := mem_history_shape (show first ∈ history (past ++ [batch]) k by
      rw [hh]; simp)
    rw [hflat] at hy
    have hkind : first.kind = x.aggregator.kind := by
      rw [Aggregator.kind_eq_shape, hs, ← Aggregator.kind_eq_shape]
      exact (hc y hy x hx (hyk.trans hk.symm)).kind_eq
    simp [expected, hh, hkind]

theorem expected_of_unseen (h : ∀ x ∈ past.flatten ++ batch, x.series ≠ k) :
    expected select past batch k = none := by
  have hh : history (past ++ [batch]) k = [] := history_eq_nil.mpr (by simpa using h)
  simp [expected, hh]

theorem exportFor_of_stateless {t : Temporality} {kind : AggregationKind}
    (h : needsMemory k.descriptor kind t = false) :
    exportFor t kind past batch k = merged k batch := by
  have hn := Bool.eq_false_iff.mp h
  rw [Ne, needsMemory_iff] at hn
  cases t <;> cases hp : k.descriptor.kind.isPrecomputedSum <;> simp_all [exportFor]

/-- Batches of which the data merge to the same for every series. -/
def SameData (batch batch' : List Accumulation) : Prop := ∀ k, merged k batch = merged k batch'

/-- The order of the accumulations does not matter if there is at most one of each series. -/
theorem SameData.of_perm {batch' : List Accumulation} (h : batch.Perm batch')
    (hnodup : (batch.map (·.series)).Nodup) : SameData batch batch' := by
  intro k
  have hperm : (dataOf k batch).Perm (dataOf k batch') := (h.filter _).map _
  have hone : (dataOf k batch).length ≤ 1 := by
    have hcount := List.nodup_iff_count_le_one.mp hnodup k
    rw [List.count, List.countP_map, List.countP_eq_length_filter] at hcount
    simpa only [dataOf, List.length_map, Function.comp_def, beq_eq_decide] using hcount
  have heq : dataOf k batch = dataOf k batch' := by
    cases hdata : dataOf k batch with
    | nil => exact (List.nil_perm.mp (hdata ▸ hperm)).symm
    | cons x xs =>
      rw [hdata, List.length_cons, Nat.succ_le_succ_iff, Nat.le_zero, List.length_eq_zero_iff]
        at hone
      rw [hdata, hone] at hperm
      rw [hone, List.singleton_perm.mp hperm]
  rw [merged, merged, heq]

theorem history_congr {past past' : List (List Accumulation)} (h : List.Forall₂ SameData past past')
    (k : SeriesId) : history past k = history past' k := by
  unfold history
  induction h with
  | nil => rfl
  | cons hbatch _ ih => rw [List.filterMap_cons, List.filterMap_cons, hbatch k, ih]

/-- What is exported depends on the merged data alone. -/
theorem expected_congr {past' : List (List Accumulation)} {batch' : List Accumulation}
    (h : List.Forall₂ SameData past past') (hb : SameData batch batch') :
    expected select past batch k = expected select past' batch' k := by
  have hall : history (past ++ [batch]) k = history (past' ++ [batch']) k := by
    rw [history_snoc, history_snoc, history_congr h, hb k]
  have hexport : ∀ t kind, exportFor t kind past batch k = exportFor t kind past' batch' k := by
    intro t kind
    simp only [exportFor, hall, history_congr h, hb k]
  simp only [expected, hall, hexport]

/-! ## The end of a collection -/

theorem Forgotten.finish (h : Forgotten select past batch k)
    (hc : Consistent (past.flatten ++ batch)) :
    Forgotten select (past ++ [batch]) [] k ∧ expected select past batch k = none := by
  have hunseen := merged_eq_none.mp h.unseen
  refine ⟨⟨rfl, fun x hx hk => ?_⟩, ?_⟩
  · rw [List.flatten_append, List.flatten_singleton] at hx
    rcases List.mem_append.mp hx with hx | hx
    · exact h.stateless x hx hk
    · exact absurd hk (hunseen x hx)
  · by_cases hx : ∃ x ∈ past.flatten, x.series = k
    · obtain ⟨x, hx, hk⟩ := hx
      rw [expected_eq hc (by simp [hx]) hk, exportFor_of_stateless (h.stateless x hx hk), h.unseen]
    · refine expected_of_unseen fun x hm hk => ?_
      rcases List.mem_append.mp hm with hm | hm
      · exact hx ⟨x, hm, hk⟩
      · exact hunseen x hm hk

/-- How an entry ends a collection: what is kept of it mirrors the history with the collection's
batch, and exports what is expected. -/
structure Ends (select : TemporalitySelector) (c : Int) (past : List (List Accumulation))
    (batch : List Accumulation) (k : SeriesId) (kept : Option Entry) : Prop where
  present : ∀ e, kept = some e → Mirrors select (c + 1) (past ++ [batch]) [] k e
  absent : kept = none → Forgotten select (past ++ [batch]) [] k
  exports : ∀ p a, (∃ e, kept = some e ∧ ∃ start, exported? p c e = some (a, start)) ↔
    expected select past batch k = some a

variable {c : Int} {e : Entry}

private theorem mirrors_kept (h : Mirrors select c past batch k e) {e' : Entry}
    (hser : e'.series = e.series) (htemp : e'.temporality = e.temporality)
    (hstate : e'.isStateful = e.isStateful) (hupd : e'.updated = e.updated)
    (htotal : e'.isStateful = true → e'.total = memory (past ++ [batch]) k) :
    Mirrors select (c + 1) (past ++ [batch]) [] k e' where
  series := hser.trans h.series
  kind := by
    obtain ⟨x, hx, hk, ht, hs⟩ := h.kind
    exact ⟨x, by simpa using hx, hk, htemp.trans ht, by rw [hstate, hs, htemp]⟩
  stale _ := by
    cases hm : merged k batch with
    | none => have := h.stale hm; omega
    | some m => have := (h.current m hm).1; omega
  current m hm := by simp at hm
  total := htotal

private theorem ends_stateless (hc : Consistent (past.flatten ++ batch))
    (h : Mirrors select c past batch k e) (hs : e.isStateful = false) :
    ∃ kept, settle c e = .ok kept ∧ Ends select c past batch k kept := by
  obtain ⟨x, hx, hk, ht, hn⟩ := h.kind
  have hexp : expected select past batch k = merged k batch := by
    rw [expected_eq hc hx hk, exportFor_of_stateless (by rw [← ht, ← hn, hs])]
  refine ⟨if e.updated = c then some { e with isFresh := false } else none,
    by simp [settle, hs, pure, Except.pure], ?_⟩
  cases hm : merged k batch with
  | none =>
    rw [if_neg (h.stale hm).ne]
    refine ⟨by simp, fun _ => ⟨rfl, fun y hy hyk => ?_⟩, by simp [hexp, hm]⟩
    have hkind := (hc y (by simpa using hy) x hx (hyk.trans hk.symm)).kind_eq
    rw [hkind, ← ht, ← hn, hs]
  | some m =>
    obtain ⟨hu, hcur⟩ := h.current m hm
    rw [if_pos hu]
    refine ⟨?_, by simp, fun p a => ?_⟩
    · rintro _ ⟨rfl⟩
      exact mirrors_kept h rfl rfl rfl rfl (by simp [hs])
    · rw [hexp, hm]
      cases e.temporality <;> simp [exported?, hs, hcur]

private theorem ends_stale (hc : Consistent (past.flatten ++ batch))
    (h : Mirrors select c past batch k e) (hs : e.isStateful = true)
    (hm : merged k batch = none) :
    ∃ kept, settle c e = .ok kept ∧ Ends select c past batch k kept := by
  obtain ⟨x, hx, hk, ht, hn⟩ := h.kind
  have hold : e.updated ≠ c := (h.stale hm).ne
  have hhist : history (past ++ [batch]) k = history past k := by simp [history_snoc, hm]
  have hmem : memory (past ++ [batch]) k = e.total := by rw [h.total hs, memory, memory, hhist]
  refine ⟨some { e with isFresh := false }, by simp [settle, hs, hold, pure, Except.pure], ?_⟩
  refine ⟨?_, by simp, fun p a => ?_⟩
  · rintro _ ⟨rfl⟩
    exact mirrors_kept h rfl rfl rfl rfl fun _ => hmem.symm
  · rw [expected_eq hc hx hk, ← ht]
    rcases needsMemory_iff.mp (hn.symm.trans hs) with ⟨hp, hcum⟩ | ⟨hp, hdelta, hsum⟩
    · have htot : e.total = Aggregator.mergeAll k.descriptor (history past k) := by
        rw [h.total hs, memory, if_neg (by simp [hp])]
      simp [exported?, exportFor, hcum, hp, hs, hhist, ← htot]
    · simp [exported?, exportFor, hdelta, hp, hsum, hs, hold, hm]

private theorem ends_total (hc : Consistent (past.flatten ++ batch))
    (h : Mirrors select c past batch k e) (hs : e.isStateful = true)
    (hp : k.descriptor.kind.isPrecomputedSum = false) {m : Aggregator}
    (hm : merged k batch = some m) :
    ∃ kept, settle c e = .ok kept ∧ Ends select c past batch k kept := by
  obtain ⟨x, hx, hk, ht, hn⟩ := h.kind
  obtain ⟨hu, hcur⟩ := h.current m hm
  have hcum : e.temporality = .cumulative := by
    rcases needsMemory_iff.mp (hn.symm.trans hs) with ⟨-, hcum⟩ | ⟨hp', -⟩
    · exact hcum
    · exact absurd (hp.symm.trans hp') Bool.false_ne_true
  have htot : e.total = Aggregator.mergeAll k.descriptor (history past k) := by
    rw [h.total hs, memory, if_neg (by simp [hp])]
  have hmem : memory (past ++ [batch]) k =
      some (e.total.elim m fun total => total.absorb k.descriptor m) := by
    rw [memory, if_neg (by simp [hp]), history_snoc, hm, Option.toList_some,
      Aggregator.mergeAll_snoc, htot]
  -- the total has the shape of an earlier accumulation, the data that of one of the batch
  have hcompat : ∀ total, e.total = some total → total.Compatible m := by
    intro total htotal
    rw [htotal] at htot
    obtain ⟨y, hy, hys⟩ := Aggregator.mergeAll_shape htot.symm
    obtain ⟨u, hup, huk, hus⟩ := mem_history_shape hy
    obtain ⟨v, hv, hvk, hvs⟩ := merged_shape hm
    exact (hc u (by simp [hup]) v (by simp [hv]) (huk.trans hvk.symm)).congr (hys.trans hus) hvs
  have hsettle : settle c e = .ok (some { e with
      isFresh := false
      total := some (e.total.elim m fun total => total.absorb k.descriptor m) }) := by
    cases htotal : e.total with
    | none =>
      simp [settle, hs, hu, h.series, hp, accumulate, htotal, hcur, pure, Except.pure,
        bind, Except.bind, Functor.map, Except.map]
    | some total =>
      simp [settle, hs, hu, h.series, hp, accumulate, htotal, hcur, pure, Except.pure,
        bind, Except.bind, Functor.map, Except.map, (hcompat total htotal).merge_eq]
  refine ⟨_, hsettle, ?_, by simp, fun p a => ?_⟩
  · rintro _ ⟨rfl⟩
    exact mirrors_kept h rfl rfl rfl rfl fun _ => hmem.symm
  · rw [expected_eq hc hx hk, ← ht]
    rw [memory, if_neg (by simp [hp])] at hmem
    simp [exported?, exportFor, hcum, hp, hs, hmem]

private theorem ends_change (hc : Consistent (past.flatten ++ batch))
    (h : Mirrors select c past batch k e) (hs : e.isStateful = true)
    (hp : k.descriptor.kind.isPrecomputedSum = true) {m : Aggregator}
    (hm : merged k batch = some m) :
    ∃ kept, settle c e = .ok kept ∧ Ends select c past batch k kept := by
  obtain ⟨x, hx, hk, ht, hn⟩ := h.kind
  obtain ⟨hu, hcur⟩ := h.current m hm
  obtain ⟨hdelta, hsum⟩ : e.temporality = .delta ∧ x.aggregator.kind = .sum := by
    rcases needsMemory_iff.mp (hn.symm.trans hs) with ⟨hp', -⟩ | ⟨-, hdelta, hsum⟩
    · exact absurd (hp'.symm.trans hp) Bool.false_ne_true
    · exact ⟨hdelta, hsum⟩
  have htot : e.total = (history past k).getLast? := by
    rw [h.total hs, memory, if_pos hp]
  have hmem : memory (past ++ [batch]) k = some m := by
    rw [memory, if_pos hp, history_snoc, hm]
    simp
  have hsumOf : ∀ {a : Aggregator} {y : Accumulation}, y ∈ past.flatten ++ batch →
      y.series = k → a.shape = y.aggregator.shape → a.kind = .sum := by
    intro a y hy hyk hys
    rw [Aggregator.kind_eq_shape, hys, ← Aggregator.kind_eq_shape, ← hsum]
    exact (hc y hy x hx (hyk.trans hk.symm)).kind_eq
  have hkind : m.kind = .sum := by
    obtain ⟨y, hy, hyk, hys⟩ := merged_shape hm
    exact hsumOf (by simp [hy]) hyk hys
  have hlast : ∀ last, e.total = some last → last.kind = .sum := by
    intro last hlast
    rw [htot] at hlast
    obtain ⟨y, hy, hyk, hys⟩ := mem_history_shape (List.mem_of_getLast? hlast)
    exact hsumOf (by simp [hy]) hyk hys
  have hsettle : settle c e = .ok (some { e with
      isFresh := false
      delta := some (e.total.elim m fun last => m.less k.descriptor last)
      total := some m }) := by
    cases htotal : e.total with
    | none =>
      simp [settle, hs, hu, h.series, hp, precomputedDelta, htotal, hcur, pure, Except.pure,
        bind, Except.bind, Functor.map, Except.map]
    | some last =>
      simp [settle, hs, hu, h.series, hp, precomputedDelta, htotal, hcur, pure, Except.pure,
        bind, Except.bind, Functor.map, Except.map,
        Aggregator.subtract_eq hkind (hlast last htotal)]
  refine ⟨_, hsettle, ?_, by simp, fun p a => ?_⟩
  · rintro _ ⟨rfl⟩
    exact mirrors_kept h rfl rfl rfl rfl fun _ => hmem.symm
  · rw [expected_eq hc hx hk, ← ht]
    simp [exported?, exportFor, hdelta, hp, hsum, hs, hu, hm, htot]

theorem Mirrors.finish (hc : Consistent (past.flatten ++ batch))
    (h : Mirrors select c past batch k e) :
    ∃ kept, settle c e = .ok kept ∧ Ends select c past batch k kept := by
  cases hs : e.isStateful with
  | false => exact ends_stateless hc h hs
  | true =>
    cases hm : merged k batch with
    | none => exact ends_stale hc h hs hm
    | some m =>
      cases hp : k.descriptor.kind.isPrecomputedSum with
      | false => exact ends_total hc h hs hp hm
      | true => exact ends_change hc h hs hp hm

/-- A collection whose batch is consistent with the earlier ones finishes: its records are
those expected, and the entries mirror the batches with its own. -/
theorem Follows.finish {p : Processor} (h : Follows select past batch p)
    (hp : p.isCollecting = true) (hc : Consistent (past.flatten ++ batch)) (now : Time) :
    ∃ entries records,
      p.finishCollection now =
        ({ p with entries, finished := p.finished + 1, intervalStart := now },
          .ok ⟨records, p.intervalStart, now⟩) ∧
      Follows select (past ++ [batch]) []
        { p with entries, finished := p.finished + 1, intervalStart := now } ∧
      (records.map (·.series)).Nodup ∧
      ∀ k a, (∃ r ∈ records, r.series = k ∧ r.aggregator = a) ↔
        expected select past batch k = some a := by
  have hends : ∀ k e, lookup k p.entries = some e →
      settle p.finished e = .ok (settled p.finished e) ∧
        Ends select p.finished past batch k (settled p.finished e) := by
    intro k e he
    obtain ⟨kept, hs, hk⟩ := (h.present k e he).finish hc
    have : settled p.finished e = kept := by rw [settled, hs]
    rw [this]
    exact ⟨hs, hk⟩
  have hall : ∀ e ∈ p.entries, settle p.finished e = .ok (settled p.finished e) :=
    fun e he => (hends _ e (lookup_of_mem h.distinct he)).1
  have hseries : ∀ e e', settled p.finished e = some e' → e'.series = e.series :=
    fun e e' => settled_series
  have hlook := lookup_filterMap (f := settled p.finished) hseries h.distinct
  have hnodup := h.distinct.sublist (filterMap_series_sublist hseries p.entries)
  refine ⟨_, _, finishCollection_eq hp hall now, ⟨hnodup, fun k e he => ?_, fun k hk => ?_⟩,
    records_series_nodup _ _ hnodup, fun k a => ?_⟩
  · rw [hlook] at he
    obtain ⟨e', he', hk⟩ := Option.bind_eq_some_iff.mp he
    exact (hends k e' he').2.present e hk
  · rw [hlook] at hk
    cases hold : lookup k p.entries with
    | none => exact ((h.absent k hold).finish hc).1
    | some e =>
      rw [hold, Option.bind_some] at hk
      exact (hends k e hold).2.absent hk
  · rw [exists_record_iff hnodup, hlook]
    cases hold : lookup k p.entries with
    | none => simp [((h.absent k hold).finish hc).2]
    | some e => exact (hends k e hold).2.exports _ a

theorem Follows.collection {p : Processor} (h : Follows select past [] p)
    (hidle : p.started = p.finished) (hc : Consistent (past.flatten ++ batch)) (now : Time) :
    ∃ entries records,
      (Processor.offerAll select batch p.startCollection).finishCollection now =
        ({ p with
            entries, started := p.started + 1, finished := p.finished + 1, intervalStart := now },
          .ok ⟨records, p.intervalStart, now⟩) ∧
      (∀ reply ∈ (run select (batch.map .process) p.startCollection).2,
        reply = .processed (.ok ())) ∧
      Follows select (past ++ [batch]) [] { p with
        entries, started := p.started + 1, finished := p.finished + 1, intervalStart := now } ∧
      (records.map (·.series)).Nodup ∧
      ∀ k a, (∃ r ∈ records, r.series = k ∧ r.aggregator = a) ↔
        expected select past batch k = some a := by
  have hstart : p.startCollection.isCollecting = true := by
    simp [startCollection, isCollecting, hidle]
  have hf : Follows select past [] p.startCollection := ⟨h.distinct, h.present, h.absent⟩
  obtain ⟨entries, ho, hr, hf'⟩ := hf.offerAll hstart (by simpa using hc)
  obtain ⟨entries', records, hfin, hf'', hnodup, hexp⟩ := hf'.finish hstart hc now
  refine ⟨entries', records, ?_, hr, ⟨hf''.distinct, hf''.present, hf''.absent⟩, hnodup, hexp⟩
  rw [ho, hfin]
  rfl

/-- Between the collections of a run of completed ones the entries mirror the batches. -/
theorem follows_run (select : TemporalitySelector) (created : Time) (past : List Collection)
    (hc : Consistent (past.flatMap (·.batch))) :
    let p := (run select (past.flatMap Collection.calls) (new created)).1
    Follows select (past.map (·.batch)) [] p ∧ p.started = p.finished := by
  induction past using List.reverseRecOn with
  | nil => exact ⟨follows_new select created, rfl⟩
  | append_singleton past c ih =>
    obtain ⟨hf, hidle⟩ := ih (hc.mono (by simp))
    obtain ⟨entries, records, hfin, -, hfol, -⟩ :=
      hf.collection hidle (show Consistent ((past.map (·.batch)).flatten ++ c.batch) by
        simpa [List.flatMap_def] using hc) c.now
    have hrun : (run select ((past ++ [c]).flatMap Collection.calls) (new created)).1 =
        ((Processor.offerAll select c.batch
          (run select (past.flatMap Collection.calls)
            (new created)).1.startCollection).finishCollection c.now).1 := by
      simp only [List.flatMap_append, List.flatMap_singleton, Collection.calls, run_append_fst,
        List.cons_append, run_cons, call, ← run_process_fst, run_nil]
    rw [hrun, hfin]
    exact ⟨by simpa using hfol, by simp [hidle]⟩

/-- Every collection of a run of completed ones processes all its accumulations and finishes, and
its records are those expected of its batch and the earlier ones, one for each series. -/
theorem collection_exports_expected (select : TemporalitySelector) (created now : Time)
    (past : List Collection) (batch : List Accumulation)
    (hc : Consistent (past.flatMap (·.batch) ++ batch)) :
    let p := (run select (past.flatMap Collection.calls) (new created)).1
    let q := (run select (batch.map .process) p.startCollection).1
    (∀ reply ∈ (run select (batch.map .process) p.startCollection).2,
      reply = .processed (.ok ())) ∧
    ∃ set, (q.finishCollection now).2 = .ok set ∧ (set.records.map (·.series)).Nodup ∧
      ∀ k a, (∃ r ∈ set.records, r.series = k ∧ r.aggregator = a) ↔
        expected select (past.map (·.batch)) batch k = some a := by
  intro p q
  obtain ⟨hf, hidle⟩ := follows_run select created past (hc.mono (by simp))
  obtain ⟨entries, records, hfin, hr, -, hnodup, hexp⟩ :=
    hf.collection hidle (show Consistent ((past.map (·.batch)).flatten ++ batch) by
      simpa [List.flatMap_def] using hc) now
  refine ⟨hr, ⟨records, p.intervalStart, now⟩, ?_, hnodup, hexp⟩
  rw [show q = _ from run_process_fst batch _, hfin]

/-- Where changes are exported of a sum that is reported as a total, it is exported too. -/
theorem precomputed_sum_exported_under_delta :
    let bytesRead : SeriesId :=
      ⟨{ name := "bytes.read", kind := .counterObserver, numberKind := .u64 }, .empty, .empty⟩
    let select := Temporality.constant .delta
    let batch : List Accumulation := [⟨bytesRead, .sum ⟨10⟩⟩]
    let q := (run select (batch.map .process) (new 0).startCollection).1
    bytesRead.descriptor.kind.isPrecomputedSum = true ∧
      select bytesRead.descriptor .sum = .delta ∧
      ∃ set, (q.finishCollection 1).2 = .ok set ∧
        ∃ r ∈ set.records, r.series = bytesRead ∧ r.aggregator = .sum ⟨10⟩ := by
  intro bytesRead select batch q
  have hc : Consistent ([].flatten ++ batch) := by
    intro x hx y hy _
    obtain rfl : x = ⟨bytesRead, .sum ⟨10⟩⟩ := by simpa [batch] using hx
    obtain rfl : y = ⟨bytesRead, .sum ⟨10⟩⟩ := by simpa [batch] using hy
    rfl
  obtain ⟨entries, records, hfin, -, -, -, hexp⟩ :=
    (follows_new select 0).collection rfl hc 1
  refine ⟨rfl, rfl, ⟨records, 0, 1⟩, ?_, (hexp _ _).mpr ?_⟩
  · rw [show q = _ from run_process_fst batch _, hfin]
    rfl
  · simp [expected, exportFor, history, merged, dataOf, batch, select, Aggregator.mergeAll,
      Temporality.constant]
    rfl

/-- Three requests are counted in the first collection, and two and one more in the second. -/
theorem collection_exports_expected_requests :
    let k : SeriesId :=
      ⟨{ name := "requests", kind := .counter, numberKind := .u64 }, .empty, .empty⟩
    let select := Temporality.constant .cumulative
    let past : List Collection := [⟨[⟨k, .sum ⟨3⟩⟩], 1⟩]
    let batch : List Accumulation := [⟨k, .sum ⟨2⟩⟩, ⟨k, .sum ⟨1⟩⟩]
    let p := (run select (past.flatMap Collection.calls) (new 0)).1
    let q := (run select (batch.map .process) p.startCollection).1
    Consistent (past.flatMap (·.batch) ++ batch) ∧
      ∃ set, (q.finishCollection 2).2 = .ok set ∧
        ∃ r ∈ set.records, r.series = k ∧ r.aggregator = .sum ⟨6⟩ := by
  intro k select past batch p q
  have hc : Consistent (past.flatMap (·.batch) ++ batch) := by
    intro x hx y hy _
    simp only [past, batch, List.flatMap_cons, List.flatMap_nil, List.append_nil,
      List.cons_append, List.nil_append, List.mem_cons, List.not_mem_nil, or_false] at hx hy
    rcases hx with rfl | rfl | rfl <;> rcases hy with rfl | rfl | rfl <;> rfl
  obtain ⟨-, set, hset, -, hexp⟩ := collection_exports_expected select 0 2 past batch hc
  refine ⟨hc, set, hset, (hexp k (.sum ⟨6⟩)).mpr ?_⟩
  simp [expected, exportFor, history, merged, dataOf, batch, past, select, Aggregator.mergeAll,
    Temporality.constant]
  rfl

end Metering.Processor
