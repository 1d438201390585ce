import Metering.Proofs.Controller.Lockstep
import Metering.Proofs.Processor.Temporality

/-!
# Delta and cumulative exports agree

Two controllers that differ in the temporality alone hand the same batches to their processors, so
what the one exports of a series can be told from the exports of the other.
-/

namespace Metering

/-- What a checkpoint set says of a series. -/
def CheckpointSet.value? (set : CheckpointSet) (k : SeriesId) : Option Aggregator :=
  (set.records.find? (·.series = k)).map (·.aggregator)

/-- The sum that a checkpoint set says of a series of a kind of integers. -/
def CheckpointSet.sum? (set : CheckpointSet) (k : SeriesId) : Option Int :=
  (set.value? k).bind (Aggregator.integerSum? k.descriptor.numberKind)

namespace Accumulator

variable {choose : Descriptor → Option Aggregator} {ds : List Deed} {a : Accumulator}

theorem takenKeys_append (ds ds' : List Deed) :
    takenKeys choose (ds ++ ds') = takenKeys choose ds ++ takenKeys choose ds' :=
  List.filterMap_append

theorem takenKeys_processed (accs : List Accumulation) :
    takenKeys choose (accs.map .processed) = [] := by
  induction accs with
  | nil => rfl
  | cons acc accs ih => exact ih

theorem mem_takenKeys {k : SeriesKey} : k ∈ takenKeys choose ds ↔ given choose k ds ≠ [] := by
  rw [takenKeys, List.mem_filterMap, given, Ne, List.filterMap_eq_nil_iff]
  push Not
  refine exists_congr fun deed => and_congr_right fun _ => ?_
  rw [given?]
  cases taken choose deed <;> simp

/-- What is handed over in a period, under reduced labels. -/
def batchOf (r : Relabelling) (period : List Deed) : List Accumulation :=
  (handed period).map (Accumulation.relabel r)

/-- The sum of what is handed over in a period for a series, under reduced labels. -/
def handedSum? (r : Relabelling) (k : SeriesId) (period : List Deed) : Option Int :=
  (merged k (batchOf r period)).bind (Aggregator.integerSum? k.descriptor.numberKind)

theorem batchOf_swept (r : Relabelling) (hds : handed ds = []) (accs : List Accumulation) :
    batchOf r (ds ++ accs.map .processed) = accs.map (Accumulation.relabel r) := by
  rw [batchOf, handed_append, hds, List.nil_append, handed_processed]

/-- A sweep hands something over for a series exactly if a measurement was taken in under labels
that are reduced to those of the series. -/
theorem Upkept.found (h : Upkept choose ds a) (hds : handed ds = []) (r : Relabelling)
    (k : SeriesId) :
    let period := ds ++ a.contents.map .processed
    (merged k (batchOf r period)).isSome ↔
      k.resource = a.resource ∧ k.key ∈ (takenKeys choose period).map r.key := by
  intro period
  rw [batchOf_swept r hds, takenKeys_append, takenKeys_processed, List.append_nil,
    ← Option.ne_none_iff_isSome, Ne, merged_eq_none, List.mem_map]
  push Not
  constructor
  · rintro ⟨_, hmem, rfl⟩
    obtain ⟨acc, hacc, rfl⟩ := List.mem_map.mp hmem
    exact ⟨((mem_contents h.distinct).mp hacc).1, acc.series.key,
      mem_takenKeys.mpr (h.exists_contents.mp ⟨acc, hacc, rfl⟩), rfl⟩
  · rintro ⟨hresource, key, hkey, hreduced⟩
    obtain ⟨acc, hacc, rfl⟩ := h.exists_contents.mpr (mem_takenKeys.mp hkey)
    refine ⟨acc.relabel r, List.mem_map_of_mem hacc, ?_⟩
    obtain ⟨d, labels, resource⟩ := k
    obtain ⟨rfl, rfl⟩ := Prod.mk.inj hreduced
    obtain rfl : resource = acc.series.resource :=
      hresource.trans ((mem_contents h.distinct).mp hacc).1.symm
    rfl

end Accumulator

namespace Controller

open Accumulator (Coincide Deed Made batchOf handed handedSum? takenKeys)

/-- The sets that the successful collections of a script return. -/
def exports (script : List Action) (c : Controller) : List CheckpointSet :=
  (collections script c).filterMap Except.toOption

variable {choose : Descriptor → Option Aggregator} {resource : Resource}
  {select select' : TemporalitySelector} {r : Relabelling} {ds : List Deed}
  {past : List (List Accumulation)} {c c' : Controller}

theorem Reflects.value {f : SeriesId → Option Aggregator} {set : CheckpointSet}
    (h : Reflects f set) (k : SeriesId) : set.value? k = f k := by
  rw [CheckpointSet.value?]
  cases hr : set.records.find? (·.series = k) with
  | none =>
    cases hf : f k with
    | none => rfl
    | some a =>
      obtain ⟨record, hmem, hk, -⟩ := (h.iff k a).mpr hf
      exact absurd hk (by simpa using List.find?_eq_none.mp hr record hmem)
  | some record =>
    exact ((h.iff k record.aggregator).mp
      ⟨record, List.mem_of_find?_eq_some hr, by simpa using List.find?_some hr, rfl⟩).symm

/-- What the sets of a run say, given what was done in its periods. -/
structure Accounts (choose : Descriptor → Option Aggregator) (resource : Resource)
    (select : TemporalitySelector) (r : Relabelling) (past : List (List Accumulation))
    (measured : List (List Deed)) (sets : List CheckpointSet) : Prop where
  length : sets.length = measured.length
  values : ∀ k, sets.map (·.value? k) =
    Processor.expectedAll select past (measured.map (batchOf r)) k
  made : ∀ period ∈ measured, ∀ acc ∈ batchOf r period, Made choose acc
  found : ∀ period ∈ measured, ∀ k, (merged k (batchOf r period)).isSome ↔
    k.resource = resource ∧ k.key ∈ (takenKeys choose period).map r.key

theorem Accounts.cons {period : List Deed} {measured : List (List Deed)} {set : CheckpointSet}
    {sets : List CheckpointSet}
    (hset : Reflects (Processor.expected select past (batchOf r period)) set)
    (hmade : ∀ acc ∈ batchOf r period, Made choose acc)
    (hfound : ∀ k, (merged k (batchOf r period)).isSome ↔
      k.resource = resource ∧ k.key ∈ (takenKeys choose period).map r.key)
    (h : Accounts choose resource select r (past ++ [batchOf r period]) measured sets) :
    Accounts choose resource select r past (period :: measured) (set :: sets) where
  length := congrArg (· + 1) h.length
  values k := by rw [List.map_cons, hset.value, h.values]; rfl
  made := List.forall_mem_cons.mpr ⟨hmade, h.made⟩
  found := List.forall_mem_cons.mpr ⟨hfound, h.found⟩

section
variable (hnew : ∀ d g, choose d = some g → Aggregator.IsNew d g)
include hnew

theorem Alongside.collect_coincide
    (h : Alongside choose (Coincide choose resource) select select' r ds past past c c')
    (hds : handed ds = []) (cx : Context) :
    let period := ds ++ deeds (.collect cx) c
    deeds (.collect cx) c' = deeds (.collect cx) c ∧
      ((c.collect cx).2 = .error (.error .cancelled) ∧
          (c'.collect cx).2 = .error (.error .cancelled) ∧ handed period = [] ∧
          Alongside choose (Coincide choose resource) select select' r period past past
            (c.collect cx).1 (c'.collect cx).1 ∨
        ∃ set set', (c.collect cx).2 = .ok set ∧ (c'.collect cx).2 = .ok set' ∧
          Reflects (Processor.expected select past (batchOf r period)) set ∧
          Reflects (Processor.expected select' past (batchOf r period)) set' ∧
          (∀ acc ∈ batchOf r period, Made choose acc) ∧
          (∀ k, (merged k (batchOf r period)).isSome ↔
            k.resource = resource ∧ k.key ∈ (takenKeys choose period).map r.key) ∧
          Alongside choose (Coincide choose resource) select select' r []
            (past ++ [batchOf r period]) (past ++ [batchOf r period]) (c.collect cx).1
            (c'.collect cx).1) := by
  intro period
  have hR : Accumulator.Synchronized choose Eq (Coincide choose resource) :=
    Accumulator.synchronized_coincide hnew
  have hperiod : handed period = handed (deeds (.collect cx) c) := by
    rw [Accumulator.handed_append, hds, List.nil_append]
  by_cases hgo : ∃ errors,
      Accumulator.Proceeds (c.limited cx c.collectTimeout) c.accumulator.tick errors
  · obtain ⟨errors, hp⟩ := hgo
    have hcalled := h.called hR (c.limited cx c.collectTimeout)
    have hdeeds := h.deeds_of_proceeds hR hnew rfl hp
    have hsame : deeds (.collect cx) c' = deeds (.collect cx) c := by
      rw [hdeeds, h.deeds_of_proceeds' hR hnew rfl hp, hR.contents hcalled]
    obtain ⟨-, set, set', hc, hc', hset, hset', hnext⟩ := h.collect_of_proceeds hR hnew rfl hp
    rw [hsame, ← hperiod] at hset' hnext
    rw [← hperiod] at hset
    refine ⟨hsame, .inr ⟨set, set', hc, hc', hset, hset', ?_, fun k => ?_, hnext⟩⟩
    · exact fun acc hacc => hnext.tracks.made acc
        (List.mem_flatten.mpr ⟨_, List.mem_append_right _ (List.mem_singleton_self _), hacc⟩)
    · rw [← hcalled.resource, show period = _ from congrArg (ds ++ ·) hdeeds, ← List.append_assoc]
      refine hcalled.upkept.found ?_ r k
      rw [Accumulator.handed_append, hds, Accumulator.handed_calledAll, List.nil_append]
  · obtain ⟨hc, hc', hnone, hsame, hnext⟩ :=
      h.collect_of_not_proceeds hR rfl (not_exists.mp hgo)
    exact ⟨hsame, .inl ⟨hc, hc', hperiod.trans hnone, hnext⟩⟩

/-- Controllers with the same series collect alike through a whole script, and the sets of both
account for the same periods. -/
theorem Alongside.run_coincide
    (h : Alongside choose (Coincide choose resource) select select' r ds past past c c')
    (hds : handed ds = []) (script : List Action) :
    (collections script c').map Except.isOk = (collections script c).map Except.isOk ∧
      periods script ds c' = periods script ds c ∧
      Accounts choose resource select r past (periods script ds c) (exports script c) ∧
      Accounts choose resource select' r past (periods script ds c) (exports script c') := by
  induction script generalizing ds past c c' with
  | nil => exact ⟨rfl, rfl, ⟨rfl, fun _ => rfl, by simp [periods], by simp [periods]⟩,
      ⟨rfl, fun _ => rfl, by simp [periods], by simp [periods]⟩⟩
  | cons action script ih =>
    by_cases hcollect : ∃ cx, action = .collect cx
    · obtain ⟨cx, rfl⟩ := hcollect
      obtain ⟨hsame, hcase⟩ := h.collect_coincide hnew hds cx
      rcases hcase with ⟨hc, hc', hnone, hnext⟩ | ⟨set, set', hc, hc', hset, hset', hmade, hfound,
        hnext⟩
      -- A cancelled collection ends no period: what was done so far carries over to the next one.
      · obtain ⟨halike, hperiods, hleft, hright⟩ := ih hnext hnone
        simp only [collections, periods, exports, hc, hc', hsame, List.map_cons,
          List.filterMap_cons, Except.toOption]
        exact ⟨congrArg _ halike, hperiods, hleft, hright⟩
      · obtain ⟨halike, hperiods, hleft, hright⟩ := ih hnext rfl
        simp only [collections, periods, exports, hc, hc', hsame, List.map_cons,
          List.filterMap_cons, Except.toOption]
        exact ⟨congrArg _ halike, congrArg _ hperiods, .cons hset hmade hfound hleft,
          .cons hset' hmade hfound hright⟩
    · have hnext := h.act (Accumulator.synchronized_coincide hnew) (not_exists.mp hcollect)
      cases action with
      | collect cx => exact absurd ⟨cx, rfl⟩ hcollect
      | record m =>
        refine ih hnext ?_
        rw [Accumulator.handed_append, hds]
        exact Accumulator.handed_recorded [m]
      | register | await =>
        refine ih hnext ?_
        rw [deeds, List.append_nil, hds]

end

/-! ## The exports of both -/

section
variable {measured : List (List Deed)} {sets deltas totals : List CheckpointSet} {n : Nat}
  {period : List Deed} {set delta total : CheckpointSet} {k : SeriesId}

theorem take_succ_of_getElem? {α : Type} {xs : List α} {x : α} (h : xs[n]? = some x) :
    xs.take (n + 1) = xs.take n ++ [x] := by
  rw [List.take_add_one, h, Option.toList_some]

theorem Accounts.take (h : Accounts choose resource select r [] measured sets) (k : SeriesId)
    (n : Nat) : (sets.take n).map (·.value? k) =
      Processor.expectedAll select [] ((measured.take n).map (batchOf r)) k := by
  rw [List.map_take, h.values, Processor.take_expectedAll, List.map_take]

theorem Accounts.value (h : Accounts choose resource select r [] measured sets)
    (hperiod : measured[n]? = some period) (hset : sets[n]? = some set) (k : SeriesId) :
    set.value? k =
      Processor.expected select ((measured.take n).map (batchOf r)) (batchOf r period) k := by
  have hall := h.take k (n + 1)
  rw [take_succ_of_getElem? hset, take_succ_of_getElem? hperiod, List.map_append, List.map_append,
    List.map_singleton, List.map_singleton, h.take, Processor.expectedAll_snoc,
    List.append_cancel_left_eq] at hall
  simpa using hall

theorem map_batchOf_take_succ (hperiod : measured[n]? = some period) :
    (measured.take (n + 1)).map (batchOf r) =
      (measured.take n).map (batchOf r) ++ [batchOf r period] := by
  rw [take_succ_of_getElem? hperiod, List.map_append, List.map_singleton]

theorem Accounts.made_take (h : Accounts choose resource select r [] measured sets) (n : Nat) :
    ∀ acc ∈ ((measured.take n).map (batchOf r)).flatten, Made choose acc := by
  intro acc hacc
  obtain ⟨_, hbatch, hacc⟩ := List.mem_flatten.mp hacc
  obtain ⟨period, hmem, rfl⟩ := List.mem_map.mp hbatch
  exact h.made period (List.mem_of_mem_take hmem) acc hacc

theorem Accounts.compatible (h : Accounts choose resource select r [] measured sets) (n : Nat) :
    ∀ x ∈ history ((measured.take n).map (batchOf r)) k,
      ∀ y ∈ history ((measured.take n).map (batchOf r)) k, x.Compatible y := by
  intro x hx y hy
  obtain ⟨u, hu, huk, hus⟩ := mem_history_shape hx
  obtain ⟨v, hv, hvk, hvs⟩ := mem_history_shape hy
  exact (Accumulator.consistent_of_made (h.made_take n) u hu v hv (huk.trans hvk.symm)).congr
    hus hvs

theorem Accounts.kind_eq_sum (h : Accounts choose resource select r [] measured sets) (n : Nat)
    (hsum : choose k.descriptor = some .newSum) :
    ∀ m ∈ history ((measured.take n).map (batchOf r)) k, m.kind = .sum := by
  intro m hm
  obtain ⟨acc, hacc, rfl, hshape⟩ := mem_history_shape hm
  obtain ⟨g, hg, -, hcleared⟩ := h.made_take n acc hacc
  obtain rfl : .newSum = g := Option.some.inj (hsum.symm.trans hg)
  rw [Aggregator.kind_eq_shape, hshape, ← Aggregator.shape_cleared _ acc.series.descriptor,
    hcleared]
  rfl

theorem Accounts.filterMap_deltas
    (hd : Accounts choose resource (Temporality.constant .delta) r [] measured deltas)
    (hp : k.descriptor.kind.isPrecomputedSum = false) (n : Nat) :
    (deltas.take n).filterMap (·.value? k) = history ((measured.take n).map (batchOf r)) k := by
  rw [← Processor.expectedAll_delta [] hp, ← hd.take, List.filterMap_map]
  rfl

variable (hd : Accounts choose resource (Temporality.constant .delta) r [] measured deltas)
  (ht : Accounts choose resource (Temporality.constant .cumulative) r [] measured totals)
  (hperiod : measured[n]? = some period) (hdelta : deltas[n]? = some delta)
  (htotal : totals[n]? = some total)

section
variable (hp : k.descriptor.kind.isPrecomputedSum = false)
include hd ht hperiod htotal hp

theorem Accounts.total_eq_mergeAll : total.value? k =
    Aggregator.mergeAll k.descriptor ((deltas.take (n + 1)).filterMap (·.value? k)) := by
  rw [ht.value hperiod htotal, Processor.expected_cumulative hp, hd.filterMap_deltas hp,
    map_batchOf_take_succ hperiod]

/-- A total is the merge of all changes so far. -/
theorem Accounts.mergeEach_deltas :
    Aggregator.mergeEach k.descriptor ((deltas.take (n + 1)).filterMap (·.value? k)) =
      .ok (total.value? k) := by
  rw [hd.total_eq_mergeAll ht hperiod htotal hp]
  refine Aggregator.mergeEach_eq ?_
  rw [hd.filterMap_deltas hp]
  exact hd.compatible (n + 1)

theorem Accounts.isSome_total_iff : (total.value? k).isSome ↔
    ∃ earlier ∈ deltas.take (n + 1), (earlier.value? k).isSome := by
  rw [hd.total_eq_mergeAll ht hperiod htotal hp, ← Option.ne_none_iff_isSome, Ne,
    Aggregator.mergeAll_eq_none, List.filterMap_eq_nil_iff]
  push Not
  simp only [Option.ne_none_iff_isSome]

end

section
variable (hp : k.descriptor.kind.isPrecomputedSum = true)
  (hsum : choose k.descriptor = some .newSum)
include hperiod hp

include ht htotal in
theorem Accounts.total_eq_merged : total.value? k = merged k (batchOf r period) := by
  rw [ht.value hperiod htotal, Processor.expected_cumulative_precomputed hp]

include hd hdelta hsum in
theorem Accounts.isSome_delta_iff :
    (delta.value? k).isSome ↔ (merged k (batchOf r period)).isSome := by
  rw [hd.value hperiod hdelta, Processor.expected_delta_precomputed hp, Option.isSome_map]
  rw [← map_batchOf_take_succ hperiod]
  exact hd.kind_eq_sum (n + 1) hsum

include hd ht htotal hsum in
/-- The changes of a precomputed sum add up to the total. -/
theorem Accounts.sum_deltas (hk : k.descriptor.numberKind.IsInteger)
    (hsteps : Processor.StepsInRange k.descriptor.numberKind
      ((measured.take (n + 1)).filterMap (handedSum? r k))) {v : Int} (hv : total.sum? k = some v) :
    ((deltas.take (n + 1)).filterMap (·.sum? k)).sum = v := by
  have hhanded : (measured.take (n + 1)).filterMap (handedSum? r k) =
      (history ((measured.take (n + 1)).map (batchOf r)) k).filterMap
        (Aggregator.integerSum? k.descriptor.numberKind) := by
    rw [history, List.filterMap_map, List.filterMap_filterMap]
    rfl
  have hdeltas : (deltas.take (n + 1)).filterMap (·.sum? k) =
      (Processor.expectedAll (Temporality.constant .delta) []
        ((measured.take (n + 1)).map (batchOf r)) k).filterMap fun a? =>
          a?.bind (Aggregator.integerSum? k.descriptor.numberKind) := by
    rw [← hd.take, List.filterMap_map]
    rfl
  have hlast : handedSum? r k period = some v := by
    rw [← hv, CheckpointSet.sum?, ht.total_eq_merged hperiod htotal hp]
    rfl
  rw [hhanded] at hsteps
  rw [hdeltas, Processor.sum_expectedAll_delta hp hk (hd.kind_eq_sum (n + 1) hsum) hsteps,
    ← hhanded, take_succ_of_getElem? hperiod, List.filterMap_append,
    List.filterMap_cons_some hlast, List.filterMap_nil, List.getLast?_concat, Option.getD_some]

end
end

/-- Whatever is recorded, observed and collected, a controller that exports changes and one that
exports totals collect alike. A total is the merge of all changes exported so far. A precomputed
sum is exported by both if and only if it was measured, and as long as its changes are in range,
they add up to its total. -/
theorem delta_and_cumulative_agree (o : Options) (env : Environment)
    (choose : Descriptor → Option Aggregator)
    (keeps : List (Descriptor → Option (KeyValue → Bool))) (now : Time)
    (hnew : ∀ d g, choose d = some g → Aggregator.IsNew d g) (script : List Action) :
    let exporting (t : Temporality) : Controller :=
      build o env (.ofFunction choose) (Temporality.constant t) (keeps.map .ofPredicates) now
    let r := Relabelling.ofAll keeps
    let measured := periods script [] (exporting .delta)
    let deltas := exports script (exporting .delta)
    let totals := exports script (exporting .cumulative)
    (collections script (exporting .cumulative)).map Except.isOk =
        (collections script (exporting .delta)).map Except.isOk ∧
      periods script [] (exporting .cumulative) = measured ∧
      deltas.length = measured.length ∧ totals.length = measured.length ∧
      ∀ n period delta total, measured[n]? = some period → deltas[n]? = some delta →
        totals[n]? = some total → ∀ k : SeriesId,
          (k.descriptor.kind.isPrecomputedSum = false →
            ((total.value? k).isSome ↔
              ∃ earlier ∈ deltas.take (n + 1), (earlier.value? k).isSome) ∧
            Aggregator.mergeEach k.descriptor ((deltas.take (n + 1)).filterMap (·.value? k)) =
              .ok (total.value? k)) ∧
          (k.descriptor.kind.isPrecomputedSum = true → choose k.descriptor = some .newSum →
            let isMeasured := k.resource = (exporting .delta).resource ∧
              k.key ∈ (takenKeys choose period).map r.key
            ((delta.value? k).isSome ↔ isMeasured) ∧ ((total.value? k).isSome ↔ isMeasured) ∧
              total.sum? k = handedSum? r k period ∧
              (k.descriptor.numberKind.IsInteger →
                Processor.StepsInRange k.descriptor.numberKind
                  ((measured.take (n + 1)).filterMap (handedSum? r k)) →
                ∀ v, total.sum? k = some v →
                  ((deltas.take (n + 1)).filterMap (·.sum? k)).sum = v)) := by
  intro exporting r measured deltas totals
  have htracks (t : Temporality) :
      Tracks choose (Temporality.constant t) r [] (exporting t).checkpointer :=
    ⟨rfl, reduces_ofAll keeps, rfl, rfl, Processor.follows_new _ now, by simp⟩
  have hcoincide : Coincide choose (exporting .delta).resource [] (exporting .delta).accumulator
      (exporting .cumulative).accumulator := by
    obtain ⟨events, ha⟩ := build_accumulator o env (.ofFunction choose)
      (Temporality.constant .delta) (keeps.map .ofPredicates) now
    obtain ⟨events', ha'⟩ := build_accumulator o env (.ofFunction choose)
      (Temporality.constant .cumulative) (keeps.map .ofPredicates) now
    simp only [exporting, ha, ha']
    have hupkept : Accumulator.Upkept choose [] _ := Accumulator.upkept_new
      (o.resource.getD (.ofEnvironment env)) (o.idleCycles.getD 1) (now + 1)
    exact ⟨hupkept.same ⟨rfl, rfl, rfl, rfl, rfl⟩ rfl, rfl, ⟨rfl, rfl, rfl, rfl, rfl⟩, rfl,
      ⟨rfl, rfl, rfl, rfl⟩⟩
  have halongside : Alongside choose (Coincide choose (exporting .delta).resource)
      (Temporality.constant .delta) (Temporality.constant .cumulative) r [] [] []
      (exporting .delta) (exporting .cumulative) :=
    ⟨hcoincide, rfl, htracks .delta, htracks .cumulative⟩
  obtain ⟨halike, hperiods, hd, ht⟩ := halongside.run_coincide hnew rfl script
  refine ⟨halike, hperiods, hd.length, ht.length, ?_⟩
  intro n period delta total hperiod hdelta htotal k
  refine ⟨fun hp => ?_, fun hp hsum => ?_⟩
  · exact ⟨hd.isSome_total_iff ht hperiod htotal hp, hd.mergeEach_deltas ht hperiod htotal hp⟩
  -- A precomputed total is not a merge of changes: the changes are differences, which telescope.
  · have hfound := hd.found period (List.mem_of_getElem? hperiod) k
    have hmerged := ht.total_eq_merged hperiod htotal hp
    refine ⟨(hd.isSome_delta_iff hperiod hdelta hp hsum).trans hfound, hmerged ▸ hfound, ?_, ?_⟩
    · rw [CheckpointSet.sum?, hmerged]
      rfl
    · exact fun hk hsteps v hv => hd.sum_deltas ht hperiod htotal hp hsum hk hsteps hv

/-- Two requests are counted and then three more, and ten bytes are reported and then thirty: the
total of the requests is the merge of both counts, and the changes of the bytes add up to thirty. -/
theorem delta_and_cumulative_agree_requests :
    let requests : Descriptor := { name := "requests", kind := .counter, numberKind := .u64 }
    let bytes : Descriptor := { name := "bytes", kind := .counterObserver, numberKind := .u64 }
    let choose : Descriptor → Option Aggregator := fun _ => some .newSum
    let o : Options := { resource := some .empty, collectTimeout := some 0 }
    let script : List Action :=
      [.register [bytes] [[.observe bytes ⟨10⟩ .empty], [.observe bytes ⟨30⟩ .empty]],
        .record ⟨requests, ⟨2⟩, .u64, .empty⟩, .collect .unlimited,
        .record ⟨requests, ⟨3⟩, .u64, .empty⟩, .collect .unlimited]
    let exporting (t : Temporality) : Controller :=
      build o {} (.ofFunction choose) (Temporality.constant t) (List.map .ofPredicates []) 0
    let deltas := exports script (exporting .delta)
    let totals := exports script (exporting .cumulative)
    (∀ d g, choose d = some g → Aggregator.IsNew d g) ∧ deltas.length = 2 ∧
      ∃ total, totals[1]? = some total ∧
        Aggregator.mergeEach requests (deltas.filterMap (·.value? ⟨requests, .empty, .empty⟩)) =
          .ok (total.value? ⟨requests, .empty, .empty⟩) ∧
        total.sum? ⟨bytes, .empty, .empty⟩ = some 30 ∧
        (deltas.filterMap (·.sum? ⟨bytes, .empty, .empty⟩)).sum = 30 := by
  intro requests bytes choose o script exporting deltas totals
  have hnew : ∀ d g, choose d = some g → Aggregator.IsNew d g := by
    intro d g hg
    rw [← Option.some.inj hg]
    exact Aggregator.isNew_newSum d
  obtain ⟨-, -, hd, ht, hall⟩ := delta_and_cumulative_agree o {} choose [] 0 hnew script
  have hlength : (periods script [] (exporting .delta)).length = 2 := by decide +kernel
  have hhanded : (periods script [] (exporting .delta)).map
      (handedSum? (.ofAll []) ⟨bytes, .empty, .empty⟩) = [some 10, some 30] := by decide +kernel
  generalize periods script [] (exporting .delta) = measured at hd ht hall hlength hhanded
  have hdeltas : deltas.length = 2 := hd.trans hlength
  have htotals : totals.length = 2 := ht.trans hlength
  have hperiod := List.getElem?_eq_getElem (hlength.ge : 1 < measured.length)
  have hdelta := List.getElem?_eq_getElem (hdeltas.ge : 1 < deltas.length)
  have htotal := List.getElem?_eq_getElem (htotals.ge : 1 < totals.length)
  have hrequests := (hall 1 _ _ _ hperiod hdelta htotal
    ⟨requests, .empty, .empty⟩).1 rfl
  obtain ⟨-, -, hsum, hchanges⟩ := (hall 1 _ _ _ hperiod hdelta htotal
    ⟨bytes, .empty, .empty⟩).2 rfl rfl
  have htakeDeltas : deltas.take (1 + 1) = deltas := List.take_of_length_le hdeltas.le
  have htakeMeasured : measured.take (1 + 1) = measured := List.take_of_length_le hlength.le
  have hlast : totals[1].sum? ⟨bytes, .empty, .empty⟩ = some 30 := by
    have hone := congrArg (·[1]?) hhanded
    simp only [List.getElem?_map, hperiod] at hone
    exact hsum.trans (Option.some.inj hone)
  have hsteps : Processor.StepsInRange .u64 ((measured.take (1 + 1)).filterMap
      (handedSum? (.ofAll []) ⟨bytes, .empty, .empty⟩)) := by
    have hvalues := congrArg (List.filterMap id) hhanded
    rw [List.filterMap_map] at hvalues
    rw [htakeMeasured, show List.filterMap (handedSum? (.ofAll []) ⟨bytes, .empty, .empty⟩)
      measured = [10, 30] from hvalues]
    exact .cons_cons (by decide) (.singleton _)
  refine ⟨hnew, hdeltas, _, htotal, ?_, hlast, ?_⟩
  · rw [← htakeDeltas]
    exact hrequests.2
  · rw [← htakeDeltas]
    exact hchanges (by decide) hsteps 30 hlast

end Controller
end Metering
