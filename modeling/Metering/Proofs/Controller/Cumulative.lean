import Metering.Proofs.Controller.Endings
import Metering.Proofs.Controller.Temporality
import Metering.Proofs.Processor.Cumulative

/-!
# Totals of counters that are exported

Once a controller has exported the total of a counter, each later collection that succeeds exports
it again and not smaller, whatever other collections come in between and however they end.
-/

namespace Metering

/-- Whether a counter that is in a set is in a later set too, with a sum that is not smaller. -/
def CheckpointSet.KeepsUp (k : SeriesId) (s t : CheckpointSet) : Prop :=
  ∀ a, s.value? k = some a → ∃ m n, a = .sum m ∧ t.value? k = some (.sum n) ∧
    k.descriptor.numberKind.toInt m ≤ k.descriptor.numberKind.toInt n

namespace Controller

open Processor (Climbs Settled lookup settled)

variable {select : TemporalitySelector} {k : SeriesId} {floor : Option Int} {p : Processor}
  {now : Time} {set : CheckpointSet}

/-! ## What is exported -/

theorem reflects_of_finish (hn : (p.entries.map (·.series)).Nodup)
    (hset : (p.finishCollection now).2 = .ok set) :
    let q : Processor := { p with
      entries := p.entries.filterMap (settled p.finished), finished := p.finished + 1 }
    Reflects (fun k => ((lookup k q.entries).bind (q.exported? p.finished)).map Prod.fst) set := by
  intro q
  obtain ⟨-, hrecords⟩ := Processor.records_of_finishCollection hset
  have hq : (q.entries.map (·.series)).Nodup := hn.sublist
    (Processor.filterMap_series_sublist (fun e e' => Processor.settled_series) _)
  refine ⟨hrecords ▸ Processor.records_series_nodup p.finished now hq, fun k a => ?_⟩
  rw [hrecords, Processor.exists_record_iff hq]
  simp [Option.bind_eq_some_iff]

section
variable (hkind : k.descriptor.kind = .counter) (hk : k.descriptor.numberKind.IsInteger)
include hkind hk

theorem value?_of_climbs (h : Climbs k floor p) (hset : (p.finishCollection now).2 = .ok set) :
    set.value? k = (lookup k (p.finishCollection now).1.entries).bind (·.total) := by
  have hentry := (h.finish hkind hk now).entry
  obtain ⟨hentries, -⟩ := Processor.records_of_finishCollection hset
  rw [(reflects_of_finish h.distinct hset).value k]
  rw [hentries] at hentry ⊢
  cases he : lookup k (p.entries.filterMap (settled p.finished)) with
  | none => rfl
  | some e =>
    obtain ⟨ht, hs⟩ := hentry e (Processor.lookup_mem he) (Processor.lookup_series he)
    simp only [Option.bind_some, Processor.exported?, ht, hs, Option.map_map]
    cases e.total <;> rfl

/-- A counter that is exported has a total by then, and one that had a total is exported. -/
theorem exports_of_climbs (h : Climbs k floor p) (hset : (p.finishCollection now).2 = .ok set) :
    (∀ a, set.value? k = some a → ∃ n, a = .sum n ∧
      Climbs k (some (k.descriptor.numberKind.toInt n)) (p.finishCollection now).1) ∧
    ∀ m ∈ floor, ∃ n, set.value? k = some (.sum n) ∧ m ≤ k.descriptor.numberKind.toInt n := by
  have hfinish := h.finish hkind hk now
  rw [value?_of_climbs hkind hk h hset]
  refine ⟨fun a ha => ?_, fun m hm => ?_⟩
  · obtain ⟨e, he, htotal⟩ := Option.bind_eq_some_iff.mp ha
    have hs := Processor.lookup_series he
    obtain ⟨n, rfl⟩ := ((hfinish.has e (Processor.lookup_mem he)).total a htotal).2
      (congrArg SeriesId.descriptor hs)
    have hfresh : e.isFresh = false := by
      rw [(Processor.records_of_finishCollection hset).1,
        Processor.lookup_filterMap (fun e e' => Processor.settled_series) h.distinct] at he
      obtain ⟨e₀, -, hsettled⟩ := Option.bind_eq_some_iff.mp he
      exact (Processor.settle_cases (Processor.settle_of_settled hsettled)).setup.2.2.2
    refine ⟨n, rfl, hfinish.distinct, hfinish.has, hfinish.entry, fun m hm => ?_⟩
    obtain rfl := Option.some.inj hm
    exact ⟨e, he, hfresh, n, htotal, le_refl _⟩
  · obtain ⟨e, he, -, n, hn, hle⟩ := hfinish.total m hm
    exact ⟨n, by rw [he, Option.bind_some, hn], hle⟩

end

/-! ## Runs -/

/-- A checkpointer whose processor holds on to the total of a counter. -/
structure Holding (select : TemporalitySelector) (k : SeriesId) (floor : Option Int)
    (p : Checkpointer) : Prop where
  temporality : p.temporality = select
  climbs : Climbs k floor p.processor

/-- A controller that holds on to the total of a counter. -/
structure Counting (selector : Selector) (select : TemporalitySelector) (k : SeriesId)
    (floor : Option Int) (c : Controller) : Prop where
  accumulator : c.accumulator.AllHave selector (Aggregator.CountsFor k.descriptor)
  checkpointer : Holding select k floor c.checkpointer

variable {selector : Selector} {c : Controller} {checkpointer : Checkpointer}

theorem exports_collect (cx : Context) (script : List Action) (c : Controller) :
    exports (.collect cx :: script) c =
      (c.collect cx).2.toOption.toList ++ exports script (c.collect cx).1 := by
  rw [exports, collections, List.filterMap_cons]
  cases (c.collect cx).2 <;> rfl

section
variable (hkind : k.descriptor.kind = .counter)
include hkind

theorem Holding.step (h : Holding select k floor checkpointer)
    (hselect : select k.descriptor .sum = .cumulative) {acc : Accumulation}
    (hacc : Aggregator.CountsFor k.descriptor acc.series.descriptor acc.aggregator) :
    Holding select k floor (step checkpointer acc).1 := by
  obtain hstay | ⟨r, hoffered⟩ := step_cases checkpointer acc
  · rwa [hstay]
  · rw [hoffered]
    obtain ⟨rfl, hclimbs⟩ := h
    exact ⟨rfl, hclimbs.offer hkind hselect hacc⟩

/-- The end of a collection keeps the total, and a set that is exported has it. -/
theorem Holding.ends (h : Holding select k floor checkpointer)
    (hk : k.descriptor.numberKind.IsInteger) {after : Checkpointer}
    {result : Except Halt CheckpointSet} (hend : Ending checkpointer after result) :
    Holding select k floor after ∧ ∀ set, result = .ok set →
      (∀ a, set.value? k = some a → ∃ n, a = .sum n ∧
        Holding select k (some (k.descriptor.numberKind.toInt n)) after) ∧
      ∀ m ∈ floor, ∃ n, set.value? k = some (.sum n) ∧ m ≤ k.descriptor.numberKind.toInt n := by
  cases hend with
  | finished now =>
    refine ⟨⟨h.temporality, h.climbs.finish hkind hk now⟩, fun set hset => ?_⟩
    obtain ⟨hup, hfloor⟩ := exports_of_climbs hkind hk h.climbs (mapError_eq_ok.mp hset)
    refine ⟨fun a ha => ?_, hfloor⟩
    obtain ⟨n, hn, hclimbs⟩ := hup a ha
    exact ⟨n, hn, h.temporality, hclimbs⟩
  | aborted cause _ =>
    exact ⟨⟨h.temporality, h.climbs.abort⟩, fun set hset => by cases hset⟩
  | panicked cause => exact ⟨⟨h.temporality, h.climbs⟩, fun set hset => by cases hset⟩

end

section
variable (hP : selector.Persists (Aggregator.CountsFor k.descriptor))
  (hkind : k.descriptor.kind = .counter) (hk : k.descriptor.numberKind.IsInteger)
  (hselect : select k.descriptor .sum = .cumulative)
include hP hkind hk hselect

/-- A collection keeps the total, however it ends. If it succeeds, it exports the total. -/
theorem Counting.collect (h : Counting selector select k floor c) (cx : Context) :
    Counting selector select k floor (c.collect cx).1 ∧ ∀ set, (c.collect cx).2 = .ok set →
      (∀ a, set.value? k = some a → ∃ n, a = .sum n ∧ Counting selector select k
        (some (k.descriptor.numberKind.toInt n)) (c.collect cx).1) ∧
      ∀ m ∈ floor, ∃ n, set.value? k = some (.sum n) ∧ m ≤ k.descriptor.numberKind.toInt n := by
  cases hp : c.checkpointer.isPoisoned with
  | true =>
    rw [collect_of_poisoned cx hp]
    exact ⟨⟨h.accumulator.same rfl rfl, h.checkpointer⟩, fun set hset => by cases hset⟩
  | false =>
    have hstart : Holding select k floor c.checkpointer.startCollection :=
      ⟨h.checkpointer.temporality, h.checkpointer.climbs.start⟩
    obtain ⟨haccumulator, -, p, hswept, hend⟩ := collect_keeps (I := Holding select k floor) hP
      (fun p acc hacc hheld => hheld.step hkind hselect hacc) h.accumulator hp hstart cx
    obtain ⟨hkept, hexported⟩ := hswept.ends hkind hk hend
    refine ⟨⟨haccumulator, hkept⟩, fun set hset => ?_⟩
    obtain ⟨hup, hfloor⟩ := hexported set hset
    refine ⟨fun a ha => ?_, hfloor⟩
    obtain ⟨n, hn, hheld⟩ := hup a ha
    exact ⟨n, hn, haccumulator, hheld⟩

theorem Counting.act (h : Counting selector select k floor c) (action : Action) :
    Counting selector select k floor (act action c) := by
  cases action with
  | record m => exact ⟨h.accumulator.record hP m, h.checkpointer⟩
  | register descriptors calls =>
    exact ⟨h.accumulator.register descriptors calls, h.checkpointer⟩
  | await elapsed flags => exact ⟨h.accumulator.same rfl rfl, h.checkpointer⟩
  | collect cx => exact (h.collect hP hkind hk hselect cx).1

theorem Counting.exported (h : Counting selector select k floor c) (script : List Action) :
    ∀ t ∈ exports script c, ∀ m ∈ floor, ∃ n, t.value? k = some (.sum n) ∧
      m ≤ k.descriptor.numberKind.toInt n := by
  induction script generalizing c with
  | nil => simp [Controller.exports, collections]
  | cons action script ih =>
    have hnext := ih (h.act hP hkind hk hselect action)
    cases action with
    | collect cx =>
      rw [exports_collect]
      cases hset : (c.collect cx).2 with
      | error halt => exact hnext
      | ok set =>
        exact List.forall_mem_cons.mpr ⟨((h.collect hP hkind hk hselect cx).2 set hset).2, hnext⟩
    | _ => exact hnext

/-- A set that is exported is followed by none that has less, or nothing, of what it has. -/
theorem Counting.pairwise (h : Counting selector select k none c) (script : List Action) :
    (exports script c).Pairwise (CheckpointSet.KeepsUp k) := by
  induction script generalizing c with
  | nil => exact .nil
  | cons action script ih =>
    have hnext := ih (h.act hP hkind hk hselect action)
    cases action with
    | collect cx =>
      rw [exports_collect]
      cases hset : (c.collect cx).2 with
      | error halt => exact hnext
      | ok set =>
        refine List.pairwise_cons.mpr ⟨fun t ht a ha => ?_, hnext⟩
        obtain ⟨n, rfl, hc⟩ := ((h.collect hP hkind hk hselect cx).2 set hset).1 a ha
        obtain ⟨n', ht', hle⟩ := hc.exported hP hkind hk hselect script t ht _ rfl
        exact ⟨n, n', rfl, ht', hle⟩
    | _ => exact hnext

end

/-- However the collections of a controller end, once one has exported the total of a counter of
integers, each later one that succeeds exports a total that is not smaller. -/
theorem exported_counter_keeps_up (o : Options) (env : Environment) (selector : Selector)
    (hnew : ∀ asked d g, selector.choose asked d = some g → Aggregator.IsNew d g)
    (select : TemporalitySelector) (filters : List LabelFilterSelector) (now : Time)
    (k : SeriesId) (hkind : k.descriptor.kind = .counter)
    (hk : k.descriptor.numberKind.IsInteger) (hselect : select k.descriptor .sum = .cumulative)
    (hsum : ∀ asked g, selector.choose asked k.descriptor = some g → g = .newSum)
    (script : List Action) :
    (exports script (build o env selector select filters now)).Pairwise
      (CheckpointSet.KeepsUp k) := by
  have hcounting : Counting selector select k none (build o env selector select filters now) := by
    obtain ⟨events, ha⟩ := build_accumulator o env selector select filters now
    refine ⟨?_, ⟨rfl, Processor.climbs_new k now⟩⟩
    have hempty : Accumulator.AllHave selector (Aggregator.CountsFor k.descriptor)
        (.new selector (o.resource.getD (.ofEnvironment env)) (o.idleCycles.getD 1) (now + 1)) :=
      Accumulator.allHave_new _ _ _
    rw [ha]
    exact hempty.same rfl rfl
  exact hcounting.pairwise (Aggregator.persists_countsFor hnew hsum) hkind hk hselect script

/-- Three requests are exported, four under another path are counted by a collection that is
cancelled, and a collection of both is exported. -/
theorem exported_counter_keeps_up_requests :
    let requests : Descriptor := { name := "requests", kind := .counter, numberKind := .u64 }
    let path (name : String) : LabelSet := .ofList [⟨"path", .string name⟩]
    let selector : Selector := .ofFunction fun _ => some .newSum
    let select := Temporality.constant .cumulative
    let filters : List LabelFilterSelector := [fun _ => some (.dropping ["path"])]
    let k : SeriesId := ⟨requests, .empty, .empty⟩
    let script : List Action := [.record ⟨requests, ⟨3⟩, .u64, path "/a"⟩, .collect .unlimited,
      .await 5 [true], .record ⟨requests, ⟨4⟩, .u64, path "/b"⟩, .collect { flag := some 0 },
      .collect .unlimited]
    ∃ s t,
      exports script (build { resource := some .empty } {} selector select filters 0) = [s, t] ∧
        s.value? k = some (.sum ⟨3⟩) ∧ ∃ n, t.value? k = some (.sum n) ∧
          requests.numberKind.toInt ⟨3⟩ ≤ requests.numberKind.toInt n := by
  intro requests path selector select filters k script
  have hnew : ∀ asked d g, selector.choose asked d = some g → Aggregator.IsNew d g := by
    intro asked d g hg
    rw [← Option.some.inj hg]
    exact Aggregator.isNew_newSum d
  have hpairwise := exported_counter_keeps_up { resource := some .empty } {} selector hnew select
    filters 0 k rfl (by decide) rfl (fun asked g hg => (Option.some.inj hg).symm) script
  have hlength : (exports script (build { resource := some .empty } {} selector select filters
      0)).length = 2 := by decide +kernel
  have hfirst : (exports script (build { resource := some .empty } {} selector select filters
      0)).head?.bind (·.value? k) = some (.sum ⟨3⟩) := by decide +kernel
  generalize exports script (build { resource := some .empty } {} selector select filters 0) = sets
    at hpairwise hlength hfirst
  obtain ⟨s, t, rfl⟩ := List.length_eq_two.mp hlength
  obtain ⟨m, n, hm, ht, hle⟩ :=
    List.rel_of_pairwise_cons hpairwise (List.mem_singleton_self t) _ hfirst
  obtain rfl : (⟨3⟩ : Number) = m := Aggregator.sum.inj hm
  exact ⟨s, t, rfl, hfirst, n, ht, hle⟩

end Controller
end Metering
