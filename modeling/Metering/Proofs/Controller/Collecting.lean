import Metering.Controller
import Metering.Proofs.Accumulator.Agreement
import Metering.Proofs.Accumulator.Clearing
import Metering.Proofs.Processor.Reference

/-!
# Collections of a controller

A collection runs the callbacks and hands what the series hold to the processor, under reduced
labels, unless it is cancelled, which leaves the processor as it was.
-/

namespace Metering

/-! ## Label filters -/

/-- The filters that keep the labels which satisfy an instrument's predicate, if there is one. -/
def LabelFilterSelector.ofPredicates (keep : Descriptor → Option (KeyValue → Bool)) :
    LabelFilterSelector := fun d => (keep d).map .ofPredicate

/-- The relabelling that keeps the labels which satisfy an instrument's predicate, if there is
one. -/
def Relabelling.ofPredicates (keep : Descriptor → Option (KeyValue → Bool)) : Relabelling :=
  fun d labels => (keep d).elim labels labels.filter

/-- Whether label filters never panic, and change labels in a certain way. -/
def Reduces (filters : List LabelFilterSelector) (r : Relabelling) : Prop :=
  ∀ acc, LabelFilterSelector.reduceAll filters acc = .ok (acc.relabel r)

theorem reduces_nil : Reduces [] .keep := fun _ => rfl

theorem LabelSet.filterM_ofPredicate (labels : LabelSet) (keep : KeyValue → Bool) :
    labels.filterM (LabelFilter.ofPredicate keep) = .ok (labels.filter keep) := by
  have hmap : ∀ kvs : List KeyValue,
      kvs.mapM (LabelFilter.ofPredicate keep) = .ok (kvs.map keep) := by
    intro kvs
    induction kvs with
    | nil => rfl
    | cons kv kvs ih =>
      rw [List.mapM_cons, ih]
      rfl
  rw [filterM, hmap]
  rfl

theorem reduces_ofPredicates (keep : Descriptor → Option (KeyValue → Bool)) :
    Reduces [.ofPredicates keep] (.ofPredicates keep) := by
  intro acc
  have hone : LabelFilterSelector.reduce (.ofPredicates keep) acc =
      .ok (acc.relabel (.ofPredicates keep)) := by
    rw [LabelFilterSelector.reduce, LabelFilterSelector.ofPredicates, Accumulation.relabel,
      Relabelling.ofPredicates]
    cases keep acc.series.descriptor with
    | none => rfl
    | some p =>
      simp only [Option.map_some, Option.elim_some, LabelSet.filterM_ofPredicate]
      rfl
  rw [LabelFilterSelector.reduceAll, List.foldlM_cons, hone]
  rfl

def Relabelling.andThen (r r' : Relabelling) : Relabelling := fun d labels => r' d (r d labels)

theorem Reduces.append {filters filters' : List LabelFilterSelector} {r r' : Relabelling}
    (h : Reduces filters r) (h' : Reduces filters' r') :
    Reduces (filters ++ filters') (r.andThen r') := by
  intro acc
  have hone := h acc
  have hrest := h' (acc.relabel r)
  rw [LabelFilterSelector.reduceAll] at hone hrest ⊢
  rw [List.foldlM_append, hone]
  exact hrest

/-- The relabelling by several such predicates, one after the other. -/
def Relabelling.ofAll (keeps : List (Descriptor → Option (KeyValue → Bool))) : Relabelling :=
  keeps.foldr (fun keep r => (ofPredicates keep).andThen r) .keep

theorem reduces_ofAll (keeps : List (Descriptor → Option (KeyValue → Bool))) :
    Reduces (keeps.map .ofPredicates) (.ofAll keeps) := by
  induction keeps with
  | nil => exact reduces_nil
  | cons keep keeps ih => exact (reduces_ofPredicates keep).append ih

namespace Controller

open Accumulator (AllMade Cleared Distinct Silent feed handedOverAs handOver Holds Made Deed)

variable {r : Relabelling}

/-! ## The processor's side -/

theorem step_eq {p : Checkpointer} (h : Reduces p.filters r) (acc : Accumulation) :
    let offered := p.processor.offer p.temporality (acc.relabel r)
    step p acc =
      ({ p with processor := offered.1 }, { outcome := offered.2.mapError Halt.error }) := by
  simp only [step, Checkpointer.process, h acc, Processor.offer]
  cases p.processor.process p.temporality (acc.relabel r) <;> rfl

theorem step_silent : Silent (fun p => Reduces p.filters r) step := by
  intro p acc h
  rw [step_eq h]
  refine ⟨rfl, fun cause => ?_, h⟩
  cases (p.processor.offer p.temporality (acc.relabel r)).2 <;> simp [Except.mapError]

theorem feed_step {p : Checkpointer} (h : Reduces p.filters r) (accs : List Accumulation) :
    feed step p accs =
      { p with
        processor :=
          Processor.offerAll p.temporality (accs.map (Accumulation.relabel r)) p.processor } := by
  induction accs generalizing p with
  | nil => rfl
  | cons acc accs ih =>
    have hone := congrArg Prod.fst (step_eq h acc)
    have hrest := ih (p := (step p acc).1) (hone ▸ h)
    rw [feed, List.foldl_cons, ← feed, hrest, hone]
    rfl

/-- Whether a checkpoint set has one record of every series of which something is expected, and
no others. -/
structure Reflects (expected : SeriesId → Option Aggregator) (set : CheckpointSet) : Prop where
  nodup : (set.records.map (·.series)).Nodup
  iff : ∀ k a, (∃ record ∈ set.records, record.series = k ∧ record.aggregator = a) ↔
    expected k = some a

/-- A checkpointer that reduces labels, between two collections: its processor follows the
batches of the collections so far. -/
structure Tracks (choose : Descriptor → Option Aggregator) (select : TemporalitySelector)
    (r : Relabelling) (past : List (List Accumulation)) (p : Checkpointer) : Prop where
  temporality : p.temporality = select
  reduces : Reduces p.filters r
  intact : p.isPoisoned = false
  idle : p.processor.started = p.processor.finished
  follows : Processor.Follows select past [] p.processor
  made : ∀ acc ∈ past.flatten, Made choose acc

variable {choose : Descriptor → Option Aggregator} {select : TemporalitySelector}
  {past : List (List Accumulation)}

theorem Tracks.collection {p : Checkpointer} (h : Tracks choose select r past p)
    {accs batch : List Accumulation} (hbatch : accs.map (Accumulation.relabel r) = batch)
    (hmade : ∀ acc ∈ batch, Made choose acc) (now : Time) :
    ∃ p' set, (feed step p.startCollection accs).finishCollection now = (p', .ok set) ∧
      Tracks choose select r (past ++ [batch]) p' ∧
        Reflects (Processor.expected select past batch) set := by
  have hall : ∀ acc ∈ past.flatten ++ batch, Made choose acc := by
    intro acc hacc
    rcases List.mem_append.mp hacc with hacc | hacc
    · exact h.made acc hacc
    · exact hmade acc hacc
  obtain ⟨entries, records, hfin, -, hfollows, hnodup, hexp⟩ :=
    h.follows.collection h.idle (Accumulator.consistent_of_made hall) now
  have hfeed : feed step p.startCollection accs = { p with
      processor := Processor.offerAll select batch p.processor.startCollection } := by
    rw [feed_step (p := p.startCollection) h.reduces, hbatch, ← h.temporality]
    rfl
  refine ⟨{ p with processor := { p.processor with
      entries, started := p.processor.started + 1, finished := p.processor.finished + 1,
      intervalStart := now } }, ⟨records, p.processor.intervalStart, now⟩, ?_, ?_, hnodup, hexp⟩
  · rw [hfeed, Checkpointer.finishCollection]
    simp only [hfin]
  · exact ⟨h.temporality, h.reduces, h.intact, congrArg (· + 1) h.idle, hfollows,
      by simpa using hall⟩

theorem Tracks.cancelled {p : Checkpointer} (h : Tracks choose select r past p) :
    p.startCollection.abortCollection.1 = p :=
  congrArg (fun processor => { p with processor }) (h.follows.abort_start h.idle)

/-! ## Both sides -/

theorem foldl_report_eq (errors : List MetricsError) (c : Controller) :
    ∃ events, errors.foldl report c =
      { c with accumulator := { c.accumulator with events } } := by
  induction errors generalizing c with
  | nil => exact ⟨_, rfl⟩
  | cons error errors ih =>
    obtain ⟨events, he⟩ := ih (c.report error)
    exact ⟨events, he⟩

variable {c : Controller} {cx limit : Context}

/-- A collection that gets to its sweep ends with what the processor then exports. -/
theorem collect_of_proceeds {errors : List MetricsError} {n : Nat}
    (hlimit : c.limited cx c.collectTimeout = limit) (hopen : c.checkpointer.isPoisoned = false)
    (h : Accumulator.Proceeds limit c.accumulator.tick errors)
    (hs : (Accumulator.sweep step c.checkpointer.startCollection
      (c.accumulator.tick.afterCallbacks limit)).2.2 = .ok n) :
    let swept := Accumulator.sweep step c.checkpointer.startCollection
      (c.accumulator.tick.afterCallbacks limit)
    let finished := swept.2.1.finishCollection swept.1.now
    ∃ events, c.collect cx = ({ c with
        accumulator := { swept.1 with
          epoch := swept.1.epoch + 1, now := swept.1.now + 1, events }
        checkpointer := finished.1 }, finished.2.mapError Halt.error) := by
  intro swept finished
  have hcollect := h.collect_of_ok hs
  rw [Controller.collect, hlimit]
  simp only [tick, hopen, Bool.false_eq_true, if_false, collectLocked, hcollect]
  cases he : errors.isEmpty with
  | true => exact ⟨_, rfl⟩
  | false =>
    obtain ⟨events, hreport⟩ := foldl_report_eq errors ((({ c with
      accumulator := { swept.1 with epoch := swept.1.epoch + 1 }
      checkpointer := swept.2.1 } : Controller)).log
        (.partialCollection n errors.length))
    refine ⟨events, ?_⟩
    simp only [Bool.false_eq_true, if_false]
    rw [hreport]
    rfl

theorem Tracks.collect_of_swept {errors : List MetricsError} {n : Nat}
    (h : Tracks choose select r past c.checkpointer)
    (hlimit : c.limited cx c.collectTimeout = limit)
    (hp : Accumulator.Proceeds limit c.accumulator.tick errors) :
    let called := c.accumulator.tick.afterCallbacks limit
    let swept := Accumulator.sweep step c.checkpointer.startCollection called
    let batch := handedOverAs r called.resource called
    swept.2 = (feed step c.checkpointer.startCollection
        ((called.series.filter (·.isPending)).map (handOver called.resource)), .ok n) →
    (∀ acc ∈ batch, Made choose acc) →
    ∃ events p set, c.collect cx = ({ c with
        accumulator := { swept.1 with
          epoch := swept.1.epoch + 1, now := swept.1.now + 1, events }
        checkpointer := p }, .ok set) ∧
      Tracks choose select r (past ++ [batch]) p ∧
        Reflects (Processor.expected select past batch) set := by
  intro called swept batch hswept hmade
  obtain ⟨events, hc⟩ := collect_of_proceeds hlimit h.intact hp (congrArg Prod.snd hswept)
  obtain ⟨p, set, hfin, htracks, hset⟩ := h.collection
    (show _ = batch from List.map_map ..) hmade swept.1.now
  have hfinished : swept.2.1.finishCollection swept.1.now = (p, .ok set) := by
    rw [congrArg Prod.fst hswept]
    exact hfin
  refine ⟨events, p, set, hc.trans ?_, htracks, hset⟩
  rw [show (Accumulator.sweep step c.checkpointer.startCollection
    (c.accumulator.tick.afterCallbacks limit)) = swept from rfl, hfinished]
  rfl

theorem Tracks.collect {us : List Accumulator.Sample} {errors : List MetricsError}
    (h : Tracks choose select r past c.checkpointer)
    (hlimit : c.limited cx c.collectTimeout = limit)
    (hp : Accumulator.Proceeds limit c.accumulator.tick errors)
    (hholds : Holds choose us (c.accumulator.tick.afterCallbacks limit)) :
    let called := c.accumulator.tick.afterCallbacks limit
    let swept := (Accumulator.sweep step c.checkpointer.startCollection called).1
    let batch := handedOverAs r called.resource called
    ∃ events p set, c.collect cx = ({ c with
        accumulator := { swept with epoch := swept.epoch + 1, now := swept.now + 1, events }
        checkpointer := p }, .ok set) ∧
      Tracks choose select r (past ++ [batch]) p ∧
        Reflects (Processor.expected select past batch) set := by
  intro called swept batch
  have hswept := (hholds.sweep step_silent (p := c.checkpointer.startCollection) h.reduces).1
  exact h.collect_of_swept hlimit hp hswept (hholds.made_handedOverAs r called.resource)

/-- A collection that gets to its sweep empties series that were made for their instruments, and
exports what is expected of what they held. -/
theorem Tracks.collect_of_made (h : Tracks choose select r past c.checkpointer)
    (hnew : ∀ d g, choose d = some g → Aggregator.IsNew d g)
    (hlimit : c.limited cx c.collectTimeout = limit) {errors : List MetricsError}
    (hp : Accumulator.Proceeds limit c.accumulator.tick errors) :
    let called := c.accumulator.tick.afterCallbacks limit
    let batch := handedOverAs r called.resource called
    Distinct called.series → AllMade choose called →
    ∃ swept events p set, Cleared called swept ∧
      c.collect cx = ({ c with
        accumulator := { swept with epoch := swept.epoch + 1, now := swept.now + 1, events }
        checkpointer := p }, .ok set) ∧
      Tracks choose select r (past ++ [batch]) p ∧
        Reflects (Processor.expected select past batch) set := by
  intro called batch hd hmade
  obtain ⟨hswept, hcleared⟩ := Accumulator.sweep_silent step_silent
    (p := c.checkpointer.startCollection) h.reduces hd (hmade.movable hnew hd)
  obtain ⟨events, p, set, hc, hrest⟩ :=
    h.collect_of_swept hlimit hp hswept (hmade.made_handedOverAs hnew hd r _)
  exact ⟨_, events, p, set, hcleared, hc, hrest⟩

theorem collect_of_not_proceeds (hlimit : c.limited cx c.collectTimeout = limit)
    (hopen : c.checkpointer.isPoisoned = false) (ha : c.accumulator.isPoisoned = false)
    (h : ∀ errors, ¬Accumulator.Proceeds limit c.accumulator.tick errors) :
    c.collect cx = ({ c with
      accumulator := (c.accumulator.tick.afterCallbacks limit).log .collectionAborted
      checkpointer := c.checkpointer.startCollection.abortCollection.1 },
      .error (.error .cancelled)) := by
  have hcollect := Accumulator.collect_of_not_proceeds (a := c.accumulator.tick) ha h step
    c.checkpointer.startCollection
  rw [Controller.collect, hlimit]
  simp only [tick, hopen, Bool.false_eq_true, if_false, collectLocked, hcollect]
  rfl

end Controller
end Metering
