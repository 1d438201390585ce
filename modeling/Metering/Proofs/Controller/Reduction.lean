import Metering.Proofs.Controller.Collecting

/-!
# Reducing labels

A controller that reduces labels as it collects exports what one exports that was given reduced
labels to begin with, through any recording, observing and collecting, as long as no integer sum
leaves its range.
-/

namespace Metering.Controller

open Accumulator (Deed Holds Proceeds Recordable StaysInRange Twins calledAll collected handed
  handedOverAs)

/-! ## Runs -/

inductive Action where
  | record (m : Measurement)
  | register (descriptors : List Descriptor) (calls : List (List CallbackAction))
  /-- time passes, and handles of contexts may be made and used -/
  | await (elapsed : Nat) (flags : CancellationFlags)
  | collect (cx : Context)

def Action.relabel (r : Relabelling) : Action → Action
  | .record m => .record (m.relabel r)
  | .register descriptors calls => .register descriptors (CallbackAction.relabelCalls r calls)
  | .await elapsed flags => .await elapsed flags
  | .collect cx => .collect cx

/-- Whether an action measures suitable instruments only. -/
def Action.Suits (choose : Descriptor → Option Aggregator) : Action → Prop
  | .record m => Recordable choose m.descriptor
  | .register _ calls => ∀ call ∈ calls, ∀ action ∈ call, CallbackAction.Suits choose action
  | .await .. | .collect _ => True

def act : Action → Controller → Controller
  | .record m, c => { c with accumulator := c.accumulator.record m }
  | .register descriptors calls, c =>
    { c with accumulator := (c.accumulator.register descriptors calls).1 }
  | .await elapsed flags, c =>
    { c with accumulator := { c.accumulator with now := c.accumulator.now + elapsed, flags } }
  | .collect cx, c => (c.collect cx).1

/-- What the collections of a script return. -/
def collections : List Action → Controller → List (Except Halt CheckpointSet)
  | [], _ => []
  | .collect cx :: script, c => (c.collect cx).2 :: collections script (c.collect cx).1
  | action :: script, c => collections script (act action c)

def deeds : Action → Controller → List Deed
  | .record m, _ => [.recorded m]
  | .register .., _ | .await .., _ => []
  | .collect cx, c =>
    collected (c.limited cx c.collectTimeout) step c.checkpointer.startCollection
      c.accumulator.tick

/-- The deeds of a script after some earlier ones, from each successful collection to the end of
the next. -/
def periods : List Action → List Deed → Controller → List (List Deed)
  | [], _, _ => []
  | .collect cx :: script, ds, c =>
    let ds := ds ++ deeds (.collect cx) c
    match (c.collect cx).2 with
    | .ok _ => ds :: periods script [] (c.collect cx).1
    | .error _ => periods script ds (c.collect cx).1
  | action :: script, ds, c => periods script (ds ++ deeds action c) (act action c)

/-- Whether collections return the same: either the same aggregators for the same series, or both
were cancelled. -/
def SameExports : Except Halt CheckpointSet → Except Halt CheckpointSet → Prop
  | .ok s, .ok t =>
    (s.records.map fun x => (x.series, x.aggregator)).Perm
      (t.records.map fun x => (x.series, x.aggregator))
  | .error halt, .error halt' => halt = .error .cancelled ∧ halt' = .error .cancelled
  | _, _ => False

theorem perm_of_records {α : Type} (f : Aggregator → α) {xs ys : List Record}
    (hx : (xs.map (·.series)).Nodup) (hy : (ys.map (·.series)).Nodup)
    (h : ∀ k a, (∃ x ∈ xs, x.series = k ∧ f x.aggregator = a) ↔
      ∃ y ∈ ys, y.series = k ∧ f y.aggregator = a) :
    (xs.map fun x => (x.series, f x.aggregator)).Perm
      (ys.map fun y => (y.series, f y.aggregator)) := by
  have hnodup : ∀ zs : List Record, (zs.map (·.series)).Nodup →
      (zs.map fun z => (z.series, f z.aggregator)).Nodup := by
    intro zs hz
    refine .of_map Prod.fst ?_
    rw [List.map_map]
    exact hz
  refine (List.perm_ext_iff_of_nodup (hnodup xs hx) (hnodup ys hy)).mpr fun ⟨k, a⟩ => ?_
  simpa using h k a

theorem Reflects.exists_iff {e : SeriesId → Option Aggregator} {set : CheckpointSet}
    (h : Reflects e set) {α : Type} {f : Aggregator → α} {k : SeriesId} {b : α} :
    (∃ record ∈ set.records, record.series = k ∧ f record.aggregator = b) ↔
      (e k).map f = some b := by
  rw [Option.map_eq_some_iff]
  constructor
  · rintro ⟨record, hrecord, hk, hb⟩
    exact ⟨record.aggregator, (h.iff k _).mp ⟨record, hrecord, hk, rfl⟩, hb⟩
  · rintro ⟨a, ha, rfl⟩
    obtain ⟨record, hrecord, hk, rfl⟩ := (h.iff k a).mpr ha
    exact ⟨record, hrecord, hk, rfl⟩

theorem Reflects.perm {e e' : SeriesId → Option Aggregator} {s t : CheckpointSet} {α : Type}
    (f : Aggregator → α) (hs : Reflects e s) (ht : Reflects e' t)
    (h : ∀ k, (e k).map f = (e' k).map f) :
    (s.records.map fun x => (x.series, f x.aggregator)).Perm
      (t.records.map fun x => (x.series, f x.aggregator)) :=
  perm_of_records f hs.nodup ht.nodup fun k a => by rw [hs.exists_iff, ht.exists_iff, h]

/-! ## Two controllers -/

/-- Controllers that were given the same measurements since their last collections: the first
reduces labels, and the second was given reduced labels. -/
structure Paired (choose : Descriptor → Option Aggregator) (select : TemporalitySelector)
    (r : Relabelling) (ds : List Deed) (c c' : Controller) : Prop where
  twins : ∃ us, Twins choose r ds us c.accumulator c'.accumulator
  unhanded : handed ds = []
  timeout : c'.collectTimeout = c.collectTimeout
  tracks : ∃ past past', List.Forall₂ Processor.SameData past past' ∧
    Tracks choose select r past c.checkpointer ∧
    Tracks choose select .keep past' c'.checkpointer

variable {choose : Descriptor → Option Aggregator} {select : TemporalitySelector}
  {r : Relabelling} {ds : List Deed} {c c' : Controller}

def ongoing (result : Except Halt CheckpointSet) (ds : List Deed) : List Deed :=
  match result with
  | .ok _ => []
  | .error _ => ds

theorem Paired.act (h : Paired choose select r ds c c') (action : Action)
    (hs : action.Suits choose) (hcollect : ∀ cx, action ≠ .collect cx) :
    Paired choose select r (ds ++ deeds action c) (act action c) (act (action.relabel r) c') := by
  obtain ⟨us, ht⟩ := h.twins
  cases action with
  | record m =>
    have htwins := ht.record hs
    refine ⟨⟨_, htwins⟩, ?_, h.timeout, h.tracks⟩
    rw [Accumulator.handed_append, h.unhanded]
    exact Accumulator.handed_recorded [m]
  | register descriptors calls =>
    obtain ⟨-, htwins⟩ := ht.register descriptors hs
    rw [deeds, List.append_nil]
    exact ⟨⟨us, htwins⟩, h.unhanded, h.timeout, h.tracks⟩
  | await elapsed flags =>
    rw [deeds, List.append_nil]
    refine ⟨⟨us, ht.same ⟨rfl, rfl, rfl, rfl, rfl⟩ ⟨rfl, rfl, rfl, rfl, rfl⟩ rfl rfl ht.observers
      ht.suits rfl (le_refl _) ?_⟩, h.unhanded, h.timeout, h.tracks⟩
    exact congrArg (fun s : Stamp => { s with time := s.time + elapsed }) ht.stamp
  | collect cx => exact absurd rfl (hcollect cx)

theorem Paired.tick (h : Paired choose select r ds c c') :
    ∃ us, Twins choose r ds us c.accumulator.tick c'.accumulator.tick := by
  obtain ⟨us, ht⟩ := h.twins
  exact ⟨us, ht.tick⟩

theorem Paired.limited (h : Paired choose select r ds c c') (cx : Context) :
    c'.limited cx c'.collectTimeout = c.limited cx c.collectTimeout := by
  obtain ⟨us, ht⟩ := h.twins
  rw [Controller.limited, Controller.limited, h.timeout, ht.now]

variable {limit : Context} {cx : Context}

private theorem Paired.handed_called (h : Paired choose select r ds c c') :
    handed (ds ++ calledAll limit (List.range c.accumulator.tick.observers.length)
      c.accumulator.tick) = [] := by
  rw [Accumulator.handed_append, h.unhanded, Accumulator.handed_calledAll, List.append_nil]

theorem Paired.deeds_of_proceeds (h : Paired choose select r ds c c')
    (hlimit : c.limited cx c.collectTimeout = limit) {errors : List MetricsError}
    (hp : Proceeds limit c.accumulator.tick errors) :
    deeds (.collect cx) c =
      calledAll limit (List.range c.accumulator.tick.observers.length) c.accumulator.tick ++
        (handedOverAs .keep (c.accumulator.tick.afterCallbacks limit).resource
          (c.accumulator.tick.afterCallbacks limit)).map .processed := by
  obtain ⟨us, ht⟩ := h.tick
  obtain ⟨us', hcalled⟩ := ht.afterCallbacks limit
  obtain ⟨past, past', -, htr, -⟩ := h.tracks
  rw [deeds, hlimit]
  exact hp.collected hcalled.holds step_silent htr.reduces

theorem Paired.collect_of_not_proceeds (h : Paired choose select r ds c c')
    (hlimit : c.limited cx c.collectTimeout = limit)
    (hgo : ∀ errors, ¬Proceeds limit c.accumulator.tick errors) :
    SameExports (c.collect cx).2 (c'.collect cx).2 ∧
      Paired choose select r (ongoing (c.collect cx).2 (ds ++ deeds (.collect cx) c))
        (c.collect cx).1 (c'.collect cx).1 := by
  obtain ⟨us, ht⟩ := h.tick
  obtain ⟨past, past', hpast, htr, htr'⟩ := h.tracks
  have hintact' := ht.setup.isPoisoned.trans ht.intact
  have hgo' : ∀ errors, ¬Proceeds limit c'.accumulator.tick errors :=
    fun errors hp => hgo errors (ht.proceeds_iff.mpr hp)
  have hc := Controller.collect_of_not_proceeds hlimit htr.intact ht.intact hgo
  have hc' := Controller.collect_of_not_proceeds ((h.limited cx).trans hlimit) htr'.intact hintact'
    hgo'
  have hdeeds : deeds (.collect cx) c =
      calledAll limit (List.range c.accumulator.tick.observers.length) c.accumulator.tick := by
    rw [deeds, hlimit]
    exact Accumulator.collected_of_not_proceeds ht.intact hgo _ _
  obtain ⟨us', hcalled⟩ := ht.afterCallbacks limit
  rw [hc, hc', hdeeds, htr.cancelled, htr'.cancelled]
  exact ⟨⟨rfl, rfl⟩, ⟨us', hcalled.emit _ _⟩, h.handed_called, h.timeout, past, past', hpast, htr,
    htr'⟩

/-- Both collections get to their sweeps, and export the same if no sum has left its range. -/
theorem Paired.collect_of_proceeds (h : Paired choose select r ds c c')
    (hlimit : c.limited cx c.collectTimeout = limit) {errors : List MetricsError}
    (hp : Proceeds limit c.accumulator.tick errors)
    (hr : ∀ set, (c.collect cx).2 = .ok set →
      StaysInRange choose r (ds ++ deeds (.collect cx) c)) :
    SameExports (c.collect cx).2 (c'.collect cx).2 ∧
      Paired choose select r (ongoing (c.collect cx).2 (ds ++ deeds (.collect cx) c))
        (c.collect cx).1 (c'.collect cx).1 := by
  obtain ⟨us, ht⟩ := h.tick
  obtain ⟨past, past', hpast, htr, htr'⟩ := h.tracks
  obtain ⟨us', hcalled⟩ := ht.afterCallbacks limit
  obtain ⟨events, p, set, hc, htracks, hset⟩ := htr.collect hlimit hp hcalled.holds
  obtain ⟨events', p', set', hc', htracks', hset'⟩ :=
    htr'.collect ((h.limited cx).trans hlimit) (ht.proceeds_iff.mp hp) hcalled.holds'
  have hrange := hr set (congrArg Prod.snd hc)
  rw [h.deeds_of_proceeds hlimit hp, ← List.append_assoc] at hrange
  have hsame : Processor.SameData _ _ := hcalled.agree h.handed_called hrange
  rw [hc, hc']
  refine ⟨?_, ⟨[], ?_⟩, rfl, h.timeout, _, _, ?_, htracks, htracks'⟩
  · exact hset.perm id hset' fun k => congrArg _ (Processor.expected_congr hpast hsame)
  · exact hcalled.sweep step_silent step_silent
      (show Reduces c.checkpointer.startCollection.filters r from htr.reduces)
      (show Reduces c'.checkpointer.startCollection.filters .keep from htr'.reduces) events events'
  · exact List.rel_append hpast (.cons hsame .nil)

theorem Paired.collect (h : Paired choose select r ds c c') (cx : Context)
    (hr : ∀ set, (c.collect cx).2 = .ok set →
      StaysInRange choose r (ds ++ deeds (.collect cx) c)) :
    SameExports (c.collect cx).2 (c'.collect cx).2 ∧
      Paired choose select r (ongoing (c.collect cx).2 (ds ++ deeds (.collect cx) c))
        (c.collect cx).1 (c'.collect cx).1 := by
  by_cases hgo : ∃ errors, Proceeds (c.limited cx c.collectTimeout) c.accumulator.tick errors
  · obtain ⟨errors, hp⟩ := hgo
    exact h.collect_of_proceeds rfl hp hr
  · exact h.collect_of_not_proceeds rfl (not_exists.mp hgo)

/-- All collections of a script return the same. -/
theorem Paired.collections (h : Paired choose select r ds c c') {script : List Action}
    (hs : ∀ action ∈ script, action.Suits choose)
    (hr : ∀ period ∈ periods script ds c, StaysInRange choose r period) :
    List.Forall₂ SameExports (collections script c)
      (collections (script.map (Action.relabel r)) c') := by
  induction script generalizing ds c c' with
  | nil => exact .nil
  | cons action script ih =>
    obtain ⟨haction, hscript⟩ := List.forall_mem_cons.mp hs
    by_cases hcollect : ∃ cx, action = .collect cx
    · obtain ⟨cx, rfl⟩ := hcollect
      obtain ⟨hsame, hnext⟩ := h.collect cx fun set hset => hr _ (by simp [periods, hset])
      refine .cons hsame (ih hnext hscript fun period hperiod => hr period ?_)
      rw [periods]
      cases hresult : (c.collect cx).2 with
      | ok set =>
        rw [hresult] at hperiod
        exact List.mem_cons_of_mem _ hperiod
      | error halt =>
        rw [hresult] at hperiod
        exact hperiod
    · have hnext := h.act action haction (not_exists.mp hcollect)
      cases action with
      | collect cx => exact absurd ⟨cx, rfl⟩ hcollect
      | _ => exact ih hnext hscript hr

/-! ## Two new controllers -/

private theorem foldl_log_eq (entries : List LogEntry) (a : Accumulator) :
    ∃ events, entries.foldl Accumulator.log a = { a with events } := by
  induction entries generalizing a with
  | nil => exact ⟨_, rfl⟩
  | cons entry entries ih =>
    obtain ⟨events, he⟩ := ih (a.log entry)
    exact ⟨events, he⟩

theorem build_accumulator (o : Options) (env : Environment) (selector : Selector)
    (select : TemporalitySelector) (filters : List LabelFilterSelector) (now : Time) :
    ∃ events, (build o env selector select filters now).accumulator =
      { Accumulator.new selector (o.resource.getD (.ofEnvironment env)) (o.idleCycles.getD 1)
        (now + 1) with events } := by
  obtain ⟨events, he⟩ := foldl_log_eq _ _
  exact ⟨events, he⟩

theorem paired_build (o : Options) (env : Environment) (choose : Descriptor → Option Aggregator)
    (select : TemporalitySelector) (keep : Descriptor → Option (KeyValue → Bool)) (now : Time) :
    Paired choose select (.ofPredicates keep) []
      (build o env (.ofFunction choose) select [.ofPredicates keep] now)
      (build o env (.ofFunction choose) select [] now) := by
  refine ⟨⟨[], ?_⟩, rfl, rfl, [], [], .nil, ?_, ?_⟩
  · obtain ⟨events, ha⟩ :=
      build_accumulator o env (.ofFunction choose) select [.ofPredicates keep] now
    generalize o.resource.getD (.ofEnvironment env) = resource at ha
    generalize o.idleCycles.getD 1 = idleCycles at ha
    have hholds : Holds choose [] { Accumulator.new (.ofFunction choose) resource idleCycles
        (now + 1) with events } :=
      (Accumulator.holds_new resource idleCycles (now + 1)).same rfl (le_refl _)
    have htwins : Twins choose (.ofPredicates keep) [] []
        { Accumulator.new (.ofFunction choose) resource idleCycles (now + 1) with events }
        { Accumulator.new (.ofFunction choose) resource idleCycles (now + 1) with events } :=
      ⟨hholds, hholds, rfl, rfl, rfl, .refl _, rfl, by simp [Accumulator.new], rfl, rfl⟩
    rw [← ha] at htwins
    exact htwins
  · exact ⟨rfl, reduces_ofPredicates keep, rfl, rfl, Processor.follows_new select now, by simp⟩
  · exact ⟨rfl, reduces_nil, rfl, rfl, Processor.follows_new select now, by simp⟩

/-- Whatever is recorded, observed and collected, reducing labels while collecting exports the
same as recording reduced labels, unless an integer sum leaves its range on the way to an
export. -/
theorem reduction_eq_recording_reduced (o : Options) (env : Environment)
    (choose : Descriptor → Option Aggregator) (select : TemporalitySelector)
    (keep : Descriptor → Option (KeyValue → Bool)) (now : Time) (script : List Action)
    (hs : ∀ action ∈ script, action.Suits choose)
    (hr : ∀ period ∈ periods script [] (build o env (.ofFunction choose) select
      [.ofPredicates keep] now), StaysInRange choose (.ofPredicates keep) period) :
    let reducing := build o env (.ofFunction choose) select [.ofPredicates keep] now
    let plain := build o env (.ofFunction choose) select [] now
    List.Forall₂ SameExports (collections script reducing)
      (collections (script.map (Action.relabel (.ofPredicates keep))) plain) :=
  (paired_build o env choose select keep now).collections hs hr

/-- Requests under two paths are counted, and collected without the paths. -/
theorem reduction_eq_recording_reduced_requests :
    let requests : Descriptor := { name := "requests", kind := .counter, numberKind := .u64 }
    let path (name : String) : LabelSet := .ofList [⟨"path", .string name⟩]
    let choose : Descriptor → Option Aggregator := fun _ => some .newSum
    let keep : Descriptor → Option (KeyValue → Bool) := fun _ => some fun _ => false
    let select := Temporality.constant .cumulative
    let o : Options := { resource := some .empty, collectTimeout := some 0 }
    let reducing := build o {} (.ofFunction choose) select [.ofPredicates keep] 0
    let plain := build o {} (.ofFunction choose) select [] 0
    let script : List Action := [.record ⟨requests, ⟨2⟩, .u64, path "/a"⟩,
      .record ⟨requests, ⟨3⟩, .u64, path "/b"⟩, .collect .unlimited]
    (∀ action ∈ script, action.Suits choose) ∧
      (∀ period ∈ periods script [] reducing, StaysInRange choose (.ofPredicates keep) period) ∧
      List.Forall₂ SameExports (collections script reducing)
        (collections (script.map (Action.relabel (.ofPredicates keep))) plain) := by
  intro requests path choose keep select o reducing plain script
  have hrecordable : Recordable choose requests := by
    refine ⟨rfl, by decide, fun g hg => ?_⟩
    rw [← Option.some.inj hg]
    exact Aggregator.isNew_newSum requests
  have hsuits : ∀ action ∈ script, action.Suits choose := by
    simpa [script, Action.Suits] using hrecordable
  have hpaired := ((paired_build o {} choose select keep 0).act
    (.record ⟨requests, ⟨2⟩, .u64, path "/a"⟩) hrecordable (by simp)).act
    (.record ⟨requests, ⟨3⟩, .u64, path "/b"⟩) hrecordable (by simp)
  have hdeeds : deeds (.collect .unlimited) (act (.record ⟨requests, ⟨3⟩, .u64, path "/b"⟩)
      (act (.record ⟨requests, ⟨2⟩, .u64, path "/a"⟩) reducing)) =
    [.processed ⟨⟨requests, path "/a", .empty⟩, .sum ⟨2⟩⟩,
      .processed ⟨⟨requests, path "/b", .empty⟩, .sum ⟨3⟩⟩] :=
    hpaired.deeds_of_proceeds rfl (⟨rfl, rfl, rfl⟩ : Proceeds _ _ [])
  have hperiods : ∀ period ∈ periods script [] reducing, period =
      [.recorded ⟨requests, ⟨2⟩, .u64, path "/a"⟩, .recorded ⟨requests, ⟨3⟩, .u64, path "/b"⟩,
        .processed ⟨⟨requests, path "/a", .empty⟩, .sum ⟨2⟩⟩,
        .processed ⟨⟨requests, path "/b", .empty⟩, .sum ⟨3⟩⟩] := by
    intro period hperiod
    simp only [script, periods, hdeeds] at hperiod
    split at hperiod
    · simpa [deeds] using hperiod
    · simp at hperiod
  have hrange : ∀ period ∈ periods script [] reducing,
      StaysInRange choose (.ofPredicates keep) period := by
    intro period hperiod
    rw [hperiods period hperiod]
    exact .of_keys (by decide) (by decide) (by decide)
  exact ⟨hsuits, hrange,
    reduction_eq_recording_reduced o {} choose select keep 0 script hsuits hrange⟩

end Metering.Controller
