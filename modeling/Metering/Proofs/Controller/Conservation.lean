import Metering.Proofs.Accumulator.Pending
import Metering.Proofs.Controller.Outcomes
import Metering.Proofs.Controller.Temporality

/-!
# What is counted is exported once

A controller of changes gives away what was counted since its last collection, whoever asks for it
and whatever the exporter answers. What it gave away, and what its series still hold, is what was
counted.
-/

namespace Metering.Controller

open Accumulator (Deed SameSetup Upkept addition held pendingSum seek)

/-! ## Sums -/

/-- What checkpoint sets say of the sum of a series, together. -/
def sumOf (k : SeriesId) (sets : List CheckpointSet) : Int := (sets.filterMap (·.sum? k)).sum

theorem sumOf_append (k : SeriesId) (sets sets' : List CheckpointSet) :
    sumOf k (sets ++ sets') = sumOf k sets + sumOf k sets' := by
  rw [sumOf, List.filterMap_append, List.sum_append]
  rfl

theorem sumOf_singleton (k : SeriesId) (set : CheckpointSet) :
    sumOf k [set] = (set.sum? k).getD 0 := by
  rw [sumOf, List.filterMap_cons]
  cases set.sum? k <;> simp

theorem sumOf_outcomes (k : SeriesId) (sets : List (Outlet × CheckpointSet)) :
    sumOf k (sets.map (·.2)) =
      sumOf k (givenTo .exporter sets) + sumOf k (givenTo .caller sets) := by
  induction sets with
  | nil => rfl
  | cons x sets ih =>
    obtain ⟨outlet, set⟩ := x
    have hsplit (o : Outlet) : givenTo o ((outlet, set) :: sets) =
        givenTo o [(outlet, set)] ++ givenTo o sets := givenTo_append o [(outlet, set)] sets
    rw [List.map_cons, ← List.singleton_append, sumOf_append, ih, hsplit, hsplit, sumOf_append,
      sumOf_append]
    cases outlet with
    | caller => simp [givenTo, sumOf]; omega
    | exporter => simp [givenTo, sumOf]; omega

/-- The measurement that an operation makes. -/
def Operation.measured? : Operation → Option Measurement
  | .act (.record m) => some m
  | _ => none

/-- What operations add for a key. -/
def added (r : Relabelling) (k : SeriesKey) (operations : List Operation) : Int :=
  ((operations.filterMap (·.measured?)).map (addition r k)).sum

theorem added_cons (r : Relabelling) (k : SeriesKey) (operation : Operation)
    (operations : List Operation) :
    added r k (operation :: operations) = added r k [operation] + added r k operations := by
  rw [added, ← List.singleton_append, List.filterMap_append, List.map_append, List.sum_append]
  rfl

/-- Whether an operation takes a sum beyond the highest number: that of the series to which it
adds, or the one that its collection makes of what is pending. -/
def saturates (r : Relabelling) (k : SeriesKey) (operation : Operation) (c : Controller) : Bool :=
  operation.measured?.any (fun m => r.key m.key = k && m.isAccepted &&
    decide (k.1.numberKind.highest <
      held (seek m.key c.accumulator.series) + k.1.numberKind.toInt m.number)) ||
  (outcome? operation c).isSome &&
    decide (k.1.numberKind.highest < pendingSum r k c.accumulator)

/-- Whether no operation of a run takes a sum beyond the highest number. -/
def staysInRange (r : Relabelling) (k : SeriesKey) : List Operation → Controller → Bool
  | [], _ => true
  | operation :: operations, c =>
    !saturates r k operation c && staysInRange r k operations (operate operation c)

/-! ## Besides collecting -/

/-- What happens without a collection leaves the series and the processor as they are. -/
structure Leaves (c d : Controller) : Prop where
  checkpointer : d.checkpointer = c.checkpointer
  accumulator : ∃ now flags events,
    d.accumulator = { c.accumulator with now, flags, events } ∧ c.accumulator.now ≤ now

variable {c d : Controller}

theorem Leaves.now (h : Leaves c d) : c.accumulator.now ≤ d.accumulator.now := by
  obtain ⟨now, flags, events, hd, hnow⟩ := h.accumulator
  rw [hd]
  exact hnow

theorem Leaves.series (h : Leaves c d) : d.accumulator.series = c.accumulator.series := by
  obtain ⟨now, flags, events, hd, -⟩ := h.accumulator
  rw [hd]

theorem Leaves.trans {e : Controller} (h : Leaves c d) (h' : Leaves d e) : Leaves c e := by
  obtain ⟨now, flags, events, hd, hnow⟩ := h.accumulator
  obtain ⟨now', flags', events', he, hnow'⟩ := h'.accumulator
  rw [hd] at he hnow'
  exact ⟨h'.checkpointer.trans h.checkpointer, now', flags', events', he, hnow.trans hnow'⟩

theorem Aside.leaves (h : Aside c d) : Leaves c d := by
  obtain ⟨events, hd⟩ := h.accumulator
  exact ⟨h.checkpointer, _, c.accumulator.flags, events, hd, le_refl _⟩

theorem leaves_export? (c : Controller) (cx : Context) (set : CheckpointSet) :
    Leaves c (c.export? cx set).1 := by
  obtain ⟨exporter, now, events, hexport, hnow⟩ := export?_eq c cx set
  rw [hexport]
  exact ⟨rfl, now, _, events, rfl, hnow⟩

theorem Settled.leaves {outlet : Outlet} {cx : Context}
    {collected : Controller × Except Halt CheckpointSet} (h : Settled outlet cx collected d) :
    Leaves collected.1 d := by
  cases h with
  | failed h => exact h.leaves
  | returned _ h => exact h.leaves
  | exported _ h => exact (leaves_export? _ cx _).trans h.leaves

/-! ## One operation -/

/-- Whether a key is one of an instrument that counts without a sign, and that is summed up. -/
structure Tallied (choose : Descriptor → Option Aggregator) (k : SeriesKey) : Prop where
  counter : k.1.kind = .counter
  sum : choose k.1 = some .newSum
  unsigned : k.1.numberKind = .u64

/-- A controller of changes without callbacks, between two operations. -/
structure Tidy (choose : Descriptor → Option Aggregator) (r : Relabelling) (resource : Resource)
    (ds : List Deed) (c : Controller) : Prop where
  tracks : ∃ past, Tracks choose (Temporality.constant .delta) r past c.checkpointer
  upkept : Upkept choose ds c.accumulator
  resource : c.accumulator.resource = resource
  observers : c.accumulator.observers = []

variable {choose : Descriptor → Option Aggregator} {r : Relabelling} {resource : Resource}
  {ds : List Deed}

theorem Tidy.leaves (h : Tidy choose r resource ds c) (hd : Leaves c d) :
    Tidy choose r resource ds d := by
  obtain ⟨now, flags, events, ha, -⟩ := hd.accumulator
  refine ⟨hd.checkpointer ▸ h.tracks, ?_, ?_, ?_⟩
  · exact h.upkept.same (by rw [ha]; exact ⟨rfl, rfl, rfl, rfl, rfl⟩) hd.series
  · rw [ha]
    exact h.resource
  · rw [ha]
    exact h.observers

theorem afterCallbacks_of_none {a : Accumulator} (h : a.observers = []) (cx : Context) :
    a.afterCallbacks cx = a := by
  rw [Accumulator.afterCallbacks, h]
  rfl

/-- What an operation makes of a controller: the sets that it gives away are finished meanwhile, and
what it gives away of a counter and what is then pending is what was pending and what it adds. -/
structure Balanced (choose : Descriptor → Option Aggregator) (r : Relabelling)
    (resource : Resource) (operation : Operation) (c d : Controller) : Prop where
  tidy : ∃ ds, Tidy choose r resource ds d
  now : c.accumulator.now ≤ d.accumulator.now
  stop : ∀ x ∈ (outcome? operation c).toList,
    c.accumulator.now ≤ x.2.stop ∧ x.2.stop < d.accumulator.now
  balance : ∀ k, Tallied choose k → saturates r k operation c = false →
    sumOf ⟨k.1, k.2, resource⟩ ((outcome? operation c).toList.map (·.2)) +
        pendingSum r k d.accumulator =
      pendingSum r k c.accumulator + added r k [operation]

theorem Tidy.balanced_of_leaves (h : Tidy choose r resource ds c) {operation : Operation}
    (hnone : operation.measured? = none) (hset : outcome? operation c = none) (hd : Leaves c d) :
    Balanced choose r resource operation c d := by
  refine ⟨⟨ds, h.leaves hd⟩, hd.now, by simp [hset], fun k _ _ => ?_⟩
  rw [hset, pendingSum, hd.series, added, List.filterMap_cons, hnone]
  exact (zero_add _).trans (add_zero _).symm

/-- Whether what was pending was given away in a set, so that nothing of it is left. -/
structure Gives (choose : Descriptor → Option Aggregator) (r : Relabelling) (resource : Resource)
    (set : CheckpointSet) (c d : Controller) : Prop where
  tidy : Tidy choose r resource [] d
  start : c.accumulator.now ≤ set.stop
  stop : d.accumulator.now = set.stop + 1
  pending : ∀ k, Tallied choose k → pendingSum r k c.accumulator ≤ k.1.numberKind.highest →
    sumOf ⟨k.1, k.2, resource⟩ [set] = pendingSum r k c.accumulator

theorem Tidy.collect_of_not_proceeds (h : Tidy choose r resource ds c) (cx : Context)
    (hgo : ∀ errors,
      ¬Accumulator.Proceeds (c.limited cx c.collectTimeout) c.accumulator.tick errors) :
    (c.collect cx).2 = .error (.error .cancelled) ∧ Leaves c (c.collect cx).1 := by
  obtain ⟨past, htracks⟩ := h.tracks
  have hc := Controller.collect_of_not_proceeds rfl htracks.intact h.upkept.intact hgo
  rw [afterCallbacks_of_none (a := c.accumulator.tick) h.observers, htracks.cancelled] at hc
  rw [hc]
  exact ⟨rfl, rfl, _, _, _, rfl, Nat.le_succ _⟩

section
variable (hnew : ∀ d g, choose d = some g → Aggregator.IsNew d g)
include hnew

/-- A collection that gets to its sweep gives what was pending and leaves nothing of it. -/
theorem Tidy.collect_of_proceeds (h : Tidy choose r resource ds c) (cx : Context)
    {errors : List MetricsError}
    (hp : Accumulator.Proceeds (c.limited cx c.collectTimeout) c.accumulator.tick errors) :
    ∃ set, (c.collect cx).2 = .ok set ∧ Gives choose r resource set c (c.collect cx).1 := by
  obtain ⟨past, htracks⟩ := h.tracks
  have hticked : Upkept choose ds c.accumulator.tick :=
    h.upkept.same ⟨rfl, rfl, rfl, rfl, rfl⟩ rfl
  have hcalled := afterCallbacks_of_none (a := c.accumulator.tick) h.observers
    (c.limited cx c.collectTimeout)
  obtain ⟨swept, events, p, set, hcleared, hc, hnext, hset⟩ :=
    htracks.collect_of_made hnew rfl hp (by rw [hcalled]; exact hticked.distinct)
      (by rw [hcalled]; exact hticked.allMade)
  rw [hcalled] at hcleared hset
  rw [show c.accumulator.tick.resource = resource from h.resource] at hset
  have hstop := stop_of_collect (congrArg Prod.snd hc)
  refine ⟨set, congrArg Prod.snd hc, ?_, ?_, hstop, fun k hk hfits => ?_⟩
  · rw [hc]
    exact ⟨⟨_, hnext⟩, hticked.sweep hnew hcleared _ _,
      hcleared.setup.resource.trans h.resource, hcleared.observers.trans h.observers⟩
  · rw [hc] at hstop
    have hnow : swept.now = c.accumulator.now + 1 := hcleared.now
    rw [← show swept.now = set.stop from Nat.succ.inj hstop, hnow]
    exact Nat.le_succ _
  · have hvalue := hset.value ⟨k.1, k.2, resource⟩
    rw [Processor.expected_delta (by rw [hk.counter]; rfl)] at hvalue
    rw [sumOf_singleton, CheckpointSet.sum?, hvalue]
    exact hticked.merged_eq_pendingSum hk.sum hk.unsigned hfits resource

theorem Tidy.collect (h : Tidy choose r resource ds c) (cx : Context) :
    ((c.collect cx).2 = .error (.error .cancelled) ∧ Leaves c (c.collect cx).1) ∨
      ∃ set, (c.collect cx).2 = .ok set ∧ Gives choose r resource set c (c.collect cx).1 := by
  by_cases hgo : ∃ errors,
      Accumulator.Proceeds (c.limited cx c.collectTimeout) c.accumulator.tick errors
  · obtain ⟨errors, hp⟩ := hgo
    exact .inr (h.collect_of_proceeds hnew cx hp)
  · exact .inl (h.collect_of_not_proceeds cx (not_exists.mp hgo))

theorem Tidy.record (h : Tidy choose r resource ds c) (m : Measurement) :
    Balanced choose r resource (.act (.record m)) c (operate (.act (.record m)) c) := by
  have hmeasured := Accumulator.measured_record h.upkept.selector m
  have hcounted := h.upkept.allMade.counted_record h.upkept.selector m
  refine ⟨⟨_, h.tracks, h.upkept.record hnew m, hmeasured.setup.resource.trans h.resource,
    hmeasured.observers.trans h.observers⟩, ?_, by simp [outcome?, collectionOf, prepared],
    fun k hk hsat => ?_⟩
  · exact le_of_le_of_eq (Nat.le_add_right _ _) (congrArg Stamp.time hcounted.stamp).symm
  · have hfits : r.key m.key = k → m.isAccepted = true → held (seek m.key c.accumulator.series) +
        k.1.numberKind.toInt m.number ≤ k.1.numberKind.highest := by
      intro hkey haccepted
      have hfirst := (Bool.or_eq_false_iff.mp hsat).1
      simpa [Operation.measured?, hkey, haccepted] using hfirst
    have hpending := h.upkept.pendingSum_record hnew hk.sum hk.unsigned hfits
    simpa [outcome?, collectionOf, prepared, sumOf, added, Operation.measured?, operate, act]
      using hpending

theorem Tidy.balanced_of_prepared (h : Tidy choose r resource ds c) {operation : Operation}
    (hnone : operation.measured? = none) {c' : Controller} {cx : Context}
    (hprepared : prepared operation c = some (c', cx)) (hc : Leaves c c')
    (hd : Settled operation.outlet cx (c'.collect cx) d) :
    Balanced choose r resource operation c d := by
  have hleaves := hd.leaves
  have hadded (k : SeriesKey) : added r k [operation] = 0 := by
    rw [added, List.filterMap_cons, hnone]
    rfl
  have hpending (k : SeriesKey) : pendingSum r k c'.accumulator = pendingSum r k c.accumulator := by
    rw [pendingSum, hc.series]
    rfl
  obtain ⟨hcancelled, hkept⟩ | ⟨set, hset, htidy, hstart, hstop, hgiven⟩ :=
    (h.leaves hc).collect hnew cx
  · have houtcome : outcome? operation c = none := by
      rw [outcome?_of_prepared hprepared, hcancelled]
      rfl
    exact h.balanced_of_leaves hnone houtcome ((hc.trans hkept).trans hleaves)
  · have houtcome : outcome? operation c = some (operation.outlet, set) := by
      rw [outcome?_of_prepared hprepared, hset]
      rfl
    have hbefore : set.stop < d.accumulator.now :=
      (Nat.lt_of_lt_of_eq (Nat.lt_succ_self _) hstop.symm).trans_le hleaves.now
    have hfrom : c.accumulator.now ≤ set.stop := hc.now.trans hstart
    refine ⟨⟨[], htidy.leaves hleaves⟩, hfrom.trans hbefore.le, ?_, fun k hk hsat => ?_⟩
    · simpa [houtcome] using ⟨hfrom, hbefore⟩
    · have hfits : pendingSum r k c'.accumulator ≤ k.1.numberKind.highest := by
        rw [hpending]
        simpa [saturates, hnone, houtcome] using hsat
      have hzero : pendingSum r k d.accumulator = 0 :=
        (htidy.leaves hleaves).upkept.pendingSum_eq_zero hk.sum (by rw [hk.unsigned]; decide)
      rw [houtcome, hadded, hzero, add_zero, add_zero, ← hpending, ← hgiven k hk hfits]
      rfl

theorem Tidy.operate (h : Tidy choose r resource ds c) {operation : Operation}
    (hregister : ∀ descriptors calls, operation ≠ .act (.register descriptors calls)) :
    Balanced choose r resource operation c (operate operation c) := by
  by_cases hmeasured : ∃ m, operation = .act (.record m)
  · obtain ⟨m, rfl⟩ := hmeasured
    exact h.record hnew m
  have hnone : operation.measured? = none := by
    cases operation with
    | act action =>
      cases action with
      | record m => exact absurd ⟨m, rfl⟩ hmeasured
      | _ => rfl
    | _ => rfl
  obtain ⟨action, rfl, hprepared⟩ | ⟨hprepared, haside⟩ | ⟨c', cx, hprepared, haside, hsettled⟩ :=
    operate_cases operation c
  · refine h.balanced_of_leaves hnone (outcome?_of_not_prepared hprepared) ?_
    cases action with
    | record m => cases hnone
    | register descriptors calls => exact absurd rfl (hregister descriptors calls)
    | await elapsed flags => exact ⟨rfl, _, _, _, rfl, Nat.le_add_right _ _⟩
    | collect cx => cases hprepared
  · exact h.balanced_of_leaves hnone (outcome?_of_not_prepared hprepared) haside.leaves
  · exact h.balanced_of_prepared hnew hnone hprepared haside.leaves hsettled

/-! ## Runs -/

/-- Over a run, what is given away of a counter and what is then pending is what was pending and
what the run adds, and every set is finished after the one before. -/
theorem Tidy.run (h : Tidy choose r resource ds c) {operations : List Operation}
    (hregister : ∀ operation ∈ operations, ∀ descriptors calls,
      operation ≠ .act (.register descriptors calls)) :
    (∃ ds, Tidy choose r resource ds (operateAll operations c)) ∧
      (∀ x ∈ outcomes operations c, c.accumulator.now ≤ x.2.stop) ∧
      (outcomes operations c).Pairwise (·.2.stop < ·.2.stop) ∧
      ∀ k, Tallied choose k → staysInRange r k operations c = true →
        sumOf ⟨k.1, k.2, resource⟩ ((outcomes operations c).map (·.2)) +
            pendingSum r k (operateAll operations c).accumulator =
          pendingSum r k c.accumulator + added r k operations := by
  induction operations generalizing ds c with
  | nil =>
    refine ⟨⟨ds, h⟩, by simp [outcomes], List.Pairwise.nil, fun k _ _ => ?_⟩
    exact (zero_add _).trans (add_zero _).symm
  | cons operation operations ih =>
    obtain ⟨hfirst, hrest⟩ := List.forall_mem_cons.mp hregister
    obtain ⟨⟨ds', htidy⟩, hnow, hstop, hbalance⟩ := h.operate hnew hfirst
    obtain ⟨hend, hfrom, hpairwise, hbalances⟩ := ih htidy hrest
    refine ⟨hend, fun x hx => ?_, ?_, fun k hk hsat => ?_⟩
    · obtain hx | hx := List.mem_append.mp hx
      · exact (hstop x hx).1
      · exact hnow.trans (hfrom x hx)
    · refine List.pairwise_append.mpr ⟨?_, hpairwise, fun x hx y hy => ?_⟩
      · cases outcome? operation c <;> simp
      · exact (hstop x hx).2.trans_le (hfrom y hy)
    · obtain ⟨hone, hothers⟩ := Bool.and_eq_true_iff.mp hsat
      have hstep := hbalance k hk (by simpa using hone)
      have hsteps := hbalances k hk hothers
      rw [outcomes, List.map_append, sumOf_append, added_cons]
      have hall : operateAll (operation :: operations) c =
          operateAll operations (Controller.operate operation c) := rfl
      rw [hall]
      omega

/-- A worker that is stopped without an error leaves nothing pending. -/
theorem Tidy.stop (h : Tidy choose r resource ds c) (hworker : c.worker = some .running)
    (hok : c.stop.2 = .ok ()) : Tidy choose r resource [] c.stop.1 := by
  have hprepared : prepared .stop c = some (c.log .exportingDueToShutdown, .unlimited) := by
    rw [prepared, hworker]
  have haside : Aside c (c.log .exportingDueToShutdown) := aside_log c _
  obtain ⟨action, h', -⟩ | ⟨hnone, -⟩ | ⟨c', cx, hsome, -, hsettled⟩ := operate_cases .stop c
  · cases h'
  · cases hprepared.symm.trans hnone
  · obtain ⟨rfl, rfl⟩ := Prod.mk.inj (Option.some.inj (hprepared.symm.trans hsome))
    obtain ⟨hcancelled, -⟩ | ⟨set, -, hgives⟩ := (h.leaves haside.leaves).collect hnew .unlimited
    · rw [Controller.stop, hworker] at hok
      rcases hc : (c.log .exportingDueToShutdown).collect .unlimited with ⟨d, result⟩
      obtain rfl : result = .error (.error .cancelled) := by rw [← hcancelled, hc]
      simp [collectAndExport, hc] at hok
    · exact hgives.tidy.leaves hsettled.leaves

end

/-! ## The whole -/

theorem exportedSets_build (o : Options) (env : Environment) (selector : Selector)
    (select : TemporalitySelector) (filters : List LabelFilterSelector) (now : Time) :
    (build o env selector select filters now).accumulator.exportedSets = [] := by
  have hlogs : ∀ (entries : List LogEntry) (a : Accumulator),
      (entries.foldl Accumulator.log a).shipped = a.shipped := by
    intro entries
    induction entries with
    | nil => exact fun _ => rfl
    | cons entry entries ih => exact fun a => (ih _).trans (Accumulator.shipped_log a entry)
  exact Accumulator.exportedSets_congr (hlogs _ _)

theorem isNew_inexpensive (d : Descriptor) :
    Aggregator.IsNew d (SimpleSelector.inexpensive.aggregator d) := by
  have hcases : SimpleSelector.inexpensive.aggregator d = .newSum ∨
      SimpleSelector.inexpensive.aggregator d = .newLastValue ∨
      SimpleSelector.inexpensive.aggregator d = .newMinMaxSumCount d := by
    cases hkind : d.kind <;> simp [SimpleSelector.aggregator, hkind]
  obtain h | h | h := hcases
  · exact h ▸ Aggregator.isNew_newSum d
  · exact h ▸ Aggregator.isNew_newLastValue d
  · exact ⟨.minMaxSumCount, [], h⟩

theorem tidy_build (o : Options) (env : Environment) (choose : Descriptor → Option Aggregator)
    (keeps : List (Descriptor → Option (KeyValue → Bool))) (now : Time) :
    let start := build o env (.ofFunction choose) (Temporality.constant .delta)
      (keeps.map .ofPredicates) now
    Tidy choose (.ofAll keeps) start.resource [] start ∧ start.accumulator.series = [] := by
  intro start
  obtain ⟨events, ha⟩ : ∃ events, start.accumulator = _ := build_accumulator ..
  have hupkept : Upkept choose [] _ := Accumulator.upkept_new
    (o.resource.getD (.ofEnvironment env)) (o.idleCycles.getD 1) (now + 1)
  refine ⟨⟨⟨[], rfl, reduces_ofAll keeps, rfl, rfl, Processor.follows_new _ now, by simp⟩, ?_,
    ?_, ?_⟩, ?_⟩
  · rw [ha]
    exact hupkept.same ⟨rfl, rfl, rfl, rfl, rfl⟩ rfl
  all_goals
    rw [ha]
    rfl

/-- Whatever is counted, collected, exported, flushed, started and stopped, and however the exporter
answers: what the sets that are handed to the exporter and those that are returned say of a counter,
and what is then pending, is what was counted, as long as no sum is beyond the highest number. All
sets are different, and an exporter is called with each of those that are for it once. A worker that
is stopped without an error leaves nothing pending. -/
theorem counted_exported_once (o : Options) (env : Environment)
    (keeps : List (Descriptor → Option (KeyValue → Bool))) (now : Time)
    (operations : List Operation)
    (hregister : ∀ operation ∈ operations, ∀ descriptors calls,
      operation ≠ .act (.register descriptors calls)) :
    let start := build o env SimpleSelector.inexpensive.toSelector (Temporality.constant .delta)
      (keeps.map .ofPredicates) now
    let r := Relabelling.ofAll keeps
    let c := operateAll operations start
    let sets := outcomes operations start
    (∀ k : SeriesKey, k.1.kind = .counter → k.1.numberKind = .u64 →
      staysInRange r k operations start = true →
        sumOf ⟨k.1, k.2, start.resource⟩ (givenTo .exporter sets) +
            sumOf ⟨k.1, k.2, start.resource⟩ (givenTo .caller sets) +
            pendingSum r k c.accumulator =
          added r k operations) ∧
    (sets.Pairwise (·.2.stop < ·.2.stop) ∧
      ∀ reply description, o.exporter = some (.custom reply description) →
        c.accumulator.exportedSets = givenTo .exporter sets) ∧
    (c.worker = some .running → c.stop.2 = .ok () →
      (∀ s ∈ c.stop.1.accumulator.series, s.isPending = false) ∧
        ∀ k : SeriesKey, k.1.kind = .counter → k.1.numberKind = .u64 →
          pendingSum r k c.stop.1.accumulator = 0) := by
  intro start r c sets
  let choose : Descriptor → Option Aggregator := fun d =>
    some (SimpleSelector.inexpensive.aggregator d)
  have hnew : ∀ d g, choose d = some g → Aggregator.IsNew d g := by
    intro d g hg
    rw [← Option.some.inj hg]
    exact isNew_inexpensive d
  have hsum : ∀ k : SeriesKey, k.1.kind = .counter → choose k.1 = some .newSum := by
    intro k hkind
    simp [choose, SimpleSelector.aggregator, hkind]
  obtain ⟨htidy, hempty⟩ : Tidy choose r start.resource [] start ∧ start.accumulator.series = [] :=
    tidy_build o env choose keeps now
  obtain ⟨⟨ds, hend⟩, -, hpairwise, hbalance⟩ := htidy.run hnew hregister
  refine ⟨fun k hkind hk hrange => ?_, ⟨hpairwise, fun reply description hexporter => ?_⟩,
    fun hworker hok => ?_⟩
  · have hpending : pendingSum r k start.accumulator = 0 := by rw [pendingSum, hempty]; rfl
    rw [← sumOf_outcomes, hbalance k ⟨hkind, hsum k hkind, hk⟩ hrange, hpending, zero_add]
  · have hexported := exportedSets_operateAll (c := start) hexporter operations
    rwa [exportedSets_build, List.nil_append] at hexported
  · have hstopped := hend.stop hnew hworker hok
    exact ⟨hstopped.upkept.nothing_pending, fun k hkind hk =>
      hstopped.upkept.pendingSum_eq_zero (hsum k hkind) (by rw [hk]; decide)⟩

/-- Requests are counted under labels that are dropped. The exporter refuses the first two, which
the worker then does not hand over again, and three are returned. A collection is cancelled, so
that twelve are pending when the worker is stopped. -/
theorem counted_exported_once_requests :
    let requests : Descriptor := { name := "requests", kind := .counter, numberKind := .u64 }
    let k : SeriesKey := (requests, .empty)
    let add (n : Number) (path : String) : Operation :=
      .act (.record ⟨requests, n, .u64, .ofList [⟨"path", .string path⟩]⟩)
    let reply (request : ExportRequest) : Except Halt Unit :=
      if request.set.sum? ⟨requests, .empty, .empty⟩ = some 2 then
        .error (.error (.other (.described "refused")))
      else .ok ()
    let o : Options := { resource := some .empty, exporter := some (.custom reply "refusing") }
    let keeps : List (Descriptor → Option (KeyValue → Bool)) := [fun _ => some fun _ => false]
    let operations : List Operation :=
      [add ⟨2⟩ "/a", .start, .expire, add ⟨3⟩ "/a", .act (.collect .unlimited), add ⟨5⟩ "/a",
        .act (.collect { deadline := some 0 }), add ⟨7⟩ "/b"]
    let start := build o {} SimpleSelector.inexpensive.toSelector (Temporality.constant .delta)
      (keeps.map .ofPredicates) 0
    let c := operateAll operations start
    let sets := outcomes operations start
    (∀ operation ∈ operations, ∀ descriptors calls,
      operation ≠ .act (.register descriptors calls)) ∧
    staysInRange (.ofAll keeps) k operations start = true ∧
    (sumOf ⟨requests, .empty, .empty⟩ c.accumulator.exportedSets = 2 ∧
      sumOf ⟨requests, .empty, .empty⟩ (givenTo .caller sets) = 3 ∧
      pendingSum (.ofAll keeps) k c.accumulator = 12) ∧
    c.worker = some .running ∧ c.stop.2 = .ok () ∧
    pendingSum (.ofAll keeps) k c.stop.1.accumulator = 0 := by
  intro requests k add reply o keeps operations start c sets
  have hregister : ∀ operation ∈ operations, ∀ descriptors calls,
      operation ≠ .act (.register descriptors calls) := by simp [operations, add]
  obtain ⟨hbalance, ⟨-, hexported⟩, hstop⟩ :=
    counted_exported_once o {} keeps 0 operations hregister
  have hrange : staysInRange (.ofAll keeps) k operations start = true := by decide +kernel
  have hgiven : sumOf ⟨requests, .empty, .empty⟩ (givenTo .exporter sets) = 2 := by decide +kernel
  have hreturned : sumOf ⟨requests, .empty, .empty⟩ (givenTo .caller sets) = 3 := by
    decide +kernel
  have hadded : added (.ofAll keeps) k operations = 17 := by decide +kernel
  have hpending : 2 + 3 + pendingSum (.ofAll keeps) k c.accumulator = 17 := by
    rw [← hgiven, ← hreturned, ← hadded]
    exact hbalance k rfl rfl hrange
  have hworker : c.worker = some .running := by decide +kernel
  have hok : c.stop.2 = .ok () := by
    have hsome : c.stop.2.toOption = some () := by decide +kernel
    cases h : c.stop.2 with
    | ok _ => rfl
    | error cause => rw [h] at hsome; cases hsome
  have hexact : sumOf ⟨requests, .empty, .empty⟩ c.accumulator.exportedSets = 2 := by
    rw [hexported reply "refusing" rfl]
    exact hgiven
  have hzero : pendingSum (.ofAll keeps) k c.stop.1.accumulator = 0 := by
    dsimp only [c, start]
    exact (hstop hworker hok).2 k rfl rfl
  exact ⟨hregister, hrange, ⟨hexact, hreturned, by omega⟩, hworker, hok, hzero⟩

end Metering.Controller
