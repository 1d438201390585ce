import Metering.Proofs.Accumulator.Traces
import Metering.Proofs.Controller.Brackets

/-!
# Where checkpoint sets go

An operation of a controller makes at most one collection, and the set that this ends with is
returned to the caller or handed to the exporter, once. Nothing else is ever exported.
-/

namespace Metering

/-- The sets that exporters of the program were called with, in order. -/
def Accumulator.exportedSets (a : Accumulator) : List CheckpointSet :=
  a.events.filterMap fun
    | .exported request => some request.set
    | _ => none

theorem Accumulator.exportedSets_congr {a b : Accumulator} (h : b.shipped = a.shipped) :
    b.exportedSets = a.exportedSets := by
  have hfilter : ∀ c : Accumulator, c.exportedSets = c.shipped.filterMap fun
      | .exported request => some request.set
      | _ => none := by
    intro c
    rw [exportedSets, shipped, List.filterMap_filter]
    refine List.filterMap_congr fun e _ => ?_
    cases e <;> rfl
  rw [hfilter, hfilter, h]

namespace Controller

/-- To whom a checkpoint set is given. -/
inductive Outlet where
  | caller
  | exporter
  deriving DecidableEq

def Operation.outlet : Operation → Outlet
  | .act _ => .caller
  | _ => .exporter

/-- The controller and the context with which an operation collects, if it does. -/
def prepared : Operation → Controller → Option (Controller × Context)
  | .act (.collect cx), c | .export cx, c => some (c, cx)
  | .act _, _ | .start, _ => none
  | .expire, c =>
    match c.worker with
    | some .running => some (c, .unlimited)
    | _ => none
  | .flush, c =>
    match c.worker with
    | none => some (c, .unlimited)
    | some .panicked => none
    | some .running => some (c.log .exportingDueToFlush, .unlimited)
  | .stop, c =>
    match c.worker with
    | some .running => some (c.log .exportingDueToShutdown, .unlimited)
    | _ => none

/-- The collection that an operation makes, if it makes one. -/
def collectionOf (operation : Operation) (c : Controller) :
    Option (Controller × Except Halt CheckpointSet) :=
  (prepared operation c).map fun (c, cx) => c.collect cx

/-- The checkpoint set of an operation, if it comes to one, and to whom it is given. -/
def outcome? (operation : Operation) (c : Controller) : Option (Outlet × CheckpointSet) :=
  (collectionOf operation c).bind fun (_, result) =>
    result.toOption.map (operation.outlet, ·)

/-- All checkpoint sets of a run, in order. -/
def outcomes : List Operation → Controller → List (Outlet × CheckpointSet)
  | [], _ => []
  | operation :: operations, c =>
    (outcome? operation c).toList ++ outcomes operations (operate operation c)

/-- The checkpoint sets that were given to someone. -/
def givenTo (outlet : Outlet) (sets : List (Outlet × CheckpointSet)) : List CheckpointSet :=
  (sets.filter (·.1 = outlet)).map (·.2)

variable {c c' d : Controller} {cx : Context} {operation : Operation}

/-! ## One operation -/

/-- What a controller does besides collecting and exporting: its worker changes, and something is
logged or reported. -/
def Aside (c d : Controller) : Prop :=
  ∃ worker events, d = { c with accumulator := { c.accumulator with events }, worker } ∧
    d.accumulator.shipped = c.accumulator.shipped

theorem Aside.refl (c : Controller) : Aside c c := ⟨_, _, rfl, rfl⟩

theorem aside_worker (c : Controller) (worker : Option Worker) : Aside c { c with worker } :=
  ⟨_, _, rfl, rfl⟩

theorem aside_log (c : Controller) (entry : LogEntry) : Aside c (c.log entry) :=
  ⟨_, _, rfl, Accumulator.shipped_log _ entry⟩

theorem aside_report (c : Controller) (cause : MetricsError) : Aside c (c.report cause) :=
  ⟨_, _, rfl, Accumulator.shipped_report _ cause⟩

theorem Aside.trans {e : Controller} (h : Aside c d) (h' : Aside d e) : Aside c e := by
  obtain ⟨worker, events, rfl, hc⟩ := h
  obtain ⟨worker', events', rfl, hd⟩ := h'
  exact ⟨worker', events', rfl, hd.trans hc⟩

theorem Aside.checkpointer (h : Aside c d) : d.checkpointer = c.checkpointer := by
  obtain ⟨worker, events, rfl, -⟩ := h
  rfl

theorem Aside.exporter (h : Aside c d) : d.exporter = c.exporter := by
  obtain ⟨worker, events, rfl, -⟩ := h
  rfl

theorem Aside.accumulator (h : Aside c d) :
    ∃ events, d.accumulator = { c.accumulator with events } := by
  obtain ⟨worker, events, rfl, -⟩ := h
  exact ⟨events, rfl⟩

theorem Aside.shipped (h : Aside c d) : d.accumulator.shipped = c.accumulator.shipped :=
  h.choose_spec.choose_spec.2

/-- What an operation does with the set of its collection, or where that fails. -/
inductive Settled (outlet : Outlet) (cx : Context) :
    Controller × Except Halt CheckpointSet → Controller → Prop where
  | failed {c halt d} (h : Aside c d) : Settled outlet cx (c, .error halt) d
  | returned {c set d} (ho : outlet = .caller) (h : Aside c d) : Settled outlet cx (c, .ok set) d
  | exported {c set d} (ho : outlet = .exporter) (h : Aside (c.export? cx set).1 d) :
    Settled outlet cx (c, .ok set) d

theorem settled_collectAndExport (c : Controller) (cx : Context) :
    Settled .exporter cx (c.collect cx) (c.collectAndExport cx).1 := by
  rw [Controller.collectAndExport]
  rcases c.collect cx with ⟨c', halt | set⟩
  · exact .failed (.refl c')
  · exact .exported rfl (.refl _)

theorem Settled.aside {outlet : Outlet} {collected : Controller × Except Halt CheckpointSet}
    (h : Settled outlet cx collected c) (h' : Aside c d) : Settled outlet cx collected d := by
  cases h with
  | failed h => exact .failed (h.trans h')
  | returned ho h => exact .returned ho (h.trans h')
  | exported ho h => exact .exported ho (h.trans h')

/-- Whether an operation collects and gives away the set, or has no part in collecting. -/
def Operated (operation : Operation) (c : Controller) : Prop :=
  (prepared operation c = none ∧ Aside c (operate operation c)) ∨
    ∃ c' cx, prepared operation c = some (c', cx) ∧ Aside c c' ∧
      Settled operation.outlet cx (c'.collect cx) (operate operation c)

theorem operated_expire (c : Controller) : Operated .expire c := by
  cases hw : c.worker with
  | none => exact .inl ⟨by simp [prepared, hw], by simp [operate, expire, hw, Aside.refl]⟩
  | some worker =>
    cases worker with
    | panicked => exact .inl ⟨by simp [prepared, hw], by simp [operate, expire, hw, Aside.refl]⟩
    | running =>
      refine .inr ⟨c, .unlimited, by simp [prepared, hw], .refl c, ?_⟩
      have hsettled := settled_collectAndExport c .unlimited
      simp only [operate, expire, hw]
      rcases hc : c.collectAndExport .unlimited with ⟨c', (cause | cause) | _⟩
      all_goals rw [hc] at hsettled
      · exact hsettled.aside (aside_report c' cause)
      · exact hsettled.aside (aside_worker c' _)
      · exact hsettled

theorem operated_flush (c : Controller) : Operated .flush c := by
  cases hw : c.worker with
  | none =>
    refine .inr ⟨c, .unlimited, by simp [prepared, hw], .refl c, ?_⟩
    simp only [operate, flush, hw]
    exact settled_collectAndExport c .unlimited
  | some worker =>
    cases worker with
    | panicked => exact .inl ⟨by simp [prepared, hw], by simp [operate, flush, hw, Aside.refl]⟩
    | running =>
      refine .inr ⟨c.log .exportingDueToFlush, .unlimited, by simp [prepared, hw],
        aside_log c _, ?_⟩
      have hsettled := settled_collectAndExport (c.log .exportingDueToFlush) .unlimited
      simp only [operate, flush, hw]
      rcases hc : (c.log .exportingDueToFlush).collectAndExport .unlimited with
        ⟨c', (cause | cause) | _⟩
      all_goals rw [hc] at hsettled
      · exact hsettled
      · exact hsettled.aside (aside_worker c' _)
      · exact hsettled

theorem operated_stop (c : Controller) : Operated .stop c := by
  cases hw : c.worker with
  | none => exact .inl ⟨by simp [prepared, hw], by simp [operate, stop, hw, Aside.refl]⟩
  | some worker =>
    cases worker with
    | panicked =>
      refine .inl ⟨by simp [prepared, hw], ?_⟩
      simp only [operate, stop, hw]
      exact aside_worker c none
    | running =>
      refine .inr ⟨c.log .exportingDueToShutdown, .unlimited, by simp [prepared, hw],
        aside_log c _, ?_⟩
      have hsettled := settled_collectAndExport (c.log .exportingDueToShutdown) .unlimited
      simp only [operate, stop, hw]
      rcases hc : (c.log .exportingDueToShutdown).collectAndExport .unlimited with
        ⟨c', (cause | cause) | _⟩
      all_goals rw [hc] at hsettled
      · exact hsettled.aside ((aside_worker c' none).trans (aside_log _ _))
      · exact hsettled.aside (aside_worker c' none)
      · exact hsettled.aside ((aside_worker c' none).trans (aside_log _ _))

/-- An operation is another action of the program, or it collects and gives away the set, or it has
no part in collecting. -/
theorem operate_cases (operation : Operation) (c : Controller) :
    (∃ action, operation = .act action ∧ prepared operation c = none) ∨ Operated operation c := by
  cases operation with
  | act action =>
    cases action with
    | collect cx =>
      refine .inr (.inr ⟨c, cx, rfl, .refl c, ?_⟩)
      rw [operate, Controller.act]
      rcases c.collect cx with ⟨c', halt | set⟩
      · exact .failed (.refl c')
      · exact .returned rfl (.refl c')
    | _ => exact .inl ⟨_, rfl, rfl⟩
  | «export» cx => exact .inr (.inr ⟨c, cx, rfl, .refl c, settled_collectAndExport c cx⟩)
  | start =>
    refine .inr (.inl ⟨rfl, ?_⟩)
    rw [operate, Controller.start]
    split
    · exact .refl c
    · exact (aside_worker c _).trans (aside_log _ _)
  | expire => exact .inr (operated_expire c)
  | flush => exact .inr (operated_flush c)
  | stop => exact .inr (operated_stop c)

/-! ## Collecting and exporting -/

theorem shipped_reports (errors : List MetricsError) (c : Controller) :
    (errors.foldl report c).accumulator.shipped = c.accumulator.shipped := by
  induction errors generalizing c with
  | nil => rfl
  | cons error errors ih =>
    rw [List.foldl_cons, ih]
    exact Accumulator.shipped_report _ error

theorem shipped_collect (c : Controller) (cx : Context) :
    (c.collect cx).1.accumulator.shipped = c.accumulator.shipped := by
  rw [Controller.collect]
  split
  · rfl
  · have hswept := Accumulator.shipped_collect step (c.limited cx c.collectTimeout)
      c.tick.checkpointer.startCollection c.tick.accumulator
    rw [collectLocked]
    split
    all_goals
      next h =>
        rw [h] at hswept
        first
        | exact hswept
        | exact (Accumulator.shipped_log _ _).trans hswept
        | exact (shipped_reports _ _).trans ((Accumulator.shipped_log _ _).trans hswept)

theorem stop_of_finish {set : CheckpointSet} (h : c.finish.2 = .ok set) :
    c.finish.1.accumulator.now = set.stop + 1 := by
  have hfinished : (c.checkpointer.processor.finishCollection c.accumulator.now).2 = .ok set :=
    mapError_eq_ok.mp h
  obtain ⟨-, hfinish⟩ | ⟨-, cause, -, hfinish⟩ | ⟨-, -, hfinish⟩ :=
    Processor.finishCollection_cases c.accumulator.now c.checkpointer.processor
  · rw [hfinish] at hfinished
    cases hfinished
  · rw [hfinish] at hfinished
    cases hfinished
  · rw [hfinish] at hfinished
    rw [← Except.ok.inj hfinished]
    rfl

theorem stop_of_collect {set : CheckpointSet} (h : (c.collect cx).2 = .ok set) :
    (c.collect cx).1.accumulator.now = set.stop + 1 := by
  rw [Controller.collect] at h ⊢
  split at h
  · cases h
  next hp =>
    rw [if_neg hp]
    rw [collectLocked] at h ⊢
    split at h
    · exact stop_of_finish h
    · exact stop_of_finish h
    · cases h
    · cases h

theorem export?_eq (c : Controller) (cx : Context) (set : CheckpointSet) :
    ∃ exporter now events, (c.export? cx set).1 =
        { c with accumulator := { c.accumulator with now, events }, exporter } ∧
      c.accumulator.now ≤ now := by
  rw [Controller.export?]
  split
  · exact ⟨_, _, _, rfl, le_refl _⟩
  · have hlogged : ∃ events, (if set.isEmpty then c.log .noMetricsCollected else c) =
        { c with accumulator := { c.accumulator with events } } := by
      split
      · exact ⟨_, rfl⟩
      · exact ⟨_, rfl⟩
    obtain ⟨events, hlogged⟩ := hlogged
    rw [hlogged]
    dsimp only
    split
    next t _ =>
      cases hwritten : (t.publish c.resource set).2.1 with
      | none =>
        simp only [tick, hwritten]
        exact ⟨_, _, _, rfl, Nat.le_succ _⟩
      | some text =>
        simp only [tick, hwritten]
        exact ⟨_, _, _, rfl, Nat.le_succ _⟩
    · exact ⟨_, _, _, rfl, Nat.le_succ _⟩

theorem export?_custom {reply : ExportRequest → Except Halt Unit} {description : String}
    (h : c.exporter = some (.custom reply description)) (cx : Context) (set : CheckpointSet) :
    (c.export? cx set).1.exporter = c.exporter ∧
      (c.export? cx set).1.accumulator.exportedSets = c.accumulator.exportedSets ++ [set] := by
  rw [Controller.export?, h]
  dsimp only
  split
  · exact ⟨h, by simp [Accumulator.exportedSets, tick, emit, log, Accumulator.emit,
      Accumulator.tick]⟩
  · exact ⟨h, by simp [Accumulator.exportedSets, tick, emit, Accumulator.emit,
      Accumulator.tick]⟩

/-! ## Runs -/

theorem outcome?_of_prepared {c₀ : Controller} (h : prepared operation c₀ = some (c, cx)) :
    outcome? operation c₀ = (c.collect cx).2.toOption.map (operation.outlet, ·) := by
  rw [outcome?, collectionOf, h]
  rfl

theorem outcome?_of_not_prepared (h : prepared operation c = none) :
    outcome? operation c = none := by
  rw [outcome?, collectionOf, h]
  rfl

theorem exportedSets_operate {reply : ExportRequest → Except Halt Unit} {description : String}
    (h : c.exporter = some (.custom reply description)) (operation : Operation) :
    (operate operation c).exporter = c.exporter ∧
      (operate operation c).accumulator.exportedSets =
        c.accumulator.exportedSets ++ givenTo .exporter (outcome? operation c).toList := by
  obtain ⟨action, rfl, hnone⟩ | ⟨hnone, haside⟩ | ⟨c', cx, hprepared, haside, hsettled⟩ :=
    operate_cases operation c
  · rw [outcome?_of_not_prepared hnone, Option.toList_none, givenTo, List.filter_nil,
      List.map_nil, List.append_nil]
    cases action with
    | record m => exact ⟨rfl, Accumulator.exportedSets_congr (Accumulator.shipped_record _ m)⟩
    | register descriptors calls =>
      exact ⟨rfl, Accumulator.exportedSets_congr (Accumulator.shipped_register ..)⟩
    | await elapsed flags => exact ⟨rfl, rfl⟩
    | collect cx => cases hnone
  · rw [outcome?_of_not_prepared hnone]
    exact ⟨haside.exporter, by
      simpa [givenTo] using Accumulator.exportedSets_congr haside.shipped⟩
  · have hexporter := (collect_exporter c' cx).trans haside.exporter
    have hcollected := Accumulator.exportedSets_congr
      ((shipped_collect c' cx).trans haside.shipped)
    rw [outcome?_of_prepared hprepared]
    generalize c'.collect cx = collected at hsettled hexporter hcollected
    cases hsettled with
    | failed hd =>
      exact ⟨hd.exporter.trans hexporter, by
        simpa [givenTo, Except.toOption] using
          (Accumulator.exportedSets_congr hd.shipped).trans hcollected⟩
    | returned ho hd =>
      refine ⟨hd.exporter.trans hexporter, ?_⟩
      simpa [givenTo, Except.toOption, ho] using
        (Accumulator.exportedSets_congr hd.shipped).trans hcollected
    | exported ho hd =>
      obtain ⟨hsame, hsets⟩ := export?_custom (hexporter.trans h) cx _
      refine ⟨hd.exporter.trans (hsame.trans hexporter), ?_⟩
      rw [Accumulator.exportedSets_congr hd.shipped, hsets, hcollected, ho]
      rfl

theorem givenTo_append (outlet : Outlet) (sets sets' : List (Outlet × CheckpointSet)) :
    givenTo outlet (sets ++ sets') = givenTo outlet sets ++ givenTo outlet sets' := by
  simp [givenTo]

/-- An exporter of the program is called with the sets that operations give to it, once with
each. -/
theorem exportedSets_operateAll {reply : ExportRequest → Except Halt Unit} {description : String}
    (h : c.exporter = some (.custom reply description)) (operations : List Operation) :
    (operateAll operations c).accumulator.exportedSets =
      c.accumulator.exportedSets ++ givenTo .exporter (outcomes operations c) := by
  induction operations generalizing c with
  | nil => simp [operateAll, outcomes, givenTo]
  | cons operation operations ih =>
    obtain ⟨hexporter, hsets⟩ := exportedSets_operate h operation
    rw [outcomes, givenTo_append, ← List.append_assoc, ← hsets]
    exact ih (hexporter.trans h)

end Controller
end Metering
