import Metering.Proofs.Accumulator.Persistence
import Metering.Proofs.Controller.Reduction
import Metering.Proofs.Processor.Brackets
import Metering.Proofs.Processor.Persistence

/-!
# How collections end

Whatever the callbacks, the label filters and the processor do, a collection that takes the lock is
finished, aborted or ended by a panic.
-/

namespace Metering

/-! ## The processor's side -/

theorem LabelFilterSelector.reduce_eq_ok {select : LabelFilterSelector} {acc acc' : Accumulation}
    (h : reduce select acc = .ok acc') : ∃ r, acc' = acc.relabel r := by
  rw [reduce] at h
  split at h
  · exact ⟨.keep, (Except.ok.inj h).symm⟩
  next keep _ =>
    cases hfilter : acc.series.labels.filterM keep with
    | error cause => simp [hfilter, Except.map] at h
    | ok labels =>
      rw [hfilter] at h
      exact ⟨fun _ _ => labels, (Except.ok.inj h).symm⟩

theorem LabelFilterSelector.reduceAll_eq_ok {selects : List LabelFilterSelector}
    {acc acc' : Accumulation} (h : reduceAll selects acc = .ok acc') :
    ∃ r, acc' = acc.relabel r := by
  induction selects generalizing acc with
  | nil => exact ⟨.keep, (Except.ok.inj h).symm⟩
  | cons select selects ih =>
    rw [reduceAll, List.foldlM_cons] at h
    cases hone : reduce select acc with
    | error cause =>
      rw [hone] at h
      cases h
    | ok acc₁ =>
      rw [hone] at h
      obtain ⟨r, rfl⟩ := reduce_eq_ok hone
      obtain ⟨r', rfl⟩ := ih h
      exact ⟨r.andThen r', rfl⟩

/-- A checkpointer offers what it is handed to its processor, under some labels, unless a filter
panics. -/
theorem Controller.step_cases (p : Checkpointer) (acc : Accumulation) :
    (step p acc).1 = p ∨ ∃ r, (step p acc).1 =
      { p with processor := (p.processor.offer p.temporality (acc.relabel r)).1 } := by
  cases hreduce : LabelFilterSelector.reduceAll p.filters acc with
  | error cause =>
    left
    simp only [step, Checkpointer.process, hreduce]
  | ok acc' =>
    obtain ⟨r, rfl⟩ := LabelFilterSelector.reduceAll_eq_ok hreduce
    refine .inr ⟨r, ?_⟩
    simp only [step, Checkpointer.process, hreduce, Processor.offer]
    cases p.processor.process p.temporality (acc.relabel r) <;> rfl

theorem Controller.allHave_step {P : Descriptor → Aggregator → Prop} (hP : KeptByMerge P)
    (p : Checkpointer) (acc : Accumulation) (hacc : P acc.series.descriptor acc.aggregator)
    (h : p.processor.AllHave P) : (step p acc).1.processor.AllHave P := by
  obtain hp | ⟨r, hp⟩ := step_cases p acc
  · rwa [hp]
  · rw [hp]
    exact h.offer hP hacc

/-! ## The accumulator's side -/

theorem Accumulator.collect_error {σ : Type} {cx : Context} {step : ProcessorStep σ} {p : σ}
    {a : Accumulator} {cause : MetricsError}
    (h : (collect cx step p a).2.2 = .error (.error cause)) : cause ≠ .inconsistentState := by
  obtain ⟨hc, -⟩ | ⟨hc, -⟩ | ⟨-, -, -, ⟨n, errors, -, -, hc⟩ | ⟨cause, -, hc⟩⟩ :=
    collect_cases cx step p a
  · rw [hc] at h
    cases h
    exact MetricsError.noConfusion
  · rw [hc] at h
    cases h
    exact MetricsError.noConfusion
  · rw [hc] at h
    simp only at h
    split at h
    · cases h
    · cases h
      exact MetricsError.noConfusion
  · rw [hc] at h
    cases h

/-! ## The end -/

namespace Controller

/-- How a collection may end for its checkpointer, and with which answer. -/
inductive Ending (p : Checkpointer) : Checkpointer → Except Halt CheckpointSet → Prop where
  | finished (now : Time) :
    Ending p (p.finishCollection now).1 ((p.finishCollection now).2.mapError .error)
  | aborted (cause : MetricsError) (h : cause ≠ .inconsistentState) :
    Ending p p.abortCollection.1 (.error (.error cause))
  | panicked (cause : Panic) : Ending p { p with isPoisoned := true } (.error (.panic cause))

theorem mapError_eq_ok {x : Except MetricsError CheckpointSet} {set : CheckpointSet} :
    x.mapError Halt.error = .ok set ↔ x = .ok set := by
  cases x <;> simp [Except.mapError]

theorem mapError_eq_error {x : Except MetricsError CheckpointSet} {cause : MetricsError} :
    x.mapError Halt.error = .error (.error cause) ↔ x = .error cause := by
  cases x <;> simp [Except.mapError]

variable {c : Controller} {cx : Context}

/-- A collection under the lock sweeps the accumulator, and ends. -/
theorem collect_ends (cx : Context) (hp : c.checkpointer.isPoisoned = false) :
    let swept := c.accumulator.tick.collect (c.limited cx c.collectTimeout) step
      c.checkpointer.startCollection
    ∃ now events p,
      (c.collect cx).1 =
        { c with accumulator := { swept.1 with now, events }, checkpointer := p } ∧
      Ending swept.2.1 p (c.collect cx).2 := by
  intro swept
  have hcollect : c.collect cx = c.tick.collectLocked (c.limited cx c.collectTimeout) := by
    simp only [Controller.collect, tick, hp, Bool.false_eq_true, if_false]
  have hlocked : c.accumulator.tick.collect (c.limited cx c.collectTimeout) step
      c.checkpointer.startCollection = swept := rfl
  rw [hcollect, collectLocked]
  simp only [tick, hlocked]
  rcases hswept : swept with ⟨a, p, (cause | cause) | n⟩
  · cases cause with
    | partialCollection checkpointed errors =>
      obtain ⟨events, hreport⟩ := foldl_report_eq errors
        ((({ c with accumulator := a, checkpointer := p } : Controller)).log
          (.partialCollection checkpointed errors.length))
      simp only
      rw [hreport]
      exact ⟨a.now + 1, events, _, rfl, .finished a.now⟩
    | _ =>
      refine ⟨a.now, _, _, rfl, .aborted _ ?_⟩
      exact Accumulator.collect_error (congrArg (·.2.2) hswept)
  · exact ⟨a.now, a.events, _, rfl, .panicked cause⟩
  · exact ⟨a.now + 1, a.events, _, rfl, .finished a.now⟩

theorem collect_of_poisoned (cx : Context) (hp : c.checkpointer.isPoisoned = true) :
    c.collect cx = (c.tick, .error (.error .poisoned)) := by
  simp [Controller.collect, tick, hp]

theorem collect_collectTimeout (c : Controller) (cx : Context) :
    (c.collect cx).1.collectTimeout = c.collectTimeout := by
  cases hp : c.checkpointer.isPoisoned with
  | true => rw [collect_of_poisoned cx hp, tick]
  | false =>
    obtain ⟨now, events, p, hc, -⟩ := collect_ends cx hp
    rw [hc]

/-- A collection under the lock keeps what all aggregators have, and ends for a checkpointer that
has what accumulations keep. -/
theorem collect_keeps {selector : Selector} {P : Descriptor → Aggregator → Prop}
    {I : Checkpointer → Prop} (hP : selector.Persists P)
    (hI : ∀ p acc, P acc.series.descriptor acc.aggregator → I p → I (step p acc).1)
    (ha : c.accumulator.AllHave selector P) (hp : c.checkpointer.isPoisoned = false)
    (hstart : I c.checkpointer.startCollection) (cx : Context) :
    (c.collect cx).1.accumulator.AllHave selector P ∧ (c.collect cx).1.exporter = c.exporter ∧
      ∃ p, I p ∧ Ending p (c.collect cx).1.checkpointer (c.collect cx).2 := by
  have hticked : c.accumulator.tick.AllHave selector P := ha.same rfl rfl
  obtain ⟨hswept, hp'⟩ := hticked.collect hP hI (c.limited cx c.collectTimeout) hstart
  obtain ⟨now, events, p, hc, hend⟩ := collect_ends cx hp
  rw [hc]
  exact ⟨hswept.same rfl rfl, rfl, _, hp', hend⟩

end Controller
end Metering
