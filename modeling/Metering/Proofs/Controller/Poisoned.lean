import Metering.Proofs.Controller.Outcomes

/-!
# After a panic of the processor

A panic that unwinds out of the processor leaves its lock poisoned. From then on a controller
without a worker refuses to collect, before any callback runs, so that nothing of the interrupted
collection comes out. Measurements are still taken in.
-/

namespace Metering.Controller

variable {c : Controller} {cx : Context} {operation : Operation}

/-! ## The panic -/

/-- The panic that comes out of the collection of an operation, if one does. -/
def panic? (operation : Operation) (c : Controller) : Option Panic :=
  (collectionOf operation c).bind fun
    | (_, .error (.panic cause)) => some cause
    | _ => none

theorem collectionOf_of_panic {cause : Panic} (h : panic? operation c = some cause) :
    ∃ d, collectionOf operation c = some (d, .error (.panic cause)) := by
  obtain ⟨⟨d, result⟩, hd, hcause⟩ := Option.bind_eq_some_iff.mp h
  split at hcause
  next heq =>
    obtain ⟨rfl, rfl⟩ := Prod.mk.inj heq
    obtain rfl := Option.some.inj hcause
    exact ⟨d, hd⟩
  · cases hcause

section
variable {σ : Type} {step : ProcessorStep σ} {cause : Panic}

theorem panic_of_checkpointSeries {s : LiveSeries} {p : σ} {a : Accumulator}
    (h : (Accumulator.checkpointSeries step s p a).2.2 = .error cause) :
    ∃ p acc, (step p acc).2.outcome = .error (.panic cause) := by
  rw [Accumulator.checkpointSeries] at h
  split at h
  · cases h
  · dsimp only at h
    split at h
    · cases h
    · cases h
    next hpanic =>
      obtain rfl := Except.error.inj h
      exact ⟨p, _, hpanic⟩

theorem panic_of_checkpointAll {found : List LiveSeries} {p : σ} {a : Accumulator}
    (h : (Accumulator.checkpointAll step found p a).2.2 = .error cause) :
    ∃ p acc, (step p acc).2.outcome = .error (.panic cause) := by
  induction found generalizing p a with
  | nil => cases h
  | cons f found ih =>
    rw [Accumulator.checkpointAll] at h
    dsimp only at h
    split at h
    next hpanic =>
      obtain rfl := Except.error.inj h
      exact panic_of_checkpointSeries (congrArg (·.2.2) hpanic)
    next b q n _ =>
      cases hrest : (Accumulator.checkpointAll step found q
          (Accumulator.markCollected f b)).2.2 with
      | ok total =>
        rw [hrest] at h
        cases h
      | error cause' =>
        rw [hrest] at h
        obtain rfl := Except.error.inj h
        exact ih hrest

theorem panic_of_sweep {p : σ} {a : Accumulator}
    (h : (Accumulator.sweep step p a).2.2 = .error cause) :
    ∃ p acc, (step p acc).2.outcome = .error (.panic cause) := by
  rw [Accumulator.sweep] at h
  split at h
  next hpanic =>
    obtain rfl := Except.error.inj h
    exact panic_of_checkpointAll (congrArg (·.2.2) hpanic)
  · cases h

end

/-- A panic that comes out of a collection is one of the processor. No callback can cause it. -/
theorem panic_of_processor {cause : Panic} (h : (c.collect cx).2 = .error (.panic cause)) :
    ∃ (p : Checkpointer) (acc : Accumulation), (p.process acc).2 = .error (.panic cause) := by
  have hfinish : ∀ d : Controller, d.finish.2 ≠ .error (.panic cause) := by
    intro d hd
    rw [finish] at hd
    dsimp only at hd
    cases hresult : (d.checkpointer.finishCollection d.accumulator.now).2 <;>
      simp [hresult, Except.mapError] at hd
  rw [Controller.collect] at h
  split at h
  · cases h
  · rw [collectLocked] at h
    split at h
    · exact absurd h (hfinish _)
    · exact absurd h (hfinish _)
    · cases h
    next hpanic =>
      obtain rfl : _ = cause := by simpa using h
      have hswept := congrArg (·.2.2) hpanic
      obtain ⟨hc, -⟩ | ⟨hc, -⟩ | ⟨-, -, -, ⟨n, errors, -, -, hc⟩ | ⟨cause', hsweep, hc⟩⟩ :=
        Accumulator.collect_cases (c.limited cx c.collectTimeout) step
          c.tick.checkpointer.startCollection c.tick.accumulator
      · simp [hc] at hswept
      · simp [hc] at hswept
      · simp only [hc] at hswept
        split at hswept <;> simp at hswept
      · obtain rfl : cause' = _ := by simpa [hc] using hswept
        exact panic_of_sweep hsweep

theorem poisoned_of_panic {cause : Panic} (h : (c.collect cx).2 = .error (.panic cause)) :
    (c.collect cx).1.checkpointer.isPoisoned = true ∧ (c.collect cx).1.worker = c.worker := by
  cases hp : c.checkpointer.isPoisoned with
  | true =>
    rw [collect_of_poisoned cx hp] at h
    cases h
  | false =>
    obtain ⟨now, events, p, hc, hend⟩ := collect_ends cx hp
    rw [hc]
    refine ⟨?_, rfl⟩
    rw [h] at hend
    generalize hresult : (Except.error (.panic cause) : Except Halt CheckpointSet) = result at hend
    cases hend with
    | finished now =>
      cases hfinished : ((c.accumulator.tick.collect (c.limited cx c.collectTimeout) step
        c.checkpointer.startCollection).2.1.finishCollection now).2 with
      | error e =>
        rw [hfinished] at hresult
        cases hresult
      | ok set =>
        rw [hfinished] at hresult
        cases hresult
    | aborted => cases hresult
    | panicked => rfl

theorem operate_of_panic (hworker : c.worker = none) {cause : Panic}
    (h : panic? operation c = some cause) :
    ∃ cx, operate operation c = (c.collect cx).1 ∧ (c.collect cx).2 = .error (.panic cause) := by
  obtain ⟨d, hd⟩ := collectionOf_of_panic h
  have hexport : ∀ cx, (c.collect cx).2 = .error (.panic cause) →
      (c.collectAndExport cx).1 = (c.collect cx).1 := by
    intro cx hpanic
    rw [collectAndExport, show c.collect cx = ((c.collect cx).1, .error (.panic cause)) from
      Prod.ext rfl hpanic]
  cases operation with
  | act action =>
    cases action with
    | collect cx => exact ⟨cx, rfl, congrArg Prod.snd (Option.some.inj hd)⟩
    | _ => cases hd
  | «export» cx =>
    have hpanic := congrArg Prod.snd (Option.some.inj hd)
    exact ⟨cx, hexport cx hpanic, hpanic⟩
  | flush =>
    simp only [collectionOf, prepared, hworker, Option.map_some] at hd
    have hpanic := congrArg Prod.snd (Option.some.inj hd)
    refine ⟨.unlimited, ?_, hpanic⟩
    rw [operate, flush, hworker]
    exact hexport .unlimited hpanic
  | start => cases hd
  | expire | stop => simp [collectionOf, prepared, hworker] at hd

theorem outcome?_of_panic {cause : Panic} (h : panic? operation c = some cause) :
    outcome? operation c = none := by
  obtain ⟨d, hd⟩ := collectionOf_of_panic h
  rw [outcome?, hd]
  rfl

/-! ## What is left -/

/-- What an operation does where the lock is poisoned and there is no worker: it measures,
registers or lets time pass. -/
def Operation.spared : Operation → Accumulator → Accumulator
  | .act (.record m), a => a.record m
  | .act (.register descriptors calls), a => (a.register descriptors calls).1
  | .act (.await elapsed flags), a => { a with now := a.now + elapsed, flags }
  | .act (.collect _), a | .export _, a | .flush, a => a.tick
  | .start, a | .expire, a | .stop, a => a

/-- Whether an operation records a measurement that is to be dropped. -/
def Operation.isRejected : Operation → Bool
  | .act (.record m) => !m.isAccepted
  | _ => false

theorem collectAndExport_of_poisoned (cx : Context) (hp : c.checkpointer.isPoisoned = true) :
    c.collectAndExport cx = (c.tick, .error (.error .poisoned)) := by
  rw [collectAndExport, collect_of_poisoned cx hp]

section
variable (hp : c.checkpointer.isPoisoned = true) (hworker : c.worker = none)
include hp hworker

theorem flush_of_poisoned : c.flush = (c.tick, .error (.error .poisoned)) := by
  rw [flush, hworker]
  exact collectAndExport_of_poisoned _ hp

theorem operate_of_poisoned (hstart : operation ≠ .start) :
    operate operation c = { c with accumulator := operation.spared c.accumulator } ∧
      outcome? operation c = none := by
  cases operation with
  | act action =>
    cases action with
    | collect cx =>
      have hprepared : prepared (.act (.collect cx)) c = some (c, cx) := rfl
      rw [operate, act, outcome?_of_prepared hprepared, collect_of_poisoned cx hp]
      exact ⟨rfl, rfl⟩
    | _ => exact ⟨rfl, rfl⟩
  | «export» cx =>
    have hprepared : prepared (.export cx) c = some (c, cx) := rfl
    rw [operate, outcome?_of_prepared hprepared, collectAndExport_of_poisoned cx hp,
      collect_of_poisoned cx hp]
    exact ⟨rfl, rfl⟩
  | start => exact absurd rfl hstart
  | expire =>
    have hstays : c.expire = c := by rw [expire, hworker]
    rw [operate, hstays, outcome?_of_not_prepared (by rw [prepared, hworker])]
    exact ⟨rfl, rfl⟩
  | flush =>
    have hprepared : prepared .flush c = some (c, .unlimited) := by
      rw [prepared, hworker]
    rw [operate, flush_of_poisoned hp hworker, outcome?_of_prepared hprepared,
      collect_of_poisoned _ hp]
    exact ⟨rfl, rfl⟩
  | stop =>
    have hstays : c.stop = (c, .ok ()) := by rw [stop, hworker]
    rw [operate, hstays, outcome?_of_not_prepared (by rw [prepared, hworker])]
    exact ⟨rfl, rfl⟩

theorem operateAll_of_poisoned {operations : List Operation}
    (hstart : ∀ o ∈ operations, o ≠ .start) :
    operateAll operations c =
        { c with accumulator := operations.foldl (fun a o => o.spared a) c.accumulator } ∧
      outcomes operations c = [] := by
  induction operations generalizing c with
  | nil => exact ⟨rfl, rfl⟩
  | cons operation operations ih =>
    obtain ⟨hfirst, hrest⟩ := List.forall_mem_cons.mp hstart
    obtain ⟨hone, hnone⟩ := operate_of_poisoned hp hworker hfirst
    obtain ⟨hall, hnothing⟩ := ih (c := operate operation c) (by rwa [hone]) (by rwa [hone]) hrest
    refine ⟨?_, ?_⟩
    · rw [operateAll, List.foldl_cons, ← operateAll, hall, hone]
      rfl
    · rw [outcomes, hnone, hnothing]
      rfl

end

/-- What is left of an operation calls no callback, exports nothing and drops rejected
measurements only. -/
theorem spared_facts (operation : Operation) (a : Accumulator) :
    (∃ new, (operation.spared a).observers = a.observers ++ new ∧ ∀ o ∈ new, o.called = 0) ∧
      (operation.spared a).shipped = a.shipped ∧
      (operation.spared a).dropped = a.dropped + if operation.isRejected then 1 else 0 := by
  have hsame : ∀ b : Accumulator, b.observers = a.observers →
      ∃ new, b.observers = a.observers ++ new ∧ ∀ o ∈ new, o.called = 0 :=
    fun b hb => ⟨[], by rw [hb, List.append_nil], by simp⟩
  cases operation with
  | act action =>
    cases action with
    | record m =>
      refine ⟨hsame _ (a.observers_record m), a.shipped_record m, ?_⟩
      rw [Operation.spared, a.dropped_record, Operation.isRejected]
      cases m.isAccepted <;> rfl
    | register descriptors calls =>
      refine ⟨?_, a.shipped_register descriptors calls, ?_⟩
      · rw [Operation.spared, Accumulator.register]
        split
        · exact hsame _ rfl
        · exact ⟨_, rfl, by simp⟩
      · rw [Operation.spared, Accumulator.register]
        split <;> rfl
    | await elapsed flags => exact ⟨hsame _ rfl, rfl, rfl⟩
    | collect cx => exact ⟨hsame _ rfl, rfl, rfl⟩
  | _ => exact ⟨hsame _ rfl, rfl, rfl⟩

theorem spared_run (operations : List Operation) (a : Accumulator) :
    let b := operations.foldl (fun a o => o.spared a) a
    (∃ new, b.observers = a.observers ++ new ∧ ∀ o ∈ new, o.called = 0) ∧
      b.shipped = a.shipped ∧ b.dropped = a.dropped + operations.countP (·.isRejected) := by
  induction operations generalizing a with
  | nil => exact ⟨⟨[], (List.append_nil _).symm, by simp⟩, rfl, rfl⟩
  | cons operation operations ih =>
    obtain ⟨⟨new, hnew, hcalled⟩, hshipped, hdropped⟩ := spared_facts operation a
    obtain ⟨⟨new', hnew', hcalled'⟩, hshipped', hdropped'⟩ := ih (operation.spared a)
    rw [List.foldl_cons]
    refine ⟨⟨new ++ new', ?_, ?_⟩, hshipped'.trans hshipped, ?_⟩
    · rw [hnew', hnew, List.append_assoc]
    · exact fun o ho => (List.mem_append.mp ho).elim (hcalled o) (hcalled' o)
    · rw [hdropped', hdropped, List.countP_cons, Nat.add_assoc, Nat.add_comm (ite _ _ _)]

/-! ## The whole -/

/-- A controller without a worker collects, and the processor panics. Whatever is done from then
on, short of starting a worker, every collection, export and flush is refused for the poisoned
lock: no callback runs, the processor is not called, nothing is exported, and there is no
checkpoint set any more, also not of the interrupted collection. Measurements are taken in as
before, and those that are in range are not dropped. -/
theorem closed_after_panic (c : Controller) (hworker : c.worker = none) (operation : Operation)
    (cause : Panic) (hpanic : panic? operation c = some cause) (rest : List Operation)
    (hstart : ∀ o ∈ rest, o ≠ .start) :
    let c₁ := operate operation c
    let c₂ := operateAll rest c₁
    ((∀ cx, c₂.collect cx = (c₂.tick, .error (.error .poisoned)) ∧
        c₂.collectAndExport cx = (c₂.tick, .error (.error .poisoned))) ∧
      c₂.flush = (c₂.tick, .error (.error .poisoned))) ∧
    c₂ = { c₁ with accumulator := rest.foldl (fun a o => o.spared a) c₁.accumulator } ∧
    (∃ new, c₂.accumulator.observers = c₁.accumulator.observers ++ new ∧
      ∀ o ∈ new, o.called = 0) ∧
    (outcomes (operation :: rest) c = [] ∧ c₂.exporter = c.exporter ∧
      c₂.accumulator.shipped = c.accumulator.shipped) ∧
    c₂.accumulator.dropped = c₁.accumulator.dropped + rest.countP (·.isRejected) ∧
    ∀ m : Measurement, m.isAccepted = true →
      ∀ s, (c₂.accumulator.acquire m.descriptor m.labels).2 = some s →
        s.key = m.key ∧
          s.add m.number c₂.accumulator.stamp ∈ (c₂.accumulator.record m).series := by
  intro c₁ c₂
  obtain ⟨cx, hc₁, hresult⟩ := operate_of_panic hworker hpanic
  obtain ⟨hpoisoned, hkept⟩ := poisoned_of_panic hresult
  have hexporter : c₁.exporter = c.exporter :=
    (congrArg Controller.exporter hc₁).trans (collect_exporter c cx)
  have hshipped₁ : c₁.accumulator.shipped = c.accumulator.shipped :=
    (congrArg (·.accumulator.shipped) hc₁).trans (shipped_collect c cx)
  rw [← hc₁] at hpoisoned hkept
  have hworker₁ : c₁.worker = none := hkept.trans hworker
  obtain ⟨hc₂, hnothing⟩ := operateAll_of_poisoned hpoisoned hworker₁ hstart
  obtain ⟨hobservers, hshipped, hdropped⟩ := spared_run rest c₁.accumulator
  have haccumulator : c₂.accumulator = rest.foldl (fun a o => o.spared a) c₁.accumulator :=
    congrArg Controller.accumulator hc₂
  have hpoisoned₂ : c₂.checkpointer.isPoisoned = true :=
    (congrArg (·.checkpointer.isPoisoned) hc₂).trans hpoisoned
  have hworker₂ : c₂.worker = none := (congrArg Controller.worker hc₂).trans hworker₁
  rw [← haccumulator] at hobservers hshipped hdropped
  refine ⟨⟨fun cx => ⟨collect_of_poisoned cx hpoisoned₂,
    collectAndExport_of_poisoned cx hpoisoned₂⟩, flush_of_poisoned hpoisoned₂ hworker₂⟩, hc₂,
    hobservers, ⟨?_, (congrArg Controller.exporter hc₂).trans hexporter,
    hshipped.trans hshipped₁⟩, hdropped, fun m hm s hs => Accumulator.record_adds hm hs⟩
  rw [outcomes, outcome?_of_panic hpanic, hnothing]
  rfl

/-- Requests are counted, and the label filter panics at the first of them. The next one is counted
all the same, but neither is exported. -/
theorem closed_after_panic_requests :
    let requests : Descriptor := { name := "requests", kind := .counter, numberKind := .u64 }
    let path : LabelSet := .ofList [⟨"path", .string "/a"⟩]
    let filter : LabelFilterSelector := fun _ => some (.panickingAt ["path"] .untyped .all)
    let c := operateAll [.act (.record ⟨requests, ⟨2⟩, .u64, path⟩)]
      (build { resource := some .empty } {} SimpleSelector.inexpensive.toSelector
        (Temporality.constant .delta) [filter] 0)
    let rest : List Operation := [.act (.record ⟨requests, ⟨3⟩, .u64, .empty⟩), .flush]
    c.worker = none ∧
      panic? (.export .unlimited) c = some .untyped ∧
      outcomes (.export .unlimited :: rest) c = [] ∧
      (operateAll rest (operate (.export .unlimited) c)).accumulator.dropped = 0 := by
  intro requests path filter c rest
  have hpanic : panic? (.export .unlimited) c = some .untyped := by decide +kernel
  obtain ⟨-, -, -, ⟨hnone, -⟩, hdropped, -⟩ :=
    closed_after_panic c rfl (.export .unlimited) .untyped hpanic rest (by simp [rest])
  have hcounted : (operate (.export .unlimited) c).accumulator.dropped +
      rest.countP (·.isRejected) = 0 := by decide +kernel
  exact ⟨rfl, hpanic, hnone, hdropped.trans hcounted⟩

example : MetricsError.poisoned.variant = "Other" ∧ MetricsError.poisoned.message =
    "Metrics error: poisoned lock: another task failed inside" := ⟨rfl, rfl⟩

end Metering.Controller
