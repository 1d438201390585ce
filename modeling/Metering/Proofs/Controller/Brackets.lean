import Metering.Proofs.Controller.Endings

/-!
# Collections are started and ended in turn

A controller starts a collection and then finishes or aborts it, also where the callbacks or the
processor fail. So its processor never refuses a call for there being no collection, or more than
one, unless a panic left the lock poisoned, after which the processor is not called any more.
-/

namespace Metering

/-- Whether an exporter never answers with the error for an inconsistent processor by itself. -/
def Exporter.Impartial : Exporter → Prop
  | .text t => ∀ f ∈ t.formatter, ∀ lines, f lines ≠ .error .inconsistentState
  | .custom reply _ => ∀ request, reply request ≠ .error (.error .inconsistentState)

theorem ExportLine.ofRecord_error {encoder : LabelEncoder} {timestamps : Bool}
    {resource : Resource} {record : Record} :
    ofRecord encoder timestamps resource record ≠ .error .inconsistentState := by
  intro h
  rw [ofRecord] at h
  cases ha : record.aggregator with
  | lastValue last =>
    cases last <;>
      simp [ha, Aggregator.reading?, bind, Except.bind, Except.map, pure, Except.pure] at h
  | _ => simp [ha, Aggregator.reading?, bind, Except.bind, pure, Except.pure] at h

theorem TextExporter.format_error {t : TextExporter} {resource : Resource} {set : CheckpointSet}
    (h : (Exporter.text t).Impartial) : t.format resource set ≠ .error .inconsistentState := by
  have hlines : ∀ records : List Record,
      records.mapM (ExportLine.ofRecord t.encoder t.timestamps resource) ≠
        .error .inconsistentState := by
    intro records
    induction records with
    | nil => intro h; cases h
    | cons record records ih =>
      intro h
      rw [List.mapM_cons] at h
      obtain h | ⟨line, -, h⟩ := Processor.bind_eq_error h
      · exact ExportLine.ofRecord_error h
      · obtain h | ⟨lines, -, h⟩ := Processor.bind_eq_error h
        · exact ih h
        · cases h
  intro hformat
  rw [format] at hformat
  obtain hformat | ⟨lines, -, hformat⟩ := Processor.bind_eq_error hformat
  · exact hlines _ hformat
  · split at hformat
    next f hf => exact h f hf lines hformat
    next => cases hformat

theorem Exporter.Impartial.publish {t : TextExporter} (h : (Exporter.text t).Impartial)
    (resource : Resource) (set : CheckpointSet) :
    (Exporter.text (t.publish resource set).1).Impartial := by
  have hformatter : (t.publish resource set).1.formatter = t.formatter := by
    rw [TextExporter.publish]
    repeat' split
    all_goals rfl
  intro f hf
  exact h f (hformatter ▸ hf)

theorem Writer.write_error (w : Writer) (text : String) :
    (w.write text).2 ≠ .error (.error .inconsistentState) := by
  rw [write]
  repeat' split
  all_goals simp

theorem TextExporter.publish_error {t : TextExporter} {resource : Resource} {set : CheckpointSet}
    (h : (Exporter.text t).Impartial) :
    (t.publish resource set).2.2 ≠ .error (.error .inconsistentState) := by
  rw [publish]
  cases hformat : t.format resource set with
  | error cause =>
    intro heq
    obtain rfl : cause = .inconsistentState := by simpa using heq
    exact TextExporter.format_error h hformat
  | ok text =>
    simp only
    split
    · simp [MetricsError.poisoned]
    · have hwrite := t.writer.write_error text
      split
      next => simp
      next hresult =>
        rw [hresult] at hwrite
        exact hwrite

namespace Controller

open Processor (Open openStarts)

/-! ## What happens to a controller -/

/-- What a program and a worker may do with a controller. -/
inductive Operation where
  | act (action : Action)
  | export (cx : Context)
  | start
  | expire
  | flush
  | stop

def operate : Operation → Controller → Controller
  | .act action, c => act action c
  | .export cx, c => (c.collectAndExport cx).1
  | .start, c => c.start.1
  | .expire, c => c.expire
  | .flush, c => c.flush.1
  | .stop, c => c.stop.1

def operateAll (operations : List Operation) (c : Controller) : Controller :=
  operations.foldl (fun c operation => operate operation c) c

/-- A property of the checkpointer and the exporter that a collection keeps, and an export. -/
structure Kept (I : Controller → Prop) : Prop where
  same : ∀ {c c' : Controller}, I c → c'.checkpointer = c.checkpointer →
    c'.exporter = c.exporter → I c'
  collect : ∀ {c}, I c → ∀ cx, I (c.collect cx).1
  export? : ∀ {c}, I c → ∀ cx set, I (c.export? cx set).1

variable {I : Controller → Prop} {c : Controller}

theorem Kept.collectAndExport (hI : Kept I) (h : I c) (cx : Context) :
    I (c.collectAndExport cx).1 := by
  have hcollected := hI.collect h cx
  rw [Controller.collectAndExport]
  rcases hc : c.collect cx with ⟨c', halt | set⟩
  · rwa [hc] at hcollected
  · rw [hc] at hcollected
    exact hI.export? hcollected cx set

theorem Kept.operate (hI : Kept I) (h : I c) (operation : Operation) : I (operate operation c) := by
  cases operation with
  | act action =>
    cases action with
    | collect cx => exact hI.collect h cx
    | _ => exact hI.same h rfl rfl
  | «export» cx => exact hI.collectAndExport h cx
  | start =>
    rw [Controller.operate, Controller.start]
    split <;> exact hI.same h rfl rfl
  | expire =>
    rw [Controller.operate, Controller.expire]
    split
    · have hexpired := hI.collectAndExport h .unlimited
      split
      all_goals
        next hc =>
          rw [hc] at hexpired
          exact hI.same hexpired rfl rfl
    · exact h
  | flush =>
    rw [Controller.operate, Controller.flush]
    split
    · exact hI.collectAndExport h .unlimited
    · exact h
    · have hlogged : I (c.log .exportingDueToFlush) := hI.same h rfl rfl
      have hflushed := hI.collectAndExport hlogged .unlimited
      split
      all_goals
        next hc =>
          rw [hc] at hflushed
          exact hI.same hflushed rfl rfl
  | stop =>
    rw [Controller.operate, Controller.stop]
    split
    · exact h
    · exact hI.same h rfl rfl
    · have hlogged : I (c.log .exportingDueToShutdown) := hI.same h rfl rfl
      have hstopped := hI.collectAndExport hlogged .unlimited
      split
      all_goals
        next hc =>
          rw [hc] at hstopped
          exact hI.same hstopped rfl rfl

theorem Kept.operateAll (hI : Kept I) (h : I c) (operations : List Operation) :
    I (operateAll operations c) := by
  induction operations generalizing c with
  | nil => exact h
  | cons operation operations ih => exact ih (hI.operate h operation)

/-! ## Collecting -/

theorem open_step {starts : Nat} (p : Checkpointer) (acc : Accumulation)
    (h : Open starts p.processor) : Open starts (step p acc).1.processor := by
  obtain hp | ⟨r, hp⟩ := step_cases p acc
  · rwa [hp]
  · rw [hp]
    exact h.offer _

theorem Ending.brackets {p q : Checkpointer} {result : Except Halt CheckpointSet}
    (h : Ending p q result) (hp : Open 1 p.processor) :
    (q.isPoisoned = true ∨ Open 0 q.processor) ∧ result ≠ .error (.error .inconsistentState) := by
  cases h with
  | finished now =>
    refine ⟨.inr (hp.finish now), fun hrefused => ?_⟩
    have hcollecting := hp.isCollecting_iff.mpr rfl
    rw [(Processor.finishCollection_refused_iff now).mp (mapError_eq_error.mp hrefused)]
      at hcollecting
    cases hcollecting
  | aborted cause hcause =>
    refine ⟨.inr ?_, by simpa using hcause⟩
    simp [Open, Checkpointer.abortCollection, Processor.abortCollection]
  | panicked cause => exact ⟨.inl rfl, by simp⟩

/-- Whether the processor has no open collection, or is not called any more. -/
def Bracketed (c : Controller) : Prop :=
  c.checkpointer.isPoisoned = true ∨ Open 0 c.checkpointer.processor

theorem Bracketed.collect (h : Bracketed c) (cx : Context) :
    Bracketed (c.collect cx).1 ∧ (c.collect cx).2 ≠ .error (.error .inconsistentState) := by
  cases hp : c.checkpointer.isPoisoned with
  | true =>
    rw [collect_of_poisoned cx hp]
    exact ⟨h, by simp [MetricsError.poisoned]⟩
  | false =>
    have hidle : Open 0 c.checkpointer.processor := h.resolve_left (by simp [hp])
    have hopen : Open 1 c.checkpointer.startCollection.processor := hidle.start
    obtain ⟨-, -, p, hswept, hend⟩ := collect_keeps (P := fun _ _ => True)
      ⟨fun _ => trivial, fun _ _ _ => trivial, fun _ _ _ => ⟨trivial, trivial⟩⟩
      (fun p acc _ => open_step p acc) ⟨rfl, fun s _ => ⟨trivial, trivial⟩⟩ hp hopen cx
    exact hend.brackets hswept

/-! ## Exporting -/

/-- Whether the exporter never gives the answer of an inconsistent processor. -/
def Impartial (c : Controller) : Prop := ∀ e ∈ c.exporter, e.Impartial

theorem collect_exporter (c : Controller) (cx : Context) :
    (c.collect cx).1.exporter = c.exporter := by
  cases hp : c.checkpointer.isPoisoned with
  | true =>
    rw [collect_of_poisoned cx hp]
    rfl
  | false =>
    obtain ⟨now, events, p, hc, -⟩ := collect_ends cx hp
    rw [hc]

theorem export?_cases (c : Controller) (cx : Context) (set : CheckpointSet) :
    (c.export? cx set).1.checkpointer = c.checkpointer ∧
      ((c.export? cx set).1.exporter = c.exporter ∨ ∃ t resource, c.exporter = some (.text t) ∧
        (c.export? cx set).1.exporter = some (.text (t.publish resource set).1)) := by
  rw [Controller.export?]
  cases he : c.exporter with
  | none => exact ⟨rfl, .inl he⟩
  | some exporter =>
    obtain ⟨d, hd, hcheckpointer, hexporter⟩ : ∃ d : Controller,
        (if set.isEmpty then c.log .noMetricsCollected else c) = d ∧
          d.checkpointer = c.checkpointer ∧ d.exporter = c.exporter := by
      refine ⟨_, rfl, ?_⟩
      split <;> exact ⟨rfl, rfl⟩
    simp only [hd]
    cases exporter with
    | text t =>
      cases hwritten : (t.publish d.resource set).2.1 with
      | none =>
        simp only [tick, hwritten]
        exact ⟨hcheckpointer, .inr ⟨t, d.resource, rfl, rfl⟩⟩
      | some text =>
        simp only [tick, hwritten]
        exact ⟨hcheckpointer, .inr ⟨t, d.resource, rfl, rfl⟩⟩
    | custom reply description => exact ⟨hcheckpointer, .inl (hexporter.trans he)⟩

theorem Impartial.export? (h : Impartial c) (cx : Context) (set : CheckpointSet) :
    Impartial (c.export? cx set).1 := by
  intro e he
  obtain ⟨-, hsame | ⟨t, resource, ht, hpublished⟩⟩ := export?_cases c cx set
  · exact h e (hsame ▸ he)
  · rw [hpublished] at he
    obtain rfl := Option.some.inj he
    exact (h _ ht).publish resource set

theorem Impartial.export?_ne (h : Impartial c) (cx : Context) (set : CheckpointSet) :
    (c.export? cx set).2 ≠ .error (.error .inconsistentState) := by
  rw [Controller.export?]
  cases he : c.exporter with
  | none => simp
  | some exporter =>
    have himpartial := h exporter he
    cases exporter with
    | text t => exact TextExporter.publish_error himpartial
    | custom reply description => exact himpartial _

theorem Bracketed.collectAndExport_ne (h : Bracketed c) (himpartial : Impartial c)
    (cx : Context) : (c.collectAndExport cx).2 ≠ .error (.error .inconsistentState) := by
  have hresult := (h.collect cx).2
  have hcollected : Impartial (c.collect cx).1 := by
    rw [Impartial, collect_exporter]
    exact himpartial
  rw [Controller.collectAndExport]
  rcases hc : c.collect cx with ⟨c', halt | set⟩
  · rw [hc] at hresult
    simpa using hresult
  · rw [hc] at hcollected
    exact hcollected.export?_ne cx set

/-! ## Runs -/

theorem kept_bracketed : Kept Bracketed where
  same h hcheckpointer _ := by rwa [Bracketed, hcheckpointer]
  collect h cx := (h.collect cx).1
  export? h cx set := by rwa [Bracketed, (export?_cases _ cx set).1]

theorem kept_impartial : Kept Impartial where
  same h _ hexporter := by rwa [Impartial, hexporter]
  collect h cx := by rwa [Impartial, collect_exporter]
  export? h cx set := h.export? cx set

/-- After any calls of a processor, accumulations and the end of a collection are refused if and
only if the number of collections started since the last end is not one, which counters of
sixty-four bits can tell, and a refused call changes nothing. So a controller never answers that
its processor is inconsistent, whatever it was made to do before, unless its exporter does. -/
theorem refused_iff_openStarts_ne_one (select : TemporalitySelector) (created : Time)
    (calls : List Processor.Call) (hcalls : calls.length < 2 ^ 64) (o : Options)
    (env : Environment) (selector : Selector) (filters : List LabelFilterSelector)
    (operations : List Operation) :
    let done := Processor.run select calls (.new created)
    let starts := openStarts (calls.zip done.2)
    let c := operateAll operations (build o env selector select filters created)
    ((∀ acc, (done.1.offer select acc).2 = .error .inconsistentState ↔ starts ≠ 1) ∧
      (∀ now, (done.1.finishCollection now).2 = .error .inconsistentState ↔ starts ≠ 1) ∧
      (∀ call, (Processor.call select call done.1).2.isRefusal = true →
        (Processor.call select call done.1).1 = done.1) ∧
      (UInt64.ofInt done.1.started = UInt64.ofInt done.1.finished + 1 ↔ starts = 1)) ∧
    ∀ cx, (c.collect cx).2 ≠ .error (.error .inconsistentState) ∧
      ((∀ e ∈ o.exporter, e.Impartial) →
        (c.collectAndExport cx).2 ≠ .error (.error .inconsistentState)) := by
  intro done starts c
  have hopen : Open starts done.1 := Processor.open_run calls created
  have hstarts : starts ≤ calls.length :=
    (Processor.openStarts_le _).trans (by rw [List.length_zip]; exact Nat.min_le_left _ _)
  have hrefused : done.1.isCollecting = false ↔ starts ≠ 1 := by
    rw [← Bool.not_eq_true]
    exact not_congr hopen.isCollecting_iff
  have hbuilt : Bracketed (build o env selector select filters created) :=
    .inr (Processor.open_new created)
  have hc : Bracketed c := kept_bracketed.operateAll hbuilt operations
  refine ⟨⟨fun acc => ?_, fun now => ?_, fun call => Processor.call_of_refusal,
    hopen.wrapping_iff (by omega)⟩, fun cx => ⟨(hc.collect cx).2, fun hexporter => ?_⟩⟩
  · rw [Processor.offer_refused_iff, hrefused]
  · rw [Processor.finishCollection_refused_iff, hrefused]
  · have himpartial : Impartial (build o env selector select filters created) := hexporter
    exact hc.collectAndExport_ne (kept_impartial.operateAll himpartial operations) cx

/-- Collecting starts twice, and requests are counted by a controller that exports them. -/
theorem refused_iff_openStarts_ne_one_requests :
    let requests : Descriptor := { name := "requests", kind := .counter, numberKind := .u64 }
    let select := Temporality.constant .cumulative
    let acc : Accumulation := ⟨⟨requests, .empty, .empty⟩, .sum ⟨3⟩⟩
    let calls : List Processor.Call := [.start, .process acc, .start]
    let p := (Processor.run select calls (.new 0)).1
    let o : Options := { resource := some .empty, exporter := some (.text {}) }
    let c := operateAll [.act (.record ⟨requests, ⟨3⟩, .u64, .empty⟩), .start, .flush]
      (build o {} SimpleSelector.inexpensive.toSelector select [] 0)
    (p.offer select acc).2 = .error .inconsistentState ∧
      (p.finishCollection 1).2 = .error .inconsistentState ∧
      ∀ cx, (c.collectAndExport cx).2 ≠ .error (.error .inconsistentState) := by
  intro requests select acc calls p o c
  have himpartial : ∀ e ∈ o.exporter, e.Impartial := by
    intro e he
    obtain rfl := Option.some.inj he
    exact fun f hf => nomatch hf
  obtain ⟨⟨hoffer, hfinish, -, -⟩, hcollect⟩ := refused_iff_openStarts_ne_one select 0 calls
    (by decide) o {} SimpleSelector.inexpensive.toSelector []
    [.act (.record ⟨requests, ⟨3⟩, .u64, .empty⟩), .start, .flush]
  exact ⟨(hoffer acc).mpr (by decide), (hfinish 1).mpr (by decide),
    fun cx => (hcollect cx).2 himpartial⟩

end Controller
end Metering
