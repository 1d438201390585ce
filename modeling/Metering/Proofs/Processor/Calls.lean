import Mathlib
import Metering.Processor.Basic

/-!
# Runs of a processor

A run is a list of calls, each of which answers. A call that is refused changes nothing.
-/

namespace Metering.Processor

/-- A call of a processor; the end of a collection reads the clock. -/
inductive Call where
  | start
  | process (acc : Accumulation)
  | abort
  | finish (now : Time)

inductive Reply where
  | done
  | processed (result : Except MetricsError Unit)
  | finished (result : Except MetricsError CheckpointSet)

section
variable (select : TemporalitySelector)

/-- Hands an accumulation to the processor, which stays as it is if it cannot process it. -/
def offer (acc : Accumulation) (p : Processor) : Processor × Except MetricsError Unit :=
  match p.process select acc with
  | .ok p => (p, .ok ())
  | .error cause => (p, .error cause)

def call : Call → Processor → Processor × Reply
  | .start, p => (p.startCollection, .done)
  | .process acc, p => ((p.offer select acc).1, .processed (p.offer select acc).2)
  | .abort, p => (p.abortCollection, .done)
  | .finish now, p => ((p.finishCollection now).1, .finished (p.finishCollection now).2)

def run : List Call → Processor → Processor × List Reply
  | [], p => (p, [])
  | c :: cs, p =>
    let (q, reply) := call select c p
    let (q, replies) := run cs q
    (q, reply :: replies)

/-- Hands accumulations to the processor, one after the other. -/
def offerAll (batch : List Accumulation) (p : Processor) : Processor :=
  batch.foldl (fun p acc => (p.offer select acc).1) p

variable {select}

@[simp] theorem run_nil (p : Processor) : run select [] p = (p, []) := rfl

theorem run_cons (c : Call) (cs : List Call) (p : Processor) :
    run select (c :: cs) p =
      ((run select cs (call select c p).1).1,
        (call select c p).2 :: (run select cs (call select c p).1).2) := rfl

theorem run_append_fst (cs cs' : List Call) (p : Processor) :
    (run select (cs ++ cs') p).1 = (run select cs' (run select cs p).1).1 := by
  induction cs generalizing p with
  | nil => rfl
  | cons c cs ih => rw [List.cons_append, run_cons, run_cons, ih]

theorem run_process_fst (batch : List Accumulation) (p : Processor) :
    (run select (batch.map .process) p).1 = offerAll select batch p := by
  induction batch generalizing p with
  | nil => rfl
  | cons acc batch ih => rw [List.map_cons, run_cons, ih]; rfl

theorem offerAll_cons (acc : Accumulation) (batch : List Accumulation) (p : Processor) :
    offerAll select (acc :: batch) p = offerAll select batch (p.offer select acc).1 := rfl

end

/-! ## Single calls -/

section
variable {select : TemporalitySelector} {acc : Accumulation} {p : Processor}

theorem offer_of_not_collecting (h : p.isCollecting = false) :
    p.offer select acc = (p, .error .inconsistentState) := by
  simp [offer, process, h, throw, throwThe, MonadExceptOf.throw]

theorem offer_of_insert_error {cause : MetricsError} (h : p.isCollecting = true)
    (hi : insert select p.finished acc p.entries = .error cause) :
    p.offer select acc = (p, .error cause) := by
  simp [offer, process, h, hi, bind, Except.bind]

theorem offer_of_insert_ok {entries : List Entry} (h : p.isCollecting = true)
    (hi : insert select p.finished acc p.entries = .ok entries) :
    p.offer select acc = ({ p with entries }, .ok ()) := by
  simp [offer, process, h, hi, bind, Except.bind, pure, Except.pure]

/-- An accumulation is either taken in among the entries, or changes nothing. -/
theorem offer_cases (select : TemporalitySelector) (acc : Accumulation) (p : Processor) :
    (p.offer select acc).1 = p ∨ ∃ entries, p.isCollecting = true ∧
      insert select p.finished acc p.entries = .ok entries ∧
      p.offer select acc = ({ p with entries }, .ok ()) := by
  cases h : p.isCollecting with
  | false => exact .inl (by rw [offer_of_not_collecting h])
  | true =>
    cases hi : insert select p.finished acc p.entries with
    | error cause => exact .inl (by rw [offer_of_insert_error h hi])
    | ok entries => exact .inr ⟨entries, rfl, rfl, offer_of_insert_ok h hi⟩

/-- A processor at the end of its collection. After an entry that fails, the others are left as
they are. -/
def closed (p : Processor) : Processor :=
  { p with entries := (settleAll p.finished p.entries).1, finished := p.finished + 1 }

theorem finishCollection_of_not_collecting (now : Time) (h : p.isCollecting = false) :
    p.finishCollection now = (p, .error .inconsistentState) := by
  simp [finishCollection, h]

theorem finishCollection_of_error (now : Time) {cause : MetricsError} (h : p.isCollecting = true)
    (hs : (settleAll p.finished p.entries).2 = .error cause) :
    p.finishCollection now = (p.closed, .error cause) := by
  simp [finishCollection, h, hs, closed]

theorem finishCollection_of_ok (now : Time) (h : p.isCollecting = true)
    (hs : (settleAll p.finished p.entries).2 = .ok ()) :
    p.finishCollection now = ({ p.closed with intervalStart := now },
      .ok ⟨p.closed.records p.finished now, p.intervalStart, now⟩) := by
  simp [finishCollection, h, hs, closed]

theorem finishCollection_cases (now : Time) (p : Processor) :
    (p.isCollecting = false ∧ p.finishCollection now = (p, .error .inconsistentState)) ∨
    (p.isCollecting = true ∧ ∃ cause, (settleAll p.finished p.entries).2 = .error cause ∧
      p.finishCollection now = (p.closed, .error cause)) ∨
    (p.isCollecting = true ∧ (settleAll p.finished p.entries).2 = .ok () ∧
      p.finishCollection now = ({ p.closed with intervalStart := now },
        .ok ⟨p.closed.records p.finished now, p.intervalStart, now⟩)) := by
  cases h : p.isCollecting with
  | false => exact .inl ⟨rfl, finishCollection_of_not_collecting now h⟩
  | true =>
    cases hs : (settleAll p.finished p.entries).2 with
    | error cause => exact .inr (.inl ⟨rfl, cause, rfl, finishCollection_of_error now h hs⟩)
    | ok _ => exact .inr (.inr ⟨rfl, rfl, finishCollection_of_ok now h hs⟩)

theorem finishCollection_entries (now : Time) (p : Processor) :
    (p.finishCollection now).1.entries = p.entries ∨
      (p.finishCollection now).1.entries = (settleAll p.finished p.entries).1 := by
  obtain ⟨-, hfinish⟩ | ⟨-, cause, -, hfinish⟩ | ⟨-, -, hfinish⟩ := finishCollection_cases now p
  · exact .inl (by rw [hfinish])
  · exact .inr (by rw [hfinish, closed])
  · exact .inr (by rw [hfinish, closed])

end

end Metering.Processor
