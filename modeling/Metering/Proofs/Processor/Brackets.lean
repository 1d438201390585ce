import Mathlib
import Metering.Proofs.Processor.Failure

/-!
# Starts and ends of collections

A processor counts the collections that were started and finished. The difference of the counters
is the number of starts since a collection was last ended, so a call that needs a collection is
refused exactly if that number is not one. Then it changes nothing.
-/

namespace Metering.Processor

variable {select : TemporalitySelector} {p : Processor}

/-- Whether a reply is that there is no collection, or more than one. -/
def Reply.isRefusal : Reply → Bool
  | .processed (.error .inconsistentState) | .finished (.error .inconsistentState) => true
  | _ => false

theorem Reply.isRefusal_processed {result : Except MetricsError Unit} :
    (Reply.processed result).isRefusal = true ↔ result = .error .inconsistentState := by
  cases result with
  | ok _ => simp [isRefusal]
  | error cause => cases cause <;> simp [isRefusal]

theorem Reply.isRefusal_finished {result : Except MetricsError CheckpointSet} :
    (Reply.finished result).isRefusal = true ↔ result = .error .inconsistentState := by
  cases result with
  | ok _ => simp [isRefusal]
  | error cause => cases cause <;> simp [isRefusal]

/-- The number of open starts after a call: an end that is refused leaves it as it is. -/
def startsAfter (starts : Nat) : Call × Reply → Nat
  | (.start, _) => starts + 1
  | (.process _, _) => starts
  | (.abort, _) => 0
  | (.finish _, reply) => if reply.isRefusal then starts else 0

/-- The number of collections started since the processor was made, a collection was aborted, or
the end of one was not refused. -/
def openStarts (transcript : List (Call × Reply)) : Nat := transcript.foldl startsAfter 0

theorem startsAfter_le (starts : Nat) (c : Call × Reply) : startsAfter starts c ≤ starts + 1 := by
  obtain ⟨c, reply⟩ := c
  cases c with
  | start => exact le_refl _
  | process acc => exact Nat.le_succ _
  | abort => exact Nat.zero_le _
  | finish now =>
    rw [startsAfter]
    split <;> omega

theorem openStarts_le (transcript : List (Call × Reply)) :
    openStarts transcript ≤ transcript.length := by
  induction transcript using List.reverseRecOn with
  | nil => exact le_refl _
  | append_singleton transcript c ih =>
    rw [openStarts, List.foldl_append, List.length_append]
    exact (startsAfter_le _ c).trans (Nat.succ_le_succ ih)

/-! ## Answers -/

theorem insert_error {c : Int} {acc : Accumulation} {es : List Entry} {cause : MetricsError}
    (h : insert select c acc es = .error cause) : cause ≠ .inconsistentState := by
  induction es with
  | nil => cases h
  | cons e es ih =>
    rw [insert] at h
    split at h
    · obtain h | ⟨e', -, h⟩ := bind_eq_error h
      · rw [receive] at h
        split at h
        · obtain h | ⟨current, -, h⟩ := bind_eq_error h
          · rintro rfl
            exact Aggregator.merge_ne_inconsistentState h
          · cases h
        · cases h
      · cases h
    · obtain h | ⟨es', -, h⟩ := bind_eq_error h
      · exact ih h
      · cases h

theorem offer_refused_iff (acc : Accumulation) :
    (p.offer select acc).2 = .error .inconsistentState ↔ p.isCollecting = false := by
  constructor
  · intro h
    by_contra hp
    rw [Bool.not_eq_false] at hp
    cases hi : insert select p.finished acc p.entries with
    | error cause =>
      rw [offer_of_insert_error hp hi] at h
      exact insert_error hi (Except.error.inj h)
    | ok entries =>
      rw [offer_of_insert_ok hp hi] at h
      cases h
  · intro hp
    rw [offer_of_not_collecting hp]

theorem finishCollection_refused_iff (now : Time) :
    (p.finishCollection now).2 = .error .inconsistentState ↔ p.isCollecting = false := by
  constructor
  · intro h
    by_contra hp
    rw [Bool.not_eq_false] at hp
    cases hs : (settleAll p.finished p.entries).2 with
    | error cause =>
      rw [finishCollection_of_error now hp hs] at h
      exact settleAll_error hs (Except.error.inj h)
    | ok _ =>
      rw [finishCollection_of_ok now hp hs] at h
      cases h
  · intro hp
    rw [finishCollection_of_not_collecting now hp]

/-- A call that is refused changes nothing. -/
theorem call_of_refusal {c : Call} (h : (call select c p).2.isRefusal = true) :
    (call select c p).1 = p := by
  cases c with
  | start => cases h
  | abort => cases h
  | process acc =>
    have hp := (offer_refused_iff acc).mp (Reply.isRefusal_processed.mp h)
    rw [call, offer_of_not_collecting hp]
  | finish now =>
    have hp := (finishCollection_refused_iff now).mp (Reply.isRefusal_finished.mp h)
    simp [call, finishCollection_of_not_collecting now hp]

/-! ## Counting -/

/-- A processor in which a number of starts are open. -/
def Open (starts : Nat) (p : Processor) : Prop := p.started = p.finished + starts

theorem Open.isCollecting_iff {starts : Nat} (h : Open starts p) :
    p.isCollecting = true ↔ starts = 1 := by
  rw [isCollecting, decide_eq_true_iff, h]
  omega

theorem offer_counters (select : TemporalitySelector) (acc : Accumulation) (p : Processor) :
    (p.offer select acc).1.started = p.started ∧ (p.offer select acc).1.finished = p.finished := by
  obtain hsame | ⟨entries, -, -, hoffer⟩ := offer_cases select acc p
  · rw [hsame]
    exact ⟨rfl, rfl⟩
  · rw [hoffer]
    exact ⟨rfl, rfl⟩

theorem finishCollection_counters (hp : p.isCollecting = true) (now : Time) :
    (p.finishCollection now).1.started = p.started ∧
      (p.finishCollection now).1.finished = p.finished + 1 := by
  cases hs : (settleAll p.finished p.entries).2 with
  | error cause =>
    rw [finishCollection_of_error now hp hs]
    exact ⟨rfl, rfl⟩
  | ok _ =>
    rw [finishCollection_of_ok now hp hs]
    exact ⟨rfl, rfl⟩

theorem Open.start {starts : Nat} (h : Open starts p) : Open (starts + 1) p.startCollection := by
  simp only [Open, startCollection] at h ⊢
  omega

theorem Open.offer {starts : Nat} (h : Open starts p) (acc : Accumulation) :
    Open starts (p.offer select acc).1 := by
  obtain ⟨hstarted, hfinished⟩ := offer_counters select acc p
  rw [Open, hstarted, hfinished]
  exact h

theorem Open.finish (h : Open 1 p) (now : Time) : Open 0 (p.finishCollection now).1 := by
  obtain ⟨hstarted, hfinished⟩ := finishCollection_counters (h.isCollecting_iff.mpr rfl) now
  rw [Open, hstarted, hfinished, h]
  simp

theorem Open.call {starts : Nat} (h : Open starts p) (c : Call) :
    Open (startsAfter starts (c, (call select c p).2)) (Processor.call select c p).1 := by
  cases c with
  | start => exact h.start
  | process acc => exact h.offer acc
  | abort => simp [Open, Processor.call, abortCollection, startsAfter]
  | finish now =>
    rw [startsAfter]
    split
    next hrefused => rwa [call_of_refusal hrefused]
    next hfinished =>
      have hp : p.isCollecting = true := by
        by_contra hp
        rw [Bool.not_eq_true] at hp
        exact hfinished (Reply.isRefusal_finished.mpr ((finishCollection_refused_iff now).mpr hp))
      obtain rfl := h.isCollecting_iff.mp hp
      exact h.finish now

theorem Open.run {starts : Nat} (h : Open starts p) (calls : List Call) :
    Open ((calls.zip (run select calls p).2).foldl startsAfter starts)
      (Processor.run select calls p).1 := by
  induction calls generalizing starts p with
  | nil => exact h
  | cons c calls ih =>
    rw [run_cons]
    exact ih (h.call c)

theorem open_new (created : Time) : Open 0 (new created) := rfl

theorem open_run (calls : List Call) (created : Time) :
    Open (openStarts (calls.zip (run select calls (new created)).2))
      (run select calls (new created)).1 := (open_new created).run calls

/-- Counters of sixty-four bits tell whether one collection is open, unless as many are as they
count. -/
theorem Open.wrapping_iff {starts : Nat} (h : Open starts p) (hs : starts ≤ 2 ^ 64) :
    UInt64.ofInt p.started = UInt64.ofInt p.finished + 1 ↔ starts = 1 := by
  rw [h, ← UInt64.toNat_inj]
  simp only [UInt64.ofInt, UInt64.toNat_add, UInt64.toNat_ofNat', UInt64.toNat_one]
  omega

/-- The same goes for whether a collection updated an entry. -/
theorem updated_wrapping_iff {c : Int} {e : Entry} (h : e.updated ≤ c)
    (hs : c < e.updated + 2 ^ 64) :
    UInt64.ofInt e.updated = UInt64.ofInt c ↔ e.updated = c := by
  rw [← UInt64.toNat_inj]
  simp only [UInt64.ofInt, UInt64.toNat_ofNat']
  omega

end Metering.Processor
