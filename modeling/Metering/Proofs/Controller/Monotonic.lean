import Metering.Proofs.Aggregator.Monotonic
import Metering.Proofs.Controller.Endings

/-!
# Monotonic instruments

An accumulator and a processor to which it reports export no sum below zero of a monotonic
instrument, whatever they are asked to do and in whatever order, unless a total of an asynchronous
counter of signed numbers has fallen and its changes are exported.
-/

namespace Metering

theorem InstrumentKind.eq_counterObserver {kind : InstrumentKind} (hm : kind.isMonotonic = true)
    (hp : kind.isPrecomputedSum = true) : kind = .counterObserver := by
  revert hm hp
  cases kind <;> decide

/-- An accumulator, and the checkpointer to which its collections report. -/
structure Pipeline where
  accumulator : Accumulator
  checkpointer : Checkpointer

namespace Pipeline

def new (selector : Selector) (temporality : TemporalitySelector)
    (filters : List LabelFilterSelector) (resource : Resource) (idleCycles : Nat) (now : Time) :
    Pipeline :=
  ⟨.new selector resource idleCycles now, { temporality, filters, processor := .new now }⟩

/-- What may be asked of a pipeline. The accumulator may collect at any time, also where the
processor then refuses what it is handed. -/
inductive Request where
  | record (m : Measurement)
  | register (descriptors : List Descriptor) (calls : List (List CallbackAction))
  | await (now : Time) (flags : CancellationFlags)
  | collect (cx : Context)
  | start
  | abort
  | finish (now : Time)

def serve : Request → Pipeline → Pipeline
  | .record m, ⟨a, p⟩ => ⟨a.record m, p⟩
  | .register descriptors calls, ⟨a, p⟩ => ⟨(a.register descriptors calls).1, p⟩
  | .await now flags, ⟨a, p⟩ => ⟨{ a with now, flags }, p⟩
  | .collect cx, ⟨a, p⟩ =>
    let (a, p, _) := a.collect cx Controller.step p
    ⟨a, p⟩
  | .start, ⟨a, p⟩ => ⟨a, p.startCollection⟩
  | .abort, ⟨a, p⟩ => ⟨a, p.abortCollection.1⟩
  | .finish now, ⟨a, p⟩ => ⟨a, (p.finishCollection now).1⟩

def serveAll (requests : List Request) (q : Pipeline) : Pipeline :=
  requests.foldl (fun q request => serve request q) q

/-- Whether all aggregators on both sides have a property. -/
structure AllHave (selector : Selector) (P : Descriptor → Aggregator → Prop) (q : Pipeline) :
    Prop where
  accumulator : q.accumulator.AllHave selector P
  processor : q.checkpointer.processor.AllHave P

variable {selector : Selector} {P : Descriptor → Aggregator → Prop} {q : Pipeline}

theorem allHave_new (select : TemporalitySelector) (filters : List LabelFilterSelector)
    (resource : Resource) (idleCycles : Nat) (now : Time) :
    AllHave selector P (new selector select filters resource idleCycles now) :=
  ⟨Accumulator.allHave_new resource idleCycles now, Processor.allHave_new now⟩

theorem AllHave.serve (h : AllHave selector P q) (hP : selector.Persists P)
    (hmerge : KeptByMerge P) (request : Request) : AllHave selector P (serve request q) := by
  cases request with
  | record m => exact ⟨h.accumulator.record hP m, h.processor⟩
  | register descriptors calls => exact ⟨h.accumulator.register descriptors calls, h.processor⟩
  | await now flags => exact ⟨h.accumulator.same rfl rfl, h.processor⟩
  | collect cx =>
    have hcollect := h.accumulator.collect hP (Controller.allHave_step hmerge) cx h.processor
    exact ⟨hcollect.1, hcollect.2⟩
  | start => exact ⟨h.accumulator, h.processor⟩
  | abort => exact ⟨h.accumulator, h.processor.abort⟩
  | finish now => exact ⟨h.accumulator, h.processor.finish hmerge now⟩

theorem AllHave.serveAll (h : AllHave selector P q) (hP : selector.Persists P)
    (hmerge : KeptByMerge P) (requests : List Request) :
    AllHave selector P (serveAll requests q) := by
  induction requests generalizing q with
  | nil => exact h
  | cons request requests ih => exact ih (h.serve hP hmerge request)

/-! ## Exports -/

/-- The total of an asynchronous counter of signed numbers whose changes are exported is lower than
at the last collection that had one, by a change. -/
structure Fell (p : Processor) (k : SeriesId) (change : Int) : Prop where
  kind : k.descriptor.kind = .counterObserver
  numberKind : k.descriptor.numberKind = .i64
  totals : ∃ e ∈ p.entries, e.series = k ∧ e.temporality = .delta ∧ ∃ after before,
    e.current = .sum after ∧ e.total = some (.sum before) ∧ after.signed < before.signed ∧
      change = after.signed - before.signed

/-- Whatever is recorded, observed and collected, no sum of a monotonic instrument of integers is
exported below zero unless it is the change of a total that fell. -/
theorem monotonic_sum_nonneg_or_fell (selector : Selector)
    (hnew : ∀ asked d g, selector.choose asked d = some g → Aggregator.IsNew d g)
    (select : TemporalitySelector) (filters : List LabelFilterSelector) (resource : Resource)
    (idleCycles : Nat) (now ended : Time) (requests : List Request) (set : CheckpointSet) :
    let q := serveAll requests (new selector select filters resource idleCycles now)
    (q.checkpointer.finishCollection ended).2 = .ok set →
    ∀ r ∈ set.records, r.series.descriptor.kind.isMonotonic = true →
      r.series.descriptor.numberKind.IsInteger → ∀ n, r.aggregator = .sum n →
        0 ≤ r.series.descriptor.numberKind.toInt n ∨
          Fell q.checkpointer.processor r.series n.signed := by
  intro q hset r hr hm hk n hn
  have hall : AllHave selector Aggregator.NonnegSum q :=
    (allHave_new select filters resource idleCycles now).serveAll
      (Aggregator.persists_nonnegSum hnew) Aggregator.keptByMerge_nonnegSum requests
  obtain hnonneg | ⟨e, he, hs, ht, hp, hd⟩ :=
    hall.processor.exported Aggregator.keptByMerge_nonnegSum hset hr
  · exact .inl (hnonneg hm hk n hn)
  rw [hn] at hd
  have hhas := hall.processor e he
  cases htotal : e.total with
  | none =>
    rw [htotal] at hd
    have hcurrent := hhas.current (hs ▸ hm) (hs ▸ hk) n (Except.ok.inj hd)
    exact .inl (hs ▸ hcurrent)
  | some previous =>
    rw [htotal] at hd
    obtain hnonneg | ⟨hkind, after, before, hafter, hbefore, hlt, hchange⟩ :=
      hhas.current.subtract (hhas.total previous htotal) (hs ▸ hm) (hs ▸ hk) hd
    · exact .inl (hs ▸ hnonneg)
    · have hobserved := InstrumentKind.eq_counterObserver hm (hs ▸ hp)
      exact .inr ⟨hobserved, hs ▸ hkind, e, he, hs, ht, after, before, hafter,
        htotal.trans (congrArg some hbefore), hlt, hchange⟩

theorem exists_record_of_any {x : Except MetricsError CheckpointSet} {f : Record → Bool}
    (h : (x.toOption.any fun set => set.records.any f) = true) :
    ∃ set, x = .ok set ∧ ∃ r ∈ set.records, f r = true := by
  cases x with
  | error cause => cases h
  | ok set => exact ⟨set, rfl, List.any_eq_true.mp h⟩

/-- Requests are counted under two paths and exported without them. -/
theorem monotonic_sum_nonneg_or_fell_requests :
    let requests : Descriptor := { name := "requests", kind := .counter, numberKind := .i64 }
    let path (name : String) : LabelSet := .ofList [⟨"path", .string name⟩]
    let steps : List Request := [.record ⟨requests, ⟨3⟩, .i64, path "/a"⟩,
      .record ⟨requests, ⟨4⟩, .i64, path "/b"⟩, .start, .collect .unlimited]
    let selector : Selector := .ofFunction fun _ => some .newSum
    let filters : List LabelFilterSelector := [fun _ => some (.dropping ["path"])]
    let q := serveAll steps (new selector (Temporality.constant .delta) filters .empty 1 0)
    ∃ set, (q.checkpointer.finishCollection 5).2 = .ok set ∧
      ∃ r ∈ set.records, r.series.descriptor = requests ∧ r.aggregator = .sum ⟨7⟩ ∧
        0 ≤ r.series.descriptor.numberKind.toInt ⟨7⟩ := by
  intro requests path steps selector filters q
  obtain ⟨set, hset, r, hr, hfound⟩ := exists_record_of_any
    (x := (q.checkpointer.finishCollection 5).2)
    (f := fun r => r.series.descriptor = requests && r.aggregator = .sum ⟨7⟩) (by decide +kernel)
  obtain ⟨hd, ha⟩ : r.series.descriptor = requests ∧ r.aggregator = .sum ⟨7⟩ := by
    simpa using hfound
  have hnew : ∀ asked d g, selector.choose asked d = some g → Aggregator.IsNew d g := by
    intro asked d g hg
    rw [← Option.some.inj hg]
    exact Aggregator.isNew_newSum d
  have hm : r.series.descriptor.kind.isMonotonic = true := by
    rw [hd]
    rfl
  have hk : r.series.descriptor.numberKind.IsInteger := by
    rw [hd]
    decide
  obtain h | hfell := monotonic_sum_nonneg_or_fell selector hnew (Temporality.constant .delta)
    filters .empty 1 0 5 steps set hset r hr hm hk ⟨7⟩ ha
  · exact ⟨set, hset, r, hr, hd, ha, h⟩
  · have hkind := hfell.kind
    rw [hd] at hkind
    cases hkind

/-- A number of bytes read is observed as ten and then as five, and its change is exported. -/
theorem negative_change_of_falling_total :
    let bytesRead : Descriptor :=
      { name := "bytes.read", kind := .counterObserver, numberKind := .i64 }
    let seen (n : Number) : List CallbackAction := [.observe bytesRead n .empty]
    let steps : List Request := [.register [bytesRead] [seen ⟨10⟩, seen ⟨5⟩], .start,
      .collect .unlimited, .finish 5, .start, .collect .unlimited]
    let q := serveAll steps (new SimpleSelector.inexpensive.toSelector
      (Temporality.constant .delta) [] .empty 1 0)
    bytesRead.kind.isMonotonic = true ∧ bytesRead.numberKind.IsInteger ∧
      ∃ set, (q.checkpointer.finishCollection 9).2 = .ok set ∧
        ∃ r ∈ set.records, r.series.descriptor = bytesRead ∧
          ∃ n, r.aggregator = .sum n ∧ bytesRead.numberKind.toInt n = -5 := by
  intro bytesRead seen steps q
  obtain ⟨set, hset, r, hr, hfound⟩ := exists_record_of_any
    (x := (q.checkpointer.finishCollection 9).2)
    (f := fun r => r.series.descriptor = bytesRead && r.aggregator = .sum ⟨-5⟩)
    (by decide +kernel)
  obtain ⟨hd, ha⟩ : r.series.descriptor = bytesRead ∧ r.aggregator = .sum ⟨-5⟩ := by
    simpa using hfound
  exact ⟨rfl, by decide, set, hset, r, hr, hd, ⟨-5⟩, ha, by decide⟩

end Pipeline
end Metering
