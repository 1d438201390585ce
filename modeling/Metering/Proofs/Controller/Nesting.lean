import Metering.Proofs.Attribute.Filter
import Metering.Proofs.Controller.Collecting
import Metering.Proofs.Processor.Calls

/-!
# Nested label filters

Of two checkpointers that reduce labels one after the other nothing can be told apart from one that
keeps what both keep: filtering by one predicate and then by another is filtering by both, and a
checkpointer sees accumulations through its filters alone.
-/

namespace Metering

/-- For every instrument the labels that two selectors both keep; a selector without a predicate
for the instrument keeps all of them. -/
def keepingBoth (keep keep' : Descriptor → Option (KeyValue → Bool)) :
    Descriptor → Option (KeyValue → Bool) :=
  fun d => Option.merge (fun p q kv => p kv && q kv) (keep d) (keep' d)

theorem Relabelling.ofPredicates_keepingBoth
    (keep keep' : Descriptor → Option (KeyValue → Bool)) :
    (ofPredicates keep).andThen (ofPredicates keep') = ofPredicates (keepingBoth keep keep') := by
  funext d labels
  cases hp : keep d <;> cases hq : keep' d <;>
    simp only [andThen, ofPredicates, keepingBoth, hp, hq, Option.merge, Option.elim]
  exact LabelSet.filter_filter labels _ _

namespace LabelFilterSelector

theorem reduceAll_append (filters filters' : List LabelFilterSelector) (acc : Accumulation) :
    reduceAll (filters ++ filters') acc = reduceAll filters acc >>= reduceAll filters' :=
  List.foldlM_append

theorem reduceAll_pair (keep keep' : Descriptor → Option (KeyValue → Bool)) :
    reduceAll [ofPredicates keep, ofPredicates keep'] =
      reduceAll [ofPredicates (keepingBoth keep keep')] := by
  funext acc
  have hpair : Reduces [ofPredicates keep, ofPredicates keep']
      ((Relabelling.ofPredicates keep).andThen (Relabelling.ofPredicates keep')) :=
    (reduces_ofPredicates keep).append (reduces_ofPredicates keep')
  rw [hpair acc, Relabelling.ofPredicates_keepingBoth]
  exact (reduces_ofPredicates _ acc).symm

theorem reduceAll_nested (keep keep' : Descriptor → Option (KeyValue → Bool))
    (outer inner : List LabelFilterSelector) (acc : Accumulation) :
    reduceAll (outer ++ [ofPredicates keep, ofPredicates keep'] ++ inner) acc =
      reduceAll (outer ++ [ofPredicates (keepingBoth keep keep')] ++ inner) acc := by
  rw [reduceAll_append, reduceAll_append, reduceAll_pair, ← reduceAll_append, ← reduceAll_append]

end LabelFilterSelector

namespace Checkpointer

open Processor (Call)

/-- What a call answers: a checkpoint set if it ends a collection well. -/
abbrev Answer := Except Halt (Option CheckpointSet)

def perform : Call → Checkpointer → Checkpointer × Answer
  | .start, c => (c.startCollection, .ok none)
  | .process acc, c => ((c.process acc).1, (c.process acc).2.map fun _ => none)
  | .abort, c => (c.abortCollection.1, .ok none)
  | .finish now, c =>
    ((c.finishCollection now).1, ((c.finishCollection now).2.mapError .error).map some)

/-- A call, for which the lock is taken. -/
def call (request : Call) (c : Checkpointer) : Checkpointer × Answer := c.locked (perform request)

/-- What the calls of a run answer. -/
def answers : List Call → Checkpointer → List Answer
  | [], _ => []
  | request :: requests, c => (c.call request).2 :: answers requests (c.call request).1

def withFilters (filters : List LabelFilterSelector) (c : Checkpointer) : Checkpointer :=
  { c with filters }

/-- A task that takes no notice of which filters are there leaves and answers the same. -/
def Ignores {α : Type} (filters : List LabelFilterSelector) (c : Checkpointer)
    (task : Checkpointer → Checkpointer × Except Halt α) : Prop :=
  task (c.withFilters filters) = ((task c).1.withFilters filters, (task c).2)

variable {filters : List LabelFilterSelector} {c : Checkpointer}

theorem ignores_process
    (h : ∀ acc, LabelFilterSelector.reduceAll filters acc =
      LabelFilterSelector.reduceAll c.filters acc) (acc : Accumulation) :
    Ignores filters c (·.process acc) := by
  simp only [Ignores, process, withFilters, h acc]
  cases LabelFilterSelector.reduceAll c.filters acc with
  | error cause => rfl
  | ok acc =>
    cases hprocess : c.processor.process c.temporality acc <;> simp only [hprocess]

theorem ignores_locked {α : Type} {task : Checkpointer → Checkpointer × Except Halt α}
    (h : Ignores filters c task) : Ignores filters c (·.locked task) := by
  cases ht : task c with
  | mk d result =>
    rw [Ignores, ht] at h
    have hlock : (c.withFilters filters).isPoisoned = c.isPoisoned := rfl
    by_cases hpoisoned : c.isPoisoned
    · simp only [Ignores, locked, hlock, hpoisoned, if_true]
    · simp only [Ignores, locked, hlock, hpoisoned, h, ht]
      cases result with
      | ok a => rfl
      | error halt => cases halt <;> rfl

theorem ignores_perform
    (h : ∀ acc, LabelFilterSelector.reduceAll filters acc =
      LabelFilterSelector.reduceAll c.filters acc) (request : Call) :
    Ignores filters c (perform request) := by
  cases request with
  | process acc =>
    have hprocess : (c.withFilters filters).process acc =
        ((c.process acc).1.withFilters filters, (c.process acc).2) := ignores_process h acc
    simp only [Ignores, perform, hprocess]
  | _ => rfl

theorem filters_process (c : Checkpointer) (acc : Accumulation) :
    (c.process acc).1.filters = c.filters := by
  rw [process]
  split
  · rfl
  · split <;> rfl

theorem filters_locked {α : Type} {task : Checkpointer → Checkpointer × Except Halt α}
    (h : (task c).1.filters = c.filters) : (c.locked task).1.filters = c.filters := by
  cases ht : task c with
  | mk d result =>
    rw [ht] at h
    rw [locked, ht]
    split
    · rfl
    · cases result with
      | ok a => exact h
      | error halt => cases halt <;> exact h

theorem filters_call (request : Call) (c : Checkpointer) :
    (c.call request).1.filters = c.filters := by
  apply filters_locked
  cases request with
  | process acc => exact filters_process c acc
  | _ => rfl

/-- A run cannot tell apart filters that reduce all accumulations alike. -/
theorem answers_withFilters
    (h : ∀ acc, LabelFilterSelector.reduceAll filters acc =
      LabelFilterSelector.reduceAll c.filters acc) (requests : List Call) :
    answers requests (c.withFilters filters) = answers requests c := by
  induction requests generalizing c with
  | nil => rfl
  | cons request requests ih =>
    have hcall : (c.withFilters filters).call request =
        ((c.call request).1.withFilters filters, (c.call request).2) :=
      ignores_locked (ignores_perform h request)
    rw [← filters_call request c] at h
    rw [answers, answers, hcall, ih h]

end Checkpointer

/-- Filtering a label set gives the set of the labels that pass, however they are listed, and
whether all of them pass, some or none; filtering twice is filtering by both predicates; and a
filter by keys may come before or after the last value of each key is chosen. So a checkpointer
whose labels are reduced in two steps, between any other reductions, answers every run of calls as
one that reduces them in one step by both. -/
theorem label_filters_compose :
    (∀ (s : LabelSet) (p : KeyValue → Bool),
      (s.filter p =
          if s.entries.all p then s
          else if (s.entries.filter p).isEmpty then .empty
          else .ofList (s.entries.filter p)) ∧
        ∀ kvs : List KeyValue, (∀ kv, kv ∈ kvs ↔ kv ∈ s.entries ∧ p kv = true) →
          s.filter p = .ofList kvs ∧ (s.filter p).encoded = (LabelSet.ofList kvs).encoded ∧
            ∀ digest, (s.filter p).hash digest = (LabelSet.ofList kvs).hash digest) ∧
      (∀ (s : LabelSet) (p q : KeyValue → Bool),
        (s.filter p).filter q = s.filter fun kv => p kv && q kv) ∧
      (∀ (p : Key → Bool) (kvs : List KeyValue),
        (LabelSet.ofList kvs).filter (fun kv => p kv.key) =
          .ofList (kvs.filter fun kv => p kv.key)) ∧
      ∀ (q p : Descriptor → Option (KeyValue → Bool)) (outer inner : List LabelFilterSelector)
        (c : Checkpointer) (calls : List Processor.Call),
        Checkpointer.answers calls
            (c.withFilters (outer ++ [.ofPredicates q, .ofPredicates p] ++ inner)) =
          Checkpointer.answers calls
            (c.withFilters (outer ++ [.ofPredicates (keepingBoth q p)] ++ inner)) := by
  refine ⟨fun s p => ⟨LabelSet.filter_eq_ite s p, fun kvs h => ?_⟩, LabelSet.filter_filter,
    LabelSet.filter_ofList_of_key, fun q p outer inner c calls => ?_⟩
  · rw [LabelSet.filter_eq_ofList h]
    exact ⟨rfl, rfl, fun _ => rfl⟩
  · exact Checkpointer.answers_withFilters (c := c.withFilters _)
      (LabelFilterSelector.reduceAll_nested q p outer inner) calls

/-- Requests by method and path, of which first the path and then the method are left out: both
counts are one in the end. -/
theorem label_filters_compose_requests :
    let requests : Descriptor := { name := "requests", kind := .counter, numberKind := .u64 }
    let labels (path : String) : LabelSet :=
      .ofList [⟨"method", .string "GET"⟩, ⟨"path", .string path⟩]
    let without (key : Key) (kv : KeyValue) : Bool := kv.key ≠ key
    let counted (path : String) (n : UInt64) : Processor.Call :=
      .process ⟨⟨requests, labels path, .empty⟩, .sum ⟨n⟩⟩
    let calls : List Processor.Call := [.start, counted "/a" 5, counted "/b" 3, .finish 1]
    let select (key : Key) : Descriptor → Option (KeyValue → Bool) := fun _ => some (without key)
    let c : Checkpointer := { temporality := .constant .delta, processor := .new 0 }
    let exported (answers : List Checkpointer.Answer) : List (LabelSet × Aggregator) :=
      answers.flatMap fun answer =>
        (answer.toOption.join.elim [] (·.records)).map fun r => (r.series.labels, r.aggregator)
    (∀ kv, kv ∈ [⟨"method", .string "GET"⟩, ⟨"method", .string "GET"⟩] ↔
        kv ∈ (labels "/a").entries ∧ without "path" kv = true) ∧
      (labels "/a").filter (without "path") =
        .ofList [⟨"method", .string "GET"⟩, ⟨"method", .string "GET"⟩] ∧
      Checkpointer.answers calls
          (c.withFilters [.ofPredicates (select "path"), .ofPredicates (select "method")]) =
        Checkpointer.answers calls
          (c.withFilters [.ofPredicates (keepingBoth (select "path") (select "method"))]) ∧
      exported (Checkpointer.answers calls
          (c.withFilters [.ofPredicates (select "path"), .ofPredicates (select "method")])) =
        [(.empty, .sum ⟨8⟩)] := by
  intro requests labels without counted calls select c exported
  have hentries : (labels "/a").entries = [⟨"method", .string "GET"⟩, ⟨"path", .string "/a"⟩] := by
    decide
  have hlisted : ∀ kv, kv ∈ [⟨"method", .string "GET"⟩, ⟨"method", .string "GET"⟩] ↔
      kv ∈ (labels "/a").entries ∧ without "path" kv = true := by
    intro kv
    rw [hentries]
    constructor
    · intro hkv
      obtain rfl : kv = ⟨"method", .string "GET"⟩ := by simpa using hkv
      exact ⟨by decide, by decide⟩
    · rintro ⟨hkv, hkeep⟩
      rcases List.mem_pair.mp hkv with rfl | rfl
      · decide
      · exact absurd hkeep (by decide)
  exact ⟨hlisted, ((label_filters_compose.1 (labels "/a") (without "path")).2 _ hlisted).1,
    label_filters_compose.2.2.2 (select "path") (select "method") [] [] c calls,
    by decide +kernel⟩

end Metering
