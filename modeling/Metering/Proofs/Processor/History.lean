import Metering.Proofs.Aggregator.Shape
import Metering.Proofs.Processor.Entries

/-!
# Entries and the history of a processor

What the batches of the completed collections and of the current one say about a series, and how
its entry mirrors that: the current aggregator is the merge of the current batch, and the memory
of an entry is a total or the last value of the earlier batches.
-/

namespace Metering

/-- The aggregators of the accumulations of a series, in order. -/
def dataOf (k : SeriesId) (batch : List Accumulation) : List Aggregator :=
  (batch.filter (·.series = k)).map (·.aggregator)

/-- The in-order merge of the accumulations of a series, if there are any. -/
def merged (k : SeriesId) (batch : List Accumulation) : Option Aggregator :=
  Aggregator.mergeAll k.descriptor (dataOf k batch)

/-- The merges of the batches in which the series occurs. -/
def history (past : List (List Accumulation)) (k : SeriesId) : List Aggregator :=
  past.filterMap (merged k)

/-- All accumulations of a series can be combined with each other. -/
def Consistent (accs : List Accumulation) : Prop :=
  ∀ x ∈ accs, ∀ y ∈ accs, x.series = y.series → x.aggregator.Compatible y.aggregator

theorem Consistent.mono {xs ys : List Accumulation} (h : Consistent ys) (hs : xs ⊆ ys) :
    Consistent xs :=
  fun x hx y hy => h x (hs hx) y (hs hy)

theorem merged_snoc_self (acc : Accumulation) (batch : List Accumulation) :
    merged acc.series (batch ++ [acc]) = some ((merged acc.series batch).elim acc.aggregator
      (Aggregator.absorb acc.series.descriptor · acc.aggregator)) := by
  simp [merged, dataOf, Aggregator.mergeAll_snoc]

theorem merged_snoc_of_ne {k : SeriesId} {acc : Accumulation} (batch : List Accumulation)
    (h : acc.series ≠ k) : merged k (batch ++ [acc]) = merged k batch := by
  simp [merged, dataOf, h]

@[simp] theorem merged_nil (k : SeriesId) : merged k [] = none := rfl

theorem merged_eq_none {k : SeriesId} {batch : List Accumulation} :
    merged k batch = none ↔ ∀ acc ∈ batch, acc.series ≠ k := by
  simp [merged, dataOf]

theorem merged_shape {k : SeriesId} {batch : List Accumulation} {m : Aggregator}
    (h : merged k batch = some m) :
    ∃ acc ∈ batch, acc.series = k ∧ m.shape = acc.aggregator.shape := by
  obtain ⟨a, ha, hs⟩ := Aggregator.mergeAll_shape h
  obtain ⟨acc, hacc, rfl⟩ := List.mem_map.mp ha
  obtain ⟨hb, hk⟩ := List.mem_filter.mp hacc
  exact ⟨acc, hb, by simpa using hk, hs⟩

theorem history_snoc (past : List (List Accumulation)) (batch : List Accumulation)
    (k : SeriesId) : history (past ++ [batch]) k = history past k ++ (merged k batch).toList := by
  cases h : merged k batch <;> simp [history, h]

theorem mem_history_shape {past : List (List Accumulation)} {k : SeriesId} {m : Aggregator}
    (h : m ∈ history past k) :
    ∃ acc ∈ past.flatten, acc.series = k ∧ m.shape = acc.aggregator.shape := by
  obtain ⟨batch, hb, hm⟩ := List.mem_filterMap.mp h
  obtain ⟨acc, hacc, hk, hs⟩ := merged_shape hm
  exact ⟨acc, List.mem_flatten.mpr ⟨batch, hb, hacc⟩, hk, hs⟩

theorem history_eq_nil {past : List (List Accumulation)} {k : SeriesId} :
    history past k = [] ↔ ∀ acc ∈ past.flatten, acc.series ≠ k := by
  simp only [history, List.filterMap_eq_nil_iff, merged_eq_none, List.mem_flatten]
  constructor
  · rintro h acc ⟨batch, hb, hacc⟩
    exact h batch hb acc hacc
  · exact fun h batch hb acc hacc => h acc ⟨batch, hb, hacc⟩

namespace Processor

theorem needsMemory_iff {d : Descriptor} {kind : AggregationKind} {t : Temporality} :
    needsMemory d kind t = true ↔
      (d.kind.isPrecomputedSum = false ∧ t = .cumulative) ∨
        (d.kind.isPrecomputedSum = true ∧ t = .delta ∧ kind = .sum) := by
  cases hk : d.kind <;> cases t <;>
    simp [needsMemory, hk, Temporality.memoryRequired, InstrumentKind.isPrecomputedSum,
      InstrumentKind.isAdding, InstrumentKind.isAsynchronous, InstrumentKind.isSynchronous]

/-- The memory that an entry has of the earlier batches. -/
def memory (past : List (List Accumulation)) (k : SeriesId) : Option Aggregator :=
  if k.descriptor.kind.isPrecomputedSum then (history past k).getLast?
  else Aggregator.mergeAll k.descriptor (history past k)

/-- The entry of a series in a collection with number `c`, after the batches of the past and a
part of the current one. -/
structure Mirrors (select : TemporalitySelector) (c : Int) (past : List (List Accumulation))
    (seen : List Accumulation) (k : SeriesId) (e : Entry) : Prop where
  series : e.series = k
  kind : ∃ acc ∈ past.flatten ++ seen, acc.series = k ∧
    e.temporality = select k.descriptor acc.aggregator.kind ∧
    e.isStateful = needsMemory k.descriptor acc.aggregator.kind e.temporality
  stale : merged k seen = none → e.updated < c
  current : ∀ m, merged k seen = some m → e.updated = c ∧ e.current = m
  total : e.isStateful = true → e.total = memory past k

/-- A series without an entry has not occurred in the current batch, and nothing of the earlier
ones has to be remembered. -/
structure Forgotten (select : TemporalitySelector) (past : List (List Accumulation))
    (seen : List Accumulation) (k : SeriesId) : Prop where
  unseen : merged k seen = none
  stateless : ∀ acc ∈ past.flatten, acc.series = k →
    needsMemory k.descriptor acc.aggregator.kind (select k.descriptor acc.aggregator.kind) = false

/-- The entries of a processor mirror the history of every series. -/
structure Follows (select : TemporalitySelector) (past : List (List Accumulation))
    (seen : List Accumulation) (p : Processor) : Prop where
  distinct : (p.entries.map (·.series)).Nodup
  present : ∀ k e, lookup k p.entries = some e → Mirrors select p.finished past seen k e
  absent : ∀ k, lookup k p.entries = none → Forgotten select past seen k

theorem follows_new (select : TemporalitySelector) (now : Time) :
    Follows select [] [] (new now) where
  distinct := .nil
  present k e h := by simp [new] at h
  absent k _ := ⟨rfl, by simp⟩

/-- A collection that is aborted at once leaves no trace. -/
theorem Follows.abort_start {select : TemporalitySelector} {past : List (List Accumulation)}
    {p : Processor} (h : Follows select past [] p) (hidle : p.started = p.finished) :
    p.startCollection.abortCollection = p := by
  have hkept : ∀ e ∈ p.entries, retract p.finished e = some e := by
    intro e he
    have hstale := (h.present _ e (lookup_of_mem h.distinct he)).stale rfl
    rw [retract, if_neg hstale.ne]
  have hentries : p.entries.filterMap (retract p.finished) = p.entries :=
    (List.filterMap_congr hkept).trans List.filterMap_some
  calc p.startCollection.abortCollection
      = { p with entries := p.entries.filterMap (retract p.finished), started := p.finished } := rfl
    _ = { p with started := p.finished } := by rw [hentries]
    _ = p := congrArg (fun n => { p with started := n }) hidle.symm

/-! ## One more accumulation -/

/-- An entry with one more accumulation that can be merged into it. -/
def received (c : Int) (acc : Accumulation) (e : Entry) : Entry :=
  if e.updated = c then { e with current := e.current.absorb e.series.descriptor acc.aggregator }
  else { e with current := acc.aggregator, updated := c }

theorem receive_eq {c : Int} {acc : Accumulation} {e : Entry}
    (h : e.updated = c → e.current.Compatible acc.aggregator) :
    receive c acc e = .ok (received c acc e) := by
  unfold receive received
  split
  next hu => rw [(h hu).merge_eq]; rfl
  next => rfl

variable {select : TemporalitySelector} {past : List (List Accumulation)}
  {seen : List Accumulation} {acc : Accumulation}

private theorem mirrors_newEntry (c : Int) (hc : Consistent (past.flatten ++ seen ++ [acc]))
    (h : Forgotten select past seen acc.series) :
    Mirrors select c past (seen ++ [acc]) acc.series (newEntry select c acc) where
  series := rfl
  kind := ⟨acc, by simp, rfl, rfl, rfl⟩
  stale hs := by simp [merged_snoc_self] at hs
  current m hm := by
    rw [merged_snoc_self, h.unseen] at hm
    exact ⟨rfl, Option.some.inj hm⟩
  total hs := by
    -- an entry that remembers is never dropped, so the series did not occur before
    have hne : ∀ x ∈ past.flatten, x.series ≠ acc.series := by
      intro x hx hk
      have hkind : x.aggregator.kind = acc.aggregator.kind :=
        (hc x (by simp [hx]) acc (by simp) hk).kind_eq
      have hx' := h.stateless x hx hk
      rw [hkind] at hx'
      exact Bool.false_ne_true (hx'.symm.trans hs)
    simp [memory, history_eq_nil.mpr hne, newEntry]

private theorem mirrors_received {c : Int} {e : Entry}
    (h : Mirrors select c past seen acc.series e) :
    Mirrors select c past (seen ++ [acc]) acc.series (received c acc e) := by
  have hfields : (received c acc e).series = e.series ∧
      (received c acc e).temporality = e.temporality ∧
      (received c acc e).isStateful = e.isStateful ∧ (received c acc e).total = e.total := by
    unfold received
    split <;> exact ⟨rfl, rfl, rfl, rfl⟩
  obtain ⟨hser, htemp, hstate, htotal⟩ := hfields
  refine ⟨hser.trans h.series, ?_, fun hs => ?_, fun m hm => ?_, fun hs => ?_⟩
  · obtain ⟨x, hx, hk⟩ := h.kind
    exact ⟨x, by simp only [List.mem_append] at hx ⊢; tauto, by rw [htemp, hstate]; exact hk⟩
  · simp [merged_snoc_self] at hs
  · rw [merged_snoc_self] at hm
    cases hseen : merged acc.series seen with
    | none =>
      have hold : e.updated ≠ c := (h.stale hseen).ne
      rw [hseen] at hm
      rw [received, if_neg hold]
      exact ⟨rfl, Option.some.inj hm⟩
    | some m' =>
      obtain ⟨hu, hcur⟩ := h.current m' hseen
      rw [hseen] at hm
      rw [received, if_pos hu, hcur, h.series]
      exact ⟨hu, Option.some.inj hm⟩
  · rw [htotal]
    exact h.total (hstate ▸ hs)

private theorem mirrors_other {c : Int} {k : SeriesId} {e : Entry} (hne : acc.series ≠ k)
    (h : Mirrors select c past seen k e) : Mirrors select c past (seen ++ [acc]) k e where
  series := h.series
  kind := by
    obtain ⟨x, hx, hk⟩ := h.kind
    exact ⟨x, by simp only [List.mem_append] at hx ⊢; tauto, hk⟩
  stale hs := h.stale (merged_snoc_of_ne seen hne ▸ hs)
  current m hm := h.current m (merged_snoc_of_ne seen hne ▸ hm)
  total := h.total

private theorem current_compatible {c : Int} {e : Entry}
    (hc : Consistent (past.flatten ++ seen ++ [acc]))
    (h : Mirrors select c past seen acc.series e) (hu : e.updated = c) :
    e.current.Compatible acc.aggregator := by
  cases hseen : merged acc.series seen with
  | none => exact absurd hu (h.stale hseen).ne
  | some m =>
    obtain ⟨x, hx, hk, hs⟩ := merged_shape hseen
    rw [(h.current m hseen).2]
    exact (hc x (by simp [hx]) acc (by simp) hk).congr hs rfl

theorem Follows.offer {p : Processor} (h : Follows select past seen p)
    (hp : p.isCollecting = true) (hc : Consistent (past.flatten ++ seen ++ [acc])) :
    ∃ entries, p.offer select acc = ({ p with entries }, .ok ()) ∧
      Follows select past (seen ++ [acc]) { p with entries } := by
  obtain ⟨entries, hi, hl, hn⟩ := insert_spec select (received p.finished acc)
    fun e he => receive_eq (current_compatible hc (h.present _ e he))
  refine ⟨entries, ?_, hn h.distinct, fun k e he => ?_, fun k hk => ?_⟩
  · exact offer_of_insert_ok hp hi
  · rw [hl] at he
    split at he
    next heq =>
      subst heq
      cases hold : lookup acc.series p.entries with
      | none =>
        rw [hold] at he
        rw [← Option.some.inj he]
        exact mirrors_newEntry _ hc (h.absent _ hold)
      | some e' =>
        rw [hold] at he
        rw [← Option.some.inj he]
        exact mirrors_received (h.present _ e' hold)
    next hne => exact mirrors_other hne (h.present k e he)
  · rw [hl] at hk
    split at hk
    next => simp at hk
    next hne =>
      have hold := h.absent k hk
      exact ⟨merged_snoc_of_ne seen hne ▸ hold.unseen, hold.stateless⟩

/-- A batch that is consistent with the earlier ones is processed, and the entries mirror it. -/
theorem Follows.offerAll {p : Processor} {batch : List Accumulation}
    (h : Follows select past seen p) (hp : p.isCollecting = true)
    (hc : Consistent (past.flatten ++ seen ++ batch)) :
    ∃ entries, Processor.offerAll select batch p = { p with entries } ∧
      (∀ reply ∈ (run select (batch.map .process) p).2, reply = .processed (.ok ())) ∧
      Follows select past (seen ++ batch) { p with entries } := by
  induction batch generalizing seen p with
  | nil => exact ⟨p.entries, rfl, by simp, by simpa using h⟩
  | cons acc batch ih =>
    have hc' : Consistent (past.flatten ++ seen ++ [acc]) :=
      hc.mono (by intro x; simp only [List.mem_append, List.mem_cons, List.not_mem_nil]; tauto)
    obtain ⟨entries, ho, hf⟩ := h.offer hp hc'
    obtain ⟨entries', ho', hr, hf'⟩ := ih hf hp (by simpa using hc)
    refine ⟨entries', ?_, ?_, by simpa using hf'⟩
    · rw [offerAll_cons, ho, ho']
    · rw [List.map_cons, run_cons]
      simp only [call, ho, List.mem_cons]
      rintro reply (rfl | hreply)
      · rfl
      · exact hr reply hreply

end Processor
end Metering
