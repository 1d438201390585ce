import Mathlib
import Metering.Proofs.Processor.Failure

/-!
# What all aggregators of a processor have

A property of aggregators that merging keeps is one of all that a processor remembers, if all
accumulations have it. It is also one of all that is exported, but for the changes of precomputed
sums, which come from a subtraction.
-/

namespace Metering

/-- Whether merging two aggregators of an instrument keeps a property. -/
def KeptByMerge (P : Descriptor → Aggregator → Prop) : Prop :=
  ∀ d a b m, P d a → P d b → a.merge b d = .ok m → P d m

/-- An entry that only remembers aggregators with a property, and changes only of precomputed
sums. -/
structure Entry.Has (P : Descriptor → Aggregator → Prop) (e : Entry) : Prop where
  current : P e.series.descriptor e.current
  total : ∀ a, e.total = some a → P e.series.descriptor a
  delta : e.series.descriptor.kind.isPrecomputedSum = false → e.delta = none

namespace Processor

def AllHave (P : Descriptor → Aggregator → Prop) (p : Processor) : Prop :=
  ∀ e ∈ p.entries, e.Has P

variable {P : Descriptor → Aggregator → Prop} {select : TemporalitySelector} {p : Processor}
  {c : Int} {e e' : Entry}

theorem allHave_new (created : Time) : AllHave P (new created) := by
  simp [AllHave, new]

/-! ## Accumulations -/

theorem Entry.Has.receive (hP : KeptByMerge P) {acc : Accumulation}
    (hacc : P acc.series.descriptor acc.aggregator) (hs : e.series = acc.series) (h : e.Has P)
    (hr : receive c acc e = .ok e') : e'.Has P := by
  rw [← hs] at hacc
  rw [Processor.receive] at hr
  split at hr
  · obtain ⟨current, hmerge, hr⟩ := bind_eq_ok hr
    obtain rfl := Except.ok.inj hr
    exact ⟨hP _ _ _ _ h.current hacc hmerge, h.total, h.delta⟩
  · obtain rfl := Except.ok.inj hr
    exact ⟨hacc, h.total, h.delta⟩

theorem AllHave.offer (h : AllHave P p) (hP : KeptByMerge P) {acc : Accumulation}
    (hacc : P acc.series.descriptor acc.aggregator) : AllHave P (p.offer select acc).1 := by
  obtain hsame | ⟨entries, -, hi, hoffer⟩ := offer_cases select acc p
  · rw [hsame]
    exact h
  · rw [hoffer]
    exact insert_forall hi ⟨hacc, by simp [newEntry], fun _ => rfl⟩
      (fun e e' => Entry.Has.receive hP hacc) h

theorem AllHave.abort (h : AllHave P p) : AllHave P p.abortCollection := by
  intro e' he'
  obtain ⟨e, he, hfields⟩ := mem_abortCollection he'
  have hhas := h e he
  rw [hfields]
  exact ⟨hhas.current, hhas.total, hhas.delta⟩

/-! ## The end of a collection -/

/-- What may become of an entry that is kept: it stays as it is if it remembers nothing or was not
updated, and otherwise its memory takes in the current data. -/
inductive Settled (c : Int) (e : Entry) : Entry → Prop where
  | same (h : e.isStateful = true → e.updated ≠ c) : Settled c e { e with isFresh := false }
  | changed (hp : e.series.descriptor.kind.isPrecomputedSum = true) (delta : Aggregator)
    (hd : e.total.elim (.ok e.current) (e.current.subtract · e.series.descriptor) = .ok delta) :
    Settled c e { e with isFresh := false, delta := some delta, total := some e.current }
  | added (hp : e.series.descriptor.kind.isPrecomputedSum = false) (total : Aggregator)
    (ht : e.total.elim (.ok e.current) (·.merge e.current e.series.descriptor) = .ok total) :
    Settled c e { e with isFresh := false, total := some total }

theorem settle_cases (h : settle c e = .ok (some e')) : Settled c e e' := by
  dsimp only [settle] at h
  split at h
  next hstateless =>
    simp only [pure, Except.pure, Except.ok.injEq] at h
    split at h
    · rw [← Option.some.inj h]
      exact .same fun hstateful => by simp [hstateful] at hstateless
    · cases h
  split at h
  next hstale =>
    obtain rfl := Option.some.inj (Except.ok.inj h)
    exact .same fun _ => hstale
  split at h
  next hp =>
    obtain ⟨e₁, h₁, h⟩ := map_eq_ok h
    obtain rfl := Option.some.inj h
    dsimp only [precomputedDelta] at h₁
    cases htotal : e.total <;>
    · rw [htotal] at h₁
      obtain ⟨delta, hd, h₁⟩ := bind_eq_ok h₁
      obtain rfl := Except.ok.inj h₁
      exact .changed hp delta (htotal ▸ hd)
  next hp =>
    obtain ⟨e₁, h₁, h⟩ := map_eq_ok h
    obtain rfl := Option.some.inj h
    dsimp only [accumulate] at h₁
    cases htotal : e.total <;>
    · rw [htotal] at h₁
      obtain ⟨total, ht, h₁⟩ := bind_eq_ok h₁
      obtain rfl := Except.ok.inj h₁
      exact .added (by simpa using hp) total (htotal ▸ ht)

theorem settle_of_settled (h : settled c e = some e') : settle c e = .ok (some e') := by
  rw [settled] at h
  cases hs : settle c e with
  | error cause =>
    rw [hs] at h
    cases h
  | ok kept =>
    rw [hs] at h
    exact congrArg Except.ok h

theorem Entry.Has.settled (hP : KeptByMerge P) (h : e.Has P) (hs : Settled c e e') : e'.Has P := by
  cases hs with
  | same _ => exact ⟨h.current, h.total, h.delta⟩
  | changed hp delta _ =>
    refine ⟨h.current, fun a ha => ?_, fun hp' => ?_⟩
    · obtain rfl := Option.some.inj ha
      exact h.current
    · rw [hp] at hp'
      cases hp'
  | added hp total ht =>
    refine ⟨h.current, fun a ha => ?_, h.delta⟩
    obtain rfl := Option.some.inj ha
    cases htotal : e.total with
    | none =>
      rw [htotal] at ht
      exact Except.ok.inj ht ▸ h.current
    | some previous =>
      rw [htotal] at ht
      exact hP _ _ _ _ (h.total previous htotal) h.current ht

/-- Every entry at the end of a collection was one before, which was settled, or not because that
one or one before it failed. -/
theorem mem_settleAll {es : List Entry} (h : e' ∈ (settleAll c es).1) :
    ∃ e ∈ es, Settled c e e' ∨ e' = e ∨ e' = { e with isFresh := false } := by
  induction es with
  | nil => simp [settleAll] at h
  | cons e es ih =>
    rw [settleAll] at h
    cases hs : settle c e with
    | error cause =>
      rw [hs] at h
      rcases List.mem_cons.mp h with rfl | h
      · exact ⟨e, by simp, .inr (.inr rfl)⟩
      · exact ⟨e', List.mem_cons_of_mem _ h, .inr (.inl rfl)⟩
    | ok kept =>
      rw [hs] at h
      rcases List.mem_append.mp h with h | h
      · rw [Option.mem_toList] at h
        exact ⟨e, by simp, .inl (settle_cases (h ▸ hs))⟩
      · obtain ⟨e₁, he₁, hrest⟩ := ih h
        exact ⟨e₁, List.mem_cons_of_mem _ he₁, hrest⟩

theorem AllHave.finish (h : AllHave P p) (hP : KeptByMerge P) (now : Time) :
    AllHave P (p.finishCollection now).1 := by
  intro e' he'
  obtain hentries | hentries := finishCollection_entries now p
  · rw [hentries] at he'
    exact h e' he'
  · rw [hentries] at he'
    obtain ⟨e, he, hs | rfl | rfl⟩ := mem_settleAll he'
    · exact Entry.Has.settled hP (h e he) hs
    · exact h e' he
    · have hhas := h e he
      exact ⟨hhas.current, hhas.total, hhas.delta⟩

/-! ## Records -/

theorem records_of_finishCollection {now : Time} {set : CheckpointSet}
    (h : (p.finishCollection now).2 = .ok set) :
    (p.finishCollection now).1.entries = p.entries.filterMap (settled p.finished) ∧
      set.records = { p with
        entries := p.entries.filterMap (settled p.finished), finished := p.finished + 1 }.records
        p.finished now := by
  obtain ⟨-, hfinish⟩ | ⟨-, cause, -, hfinish⟩ | ⟨-, hs, hfinish⟩ := finishCollection_cases now p
  · rw [hfinish] at h
    cases h
  · rw [hfinish] at h
    cases h
  · rw [hfinish] at h ⊢
    rw [← Except.ok.inj h, ← settleAll_ok hs]
    exact ⟨rfl, rfl⟩

theorem AllHave.exported (h : AllHave P p) (hP : KeptByMerge P) {now : Time} {set : CheckpointSet}
    (hset : (p.finishCollection now).2 = .ok set) {r : Record} (hr : r ∈ set.records) :
    P r.series.descriptor r.aggregator ∨ ∃ e ∈ p.entries, e.series = r.series ∧
      e.temporality = .delta ∧ e.series.descriptor.kind.isPrecomputedSum = true ∧
      e.total.elim (.ok e.current) (e.current.subtract · e.series.descriptor) =
        .ok r.aggregator := by
  obtain ⟨-, hrecords⟩ := records_of_finishCollection hset
  rw [hrecords] at hr
  obtain ⟨e', he', a, start, hx, rfl⟩ := mem_records.mp hr
  obtain ⟨e, he, hs⟩ := List.mem_filterMap.mp he'
  have hsettled := settle_cases (settle_of_settled hs)
  have hhas := Entry.Has.settled hP (h e he) hsettled
  unfold exported? at hx
  split at hx
  · obtain ⟨total, htotal, heq⟩ := Option.map_eq_some_iff.mp hx
    obtain rfl := (Prod.mk.inj heq).1
    exact .inl (hhas.total _ htotal)
  · obtain rfl := (Prod.mk.inj (Option.some.inj hx)).1
    exact .inl hhas.current
  next htemporality hstateful =>
    split at hx
    swap
    · cases hx
    next hupdated =>
      obtain ⟨delta, hdelta, heq⟩ := Option.map_eq_some_iff.mp hx
      obtain rfl := (Prod.mk.inj heq).1
      -- The change is the one that this end of a collection has made.
      cases hsettled with
      | same hstale => exact absurd hupdated (hstale hstateful)
      | changed hp delta' hd =>
        obtain rfl := Option.some.inj hdelta
        exact .inr ⟨e, he, rfl, htemporality, hp, hd⟩
      | added hp total _ =>
        have hnone := (h e he).delta hp
        simp only [hnone] at hdelta
        cases hdelta
  · obtain rfl := (Prod.mk.inj (Option.some.inj hx)).1
    exact .inl hhas.current

end Processor
end Metering
