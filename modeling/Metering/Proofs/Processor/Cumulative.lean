import Metering.Proofs.Aggregator.Monotonic
import Metering.Proofs.Processor.Temporality

/-!
# Totals of counters

Once a total of a counter was exported, the processor holds on to it: accumulations, an aborted
collection and the end of one, also where other series fail, keep its entry, and its total does not
get smaller.
-/

namespace Metering

/-- Sums of monotonic instruments that are not below zero, and only sums for one instrument. -/
def Aggregator.CountsFor (d : Descriptor) (d' : Descriptor) (a : Aggregator) : Prop :=
  Aggregator.NonnegSum d' a ∧ (d' = d → ∃ n, a = .sum n)

namespace Aggregator

variable {d : Descriptor}

theorem keptByMerge_countsFor : KeptByMerge (CountsFor d) := by
  intro d' a b m ha hb hmerge
  refine ⟨keptByMerge_nonnegSum d' a b m ha.1 hb.1 hmerge, fun hd => ?_⟩
  obtain ⟨x, rfl⟩ := ha.2 hd
  obtain ⟨y, rfl⟩ := hb.2 hd
  exact ⟨_, (Except.ok.inj hmerge).symm⟩

theorem persists_countsFor {selector : Selector}
    (h : ∀ asked d g, selector.choose asked d = some g → IsNew d g)
    (hsum : ∀ asked g, selector.choose asked d = some g → g = .newSum) :
    selector.Persists (CountsFor d) where
  chosen hg := ⟨(h _ _ _ hg).nonnegSum, fun hd => ⟨_, hsum _ _ (hd ▸ hg)⟩⟩
  update ha hn now := by
    refine ⟨ha.1.update hn now, fun hd => ?_⟩
    obtain ⟨n, rfl⟩ := ha.2 hd
    exact ⟨_, rfl⟩
  move ha hb hmove := by
    refine ⟨⟨(ha.1.move hmove).1, fun hd => ?_⟩, (ha.1.move hmove).2, fun hd => ?_⟩
    all_goals
      obtain ⟨x, rfl⟩ := ha.2 hd
      obtain ⟨y, rfl⟩ := hb.2 hd
      obtain ⟨rfl, rfl⟩ := Prod.mk.inj (Except.ok.inj hmove)
      exact ⟨_, rfl⟩

end Aggregator

namespace Processor

variable {select : TemporalitySelector} {k : SeriesId} {floor : Option Int} {p : Processor}

/-- A processor whose entry of a counter has a total that is not below the one that was exported
last, if there is one. -/
structure Climbs (k : SeriesId) (floor : Option Int) (p : Processor) : Prop where
  distinct : (p.entries.map (·.series)).Nodup
  has : p.AllHave (Aggregator.CountsFor k.descriptor)
  entry : ∀ e ∈ p.entries, e.series = k → e.temporality = .cumulative ∧ e.isStateful = true
  total : ∀ m ∈ floor, ∃ e, lookup k p.entries = some e ∧ e.isFresh = false ∧
    ∃ n, e.total = some (.sum n) ∧ m ≤ k.descriptor.numberKind.toInt n

theorem climbs_new (k : SeriesId) (created : Time) : Climbs k none (new created) :=
  ⟨List.nodup_nil, allHave_new created, by simp [new], by simp⟩

theorem Climbs.start (h : Climbs k floor p) : Climbs k floor p.startCollection :=
  ⟨h.distinct, h.has, h.entry, h.total⟩

/-! ## Accumulations -/

theorem lookup_insert_self {c : Int} {acc : Accumulation} {es es' : List Entry} {e : Entry}
    (h : insert select c acc es = .ok es') (he : lookup acc.series es = some e) :
    ∃ e', receive c acc e = .ok e' ∧ lookup acc.series es' = some e' := by
  induction es generalizing es' with
  | nil => cases he
  | cons x es ih =>
    rw [lookup_cons] at he
    rw [insert] at h
    split at h
    next hx =>
      rw [if_pos hx] at he
      obtain rfl := Option.some.inj he
      obtain ⟨e', he', h⟩ := bind_eq_ok h
      obtain rfl := Except.ok.inj h
      exact ⟨e', he', by rw [lookup_cons, if_pos ((receive_series he').trans hx)]⟩
    next hx =>
      rw [if_neg hx] at he
      obtain ⟨es₁, h₁, h⟩ := bind_eq_ok h
      obtain rfl := Except.ok.inj h
      obtain ⟨e', he', hlookup⟩ := ih h₁ he
      exact ⟨e', he', by rw [lookup_cons, if_neg hx, hlookup]⟩

theorem newEntry_of_counter {c : Int} {acc : Accumulation}
    (hkind : acc.series.descriptor.kind = .counter)
    (hselect : select acc.series.descriptor acc.aggregator.kind = .cumulative) :
    (newEntry select c acc).temporality = .cumulative ∧
      (newEntry select c acc).isStateful = true := by
  refine ⟨hselect, needsMemory_iff.mpr (.inl ⟨?_, hselect⟩)⟩
  rw [hkind]
  rfl

theorem Climbs.offer (h : Climbs k floor p) (hkind : k.descriptor.kind = .counter)
    (hselect : select k.descriptor .sum = .cumulative) {acc : Accumulation}
    (hacc : Aggregator.CountsFor k.descriptor acc.series.descriptor acc.aggregator) :
    Climbs k floor (p.offer select acc).1 := by
  have hhas : (p.offer select acc).1.AllHave (Aggregator.CountsFor k.descriptor) :=
    h.has.offer Aggregator.keptByMerge_countsFor hacc
  obtain hsame | ⟨entries, -, hi, hoffer⟩ := offer_cases select acc p
  · rw [hsame]
    exact h
  · rw [hoffer] at hhas ⊢
    refine ⟨insert_nodup hi h.distinct, hhas, insert_forall hi ?_ ?_ h.entry, fun m hm => ?_⟩
    · intro hk
      have hd : acc.series.descriptor = k.descriptor := congrArg SeriesId.descriptor hk
      obtain ⟨n, hn⟩ := hacc.2 hd
      have hsum : acc.aggregator.kind = .sum := by rw [hn]; rfl
      exact newEntry_of_counter (hd ▸ hkind) (by rw [hsum, hd, hselect])
    · intro e e' _ he hr hs
      rw [receive_fields hr] at hs ⊢
      exact he hs
    · obtain ⟨e, he, hfresh, n, hn, hle⟩ := h.total m hm
      by_cases hk : acc.series = k
      · obtain ⟨e', hr, he'⟩ := lookup_insert_self hi (hk ▸ he)
        rw [receive_fields hr] at he'
        subst hk
        exact ⟨_, he', hfresh, n, hn, hle⟩
      · exact ⟨e, (lookup_insert_of_ne hi hk).trans he, hfresh, n, hn, hle⟩

/-! ## The end of a collection -/

theorem Climbs.abort (h : Climbs k floor p) : Climbs k floor p.abortCollection := by
  refine ⟨h.distinct.sublist (filterMap_series_sublist (fun e e' => retract_series) _),
    h.has.abort, fun e' he' hk => ?_, fun m hm => ?_⟩
  · obtain ⟨e, he, hfields⟩ := mem_abortCollection he'
    rw [hfields] at hk ⊢
    exact h.entry e he hk
  · obtain ⟨e, he, hfresh, n, hn, hle⟩ := h.total m hm
    have hlookup : lookup k p.abortCollection.entries = retract p.finished e := by
      rw [abortCollection, lookup_filterMap (fun e e' => retract_series) h.distinct, he,
        Option.bind_some]
    rw [retract, hfresh] at hlookup
    split at hlookup
    · exact ⟨_, hlookup, rfl, n, hn, hle⟩
    · exact ⟨e, hlookup, hfresh, n, hn, hle⟩

theorem Settled.setup {c : Int} {e e' : Entry} (h : Settled c e e') :
    e'.series = e.series ∧ e'.temporality = e.temporality ∧ e'.isStateful = e.isStateful ∧
      e'.isFresh = false := by
  cases h <;> exact ⟨rfl, rfl, rfl, rfl⟩

/-- The total of a counter takes in the current data, and does not get smaller by that. -/
theorem settle_counter {c : Int} {e : Entry}
    (hkind : e.series.descriptor.kind = .counter) (hk : e.series.descriptor.numberKind.IsInteger)
    (hstateful : e.isStateful = true) (hhas : e.Has (Aggregator.CountsFor e.series.descriptor))
    {n : Number} (hn : e.total = some (.sum n)) :
    ∃ e' n', settle c e = .ok (some e') ∧ e'.total = some (.sum n') ∧
      e.series.descriptor.numberKind.toInt n ≤ e.series.descriptor.numberKind.toInt n' := by
  have hp : e.series.descriptor.kind.isPrecomputedSum = false := by
    rw [hkind]
    rfl
  by_cases hu : e.updated = c
  · obtain ⟨x, hx⟩ := hhas.current.2 rfl
    have hnonneg := hhas.current.1 (by rw [hkind]; rfl) hk x hx
    have hmerge : (Aggregator.sum n).merge e.current e.series.descriptor =
        .ok (.sum (n.add e.series.descriptor.numberKind x)) := by
      rw [hx]
      rfl
    refine ⟨{ e with isFresh := false, total := some (.sum (n.add _ x)) }, _, ?_, rfl,
      NumberKind.le_toInt_add hk n hnonneg⟩
    simp only [settle, hstateful, hu, hp, accumulate, hn, hmerge, Bool.not_true,
      Bool.false_eq_true, if_false, ne_eq, not_true_eq_false]
    rfl
  · refine ⟨{ e with isFresh := false }, n, ?_, hn, le_refl _⟩
    simp [settle, hstateful, hu, pure, Except.pure]

theorem Climbs.finish (h : Climbs k floor p) (hkind : k.descriptor.kind = .counter)
    (hk : k.descriptor.numberKind.IsInteger) (now : Time) :
    Climbs k floor (p.finishCollection now).1 := by
  have hhas := h.has.finish Aggregator.keptByMerge_countsFor now
  obtain hentries | hentries := finishCollection_entries now p
  · refine ⟨?_, hhas, ?_, ?_⟩ <;> rw [hentries]
    · exact h.distinct
    · exact h.entry
    · exact h.total
  · refine ⟨?_, hhas, ?_, fun m hm => ?_⟩ <;> rw [hentries]
    · exact h.distinct.sublist (settleAll_series_sublist _ _)
    · intro e' he' hs
      obtain ⟨e, he, hsettled | rfl | rfl⟩ := mem_settleAll he'
      · obtain ⟨hseries, ht, hstateful, -⟩ := hsettled.setup
        rw [ht, hstateful]
        exact h.entry e he (hseries.symm.trans hs)
      · exact h.entry e' he hs
      · exact h.entry e he hs
    · obtain ⟨e, he, hfresh, n, hn, hle⟩ := h.total m hm
      obtain rfl := lookup_series he
      obtain ⟨e', n', hsettle, hn', hle'⟩ := settle_counter (c := p.finished) hkind hk
        (h.entry e (lookup_mem he) rfl).2 (h.has e (lookup_mem he)) hn
      rw [lookup_settleAll he hsettle]
      refine ⟨_, rfl, ?_⟩
      split
      · exact ⟨(settle_cases hsettle).setup.2.2.2, n', hn', hle.trans hle'⟩
      · exact ⟨hfresh, n, hn, hle⟩

end Processor
end Metering
