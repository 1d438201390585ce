import Metering.Proofs.Processor.Entries

/-!
# Processors that no call tells apart

The data of an entry that the current collection did not update, and the number of the collection
that did, are not read again before they are replaced. Processors that differ in nothing else
answer every call alike.
-/

namespace Metering.Processor

/-! ## Entries that later calls do not tell apart -/

/-- Two entries are alike for a collection if they are the same, or both have data of earlier
collections and differ in nothing else. -/
def Alike (c : Int) (e e' : Entry) : Prop :=
  e = e' ∨ (e.updated < c ∧ e'.updated < c ∧
    e' = { e with updated := e'.updated, current := e'.current })

/-- Entries that are alike after a collection, and export the same: without memory an entry is
kept only if the collection updated it. -/
def AlikeKept (c : Int) (e e' : Entry) : Prop :=
  e = e' ∨ (e.isStateful = true ∧ e.updated < c ∧ e'.updated < c ∧
    e' = { e with updated := e'.updated, current := e'.current })

theorem Alike.refl (c : Int) (e : Entry) : Alike c e e := .inl rfl

theorem Alike.series {c : Int} {e e' : Entry} (h : Alike c e e') : e'.series = e.series := by
  rcases h with rfl | ⟨-, -, h⟩
  · rfl
  · rw [h]

theorem Alike.symm {c : Int} {e e' : Entry} (h : Alike c e e') : Alike c e' e := by
  rcases h with rfl | ⟨hu, hu', h⟩
  · exact .refl _ _
  · exact .inr ⟨hu', hu, by rw [h]⟩

theorem AlikeKept.alike {c : Int} {e e' : Entry} (h : AlikeKept c e e') : Alike (c + 1) e e' := by
  rcases h with rfl | ⟨-, hu, hu', h⟩
  · exact .refl _ _
  · exact .inr ⟨by omega, by omega, h⟩

/-- Data of earlier collections are replaced, so what an entry receives does not depend on
them. -/
theorem Alike.receive {c : Int} {e e' : Entry} (h : Alike c e e') (acc : Accumulation) :
    receive c acc e = receive c acc e' := by
  rcases h with rfl | ⟨hu, hu', h⟩
  · rfl
  · rw [Processor.receive, Processor.receive, if_neg hu.ne, if_neg hu'.ne, h]

theorem insert_alike (select : TemporalitySelector) {c : Int} (acc : Accumulation)
    {es es' : List Entry} (h : List.Forall₂ (Alike c) es es') :
    (∃ cause, insert select c acc es = .error cause ∧
      insert select c acc es' = .error cause) ∨
    ∃ xs xs', insert select c acc es = .ok xs ∧ insert select c acc es' = .ok xs' ∧
      List.Forall₂ (Alike c) xs xs' := by
  induction h with
  | nil => exact .inr ⟨_, _, rfl, rfl, .cons (.refl _ _) .nil⟩
  | @cons e e' es es' he hes ih =>
    by_cases hk : e.series = acc.series
    · have hr := he.receive acc
      have hk' := he.series.trans hk
      cases hx : Processor.receive c acc e with
      | error cause =>
        refine .inl ⟨cause, ?_, ?_⟩
        · simp [insert, hk, hx, bind, Except.bind]
        · simp [insert, hk', ← hr, hx, bind, Except.bind]
      | ok x =>
        refine .inr ⟨x :: es, x :: es', ?_, ?_, .cons (.refl _ _) hes⟩
        · simp [insert, hk, hx, bind, Except.bind, pure, Except.pure]
        · simp [insert, hk', ← hr, hx, bind, Except.bind, pure, Except.pure]
    · have hk' : e'.series ≠ acc.series := he.series ▸ hk
      rcases ih with ⟨cause, hx, hx'⟩ | ⟨xs, xs', hx, hx', hxs⟩
      · refine .inl ⟨cause, ?_, ?_⟩
        · simp [insert, hk, hx, bind, Except.bind]
        · simp [insert, hk', hx', bind, Except.bind]
      · refine .inr ⟨e :: xs, e' :: xs', ?_, ?_, .cons he hxs⟩
        · simp [insert, hk, hx, bind, Except.bind, pure, Except.pure]
        · simp [insert, hk', hx', bind, Except.bind, pure, Except.pure]

/-! ## The end of a collection -/

private theorem settle_of_stale {c : Int} {e : Entry} (h : e.updated < c) :
    settle c e = .ok (if e.isStateful then some { e with isFresh := false } else none) := by
  cases hs : e.isStateful <;> simp [settle, hs, h.ne, pure, Except.pure]

theorem Alike.settle {c : Int} {e e' : Entry} (h : Alike c e e') :
    (∃ cause, settle c e = .error cause ∧ settle c e' = .error cause) ∨
    ∃ kept kept', settle c e = .ok kept ∧ settle c e' = .ok kept' ∧
      List.Forall₂ (AlikeKept c) kept.toList kept'.toList := by
  rcases h with rfl | ⟨hu, hu', h⟩
  · cases hs : Processor.settle c e with
    | error cause => exact .inl ⟨cause, rfl, rfl⟩
    | ok kept => exact .inr ⟨kept, kept, rfl, rfl, List.forall₂_same.mpr fun _ _ => .inl rfl⟩
  · refine .inr ⟨_, _, settle_of_stale hu, settle_of_stale hu', ?_⟩
    have hstate : e'.isStateful = e.isStateful := by rw [h]
    by_cases hs : e.isStateful = true
    · rw [if_pos hs, if_pos (hstate.trans hs)]
      refine .cons (.inr ⟨hs, hu, hu', ?_⟩) .nil
      rw [h]
    · rw [if_neg hs, if_neg (hstate ▸ hs)]
      exact .nil

theorem settleAll_alike {c : Int} {es es' : List Entry} (h : List.Forall₂ (Alike c) es es') :
    (settleAll c es).2 = (settleAll c es').2 ∧
      List.Forall₂ (Alike (c + 1)) (settleAll c es).1 (settleAll c es').1 ∧
      ((settleAll c es).2 = .ok () →
        List.Forall₂ (AlikeKept c) (settleAll c es).1 (settleAll c es').1) := by
  induction h with
  | nil => exact ⟨rfl, .nil, fun _ => .nil⟩
  | @cons e e' es es' he hes ih =>
    obtain ⟨hr, ha, hk⟩ := ih
    rcases he.settle with ⟨cause, hs, hs'⟩ | ⟨kept, kept', hs, hs', hkept⟩
    · -- the entries from the failing one on are kept as they are
      have hstay : ∀ {x x' : Entry}, Alike c x x' → Alike (c + 1) x x' := by
        rintro x x' (rfl | ⟨hu, hu', hx⟩)
        · exact .refl _ _
        · exact .inr ⟨by omega, by omega, hx⟩
      have hfirst : Alike c { e with isFresh := false } { e' with isFresh := false } := by
        rcases he with rfl | ⟨hu, hu', hx⟩
        · exact .refl _ _
        · exact .inr ⟨hu, hu', by rw [hx]⟩
      rw [settleAll, settleAll, hs, hs']
      exact ⟨rfl, .cons (hstay hfirst) (hes.imp fun _ _ => hstay), by simp⟩
    · rw [settleAll, settleAll, hs, hs']
      refine ⟨hr, ?_, fun hok => List.rel_append hkept (hk hok)⟩
      exact List.rel_append (hkept.imp fun _ _ => AlikeKept.alike) ha

/-- Processors that no later call tells apart. -/
structure Similar (p q : Processor) : Prop where
  started : p.started = q.started
  finished : p.finished = q.finished
  processStart : p.processStart = q.processStart
  intervalStart : p.intervalStart = q.intervalStart
  entries : List.Forall₂ (Alike p.finished) p.entries q.entries

theorem Similar.symm {p q : Processor} (h : Similar p q) : Similar q p := by
  refine ⟨h.started.symm, h.finished.symm, h.processStart.symm, h.intervalStart.symm, ?_⟩
  rw [← h.finished]
  exact (h.entries.imp fun _ _ => Alike.symm).flip

theorem Similar.order {p q : Processor} (h : Similar p q) :
    p.entries.map (·.series) = q.entries.map (·.series) := by
  have hes := h.entries
  generalize p.entries = es at hes
  generalize q.entries = es' at hes
  induction hes with
  | nil => rfl
  | cons he _ ih => rw [List.map_cons, List.map_cons, he.series, ih]

theorem exported?_alike {p q : Processor} (hp : p.processStart = q.processStart)
    (hi : p.intervalStart = q.intervalStart) {c : Int} {e e' : Entry} (h : AlikeKept c e e') :
    exported? p c e = exported? q c e' := by
  rcases h with rfl | ⟨hs, hu, hu', h⟩
  · simp [exported?, hp, hi]
  · have hs' : e'.isStateful = true := by rw [h]; exact hs
    have htemp : e'.temporality = e.temporality := by rw [h]
    have htotal : e'.total = e.total := by rw [h]
    cases ht : e.temporality <;>
      simp [exported?, htemp, ht, hs, hs', htotal, hu.ne, hu'.ne, hp]

theorem records_alike {p q : Processor} (hp : p.processStart = q.processStart)
    (hi : p.intervalStart = q.intervalStart) {c : Int} (now : Time)
    (h : List.Forall₂ (AlikeKept c) p.entries q.entries) :
    p.records c now = q.records c now := by
  have hfilter : ∀ {es es' : List Entry}, List.Forall₂ (AlikeKept c) es es' →
      es.filterMap (fun e => (exported? p c e).map
        fun x => (⟨e.series, x.1, x.2, now⟩ : Record)) =
      es'.filterMap fun e => (exported? q c e).map
        fun x => (⟨e.series, x.1, x.2, now⟩ : Record) := by
    intro es es' h
    induction h with
    | nil => rfl
    | @cons e e' es es' he _ ih =>
      rw [List.filterMap_cons, List.filterMap_cons, ih, exported?_alike hp hi he,
        he.alike.series]
  exact congrArg (List.mergeSort · _) (hfilter h)

/-! ## Calls -/

theorem Similar.isCollecting {p q : Processor} (h : Similar p q) :
    p.isCollecting = q.isCollecting := by
  rw [Processor.isCollecting, Processor.isCollecting, h.started, h.finished]

variable {select : TemporalitySelector}

theorem Similar.offer {p q : Processor} (h : Similar p q) (acc : Accumulation) :
    (p.offer select acc).2 = (q.offer select acc).2 ∧
      Similar (p.offer select acc).1 (q.offer select acc).1 := by
  cases hc : p.isCollecting with
  | false =>
    rw [offer_of_not_collecting hc, offer_of_not_collecting (h.isCollecting ▸ hc)]
    exact ⟨rfl, h⟩
  | true =>
    have hc' := h.isCollecting ▸ hc
    rcases insert_alike select acc h.entries with
      ⟨cause, hx, hx'⟩ | ⟨xs, xs', hx, hx', hxs⟩
    · rw [h.finished] at hx'
      rw [offer_of_insert_error hc hx, offer_of_insert_error hc' hx']
      exact ⟨rfl, h⟩
    · rw [h.finished] at hx'
      rw [offer_of_insert_ok hc hx, offer_of_insert_ok hc' hx']
      exact ⟨rfl, h.started, h.finished, h.processStart, h.intervalStart, hxs⟩

theorem Similar.finishCollection {p q : Processor} (h : Similar p q) (now : Time) :
    (p.finishCollection now).2 = (q.finishCollection now).2 ∧
      Similar (p.finishCollection now).1 (q.finishCollection now).1 := by
  cases hc : p.isCollecting with
  | false =>
    rw [finishCollection_of_not_collecting now hc,
      finishCollection_of_not_collecting now (h.isCollecting ▸ hc)]
    exact ⟨rfl, h⟩
  | true =>
    have hc' := h.isCollecting ▸ hc
    obtain ⟨hr, ha, hk⟩ := settleAll_alike h.entries
    have hq : q.closed =
        { q with entries := (settleAll p.finished q.entries).1, finished := p.finished + 1 } := by
      rw [closed, h.finished]
    rw [h.finished] at hr
    cases hs : (settleAll q.finished q.entries).2 with
    | error cause =>
      rw [finishCollection_of_error now hc (h.finished ▸ hr.trans hs),
        finishCollection_of_error now hc' hs, hq]
      exact ⟨rfl, h.started, rfl, h.processStart, h.intervalStart, ha⟩
    | ok _ =>
      have hok : (settleAll p.finished p.entries).2 = .ok () := h.finished ▸ hr.trans hs
      have hrecords := records_alike (p := p.closed) (q := { q with
        entries := (settleAll p.finished q.entries).1, finished := p.finished + 1 })
        h.processStart h.intervalStart now (hk hok)
      rw [finishCollection_of_ok now hc hok, finishCollection_of_ok now hc' hs, hq, hrecords,
        h.intervalStart, ← h.finished]
      exact ⟨rfl, h.started, rfl, h.processStart, rfl, ha⟩

theorem Similar.abortCollection {p q : Processor} (h : Similar p q) :
    Similar p.abortCollection q.abortCollection := by
  refine ⟨h.finished, h.finished, h.processStart, h.intervalStart, ?_⟩
  show List.Forall₂ (Alike p.finished) (p.entries.filterMap (retract p.finished))
    (q.entries.filterMap (retract q.finished))
  rw [← h.finished]
  have hes := h.entries
  generalize p.entries = es at hes
  generalize q.entries = es' at hes
  induction hes with
  | nil => exact .nil
  | @cons e e' es es' he _ ih =>
    rw [List.filterMap_cons, List.filterMap_cons]
    rcases he with rfl | ⟨hu, hu', hx⟩
    · cases retract p.finished e with
      | none => exact ih
      | some x => exact .cons (.refl _ _) ih
    · rw [retract, retract, if_neg hu.ne, if_neg hu'.ne]
      exact .cons (.inr ⟨hu, hu', hx⟩) ih

theorem Similar.call (select : TemporalitySelector) {p q : Processor} (h : Similar p q) (c : Call) :
    (call select c p).2 = (call select c q).2 ∧
      Similar (call select c p).1 (call select c q).1 := by
  cases c with
  | start =>
    exact ⟨rfl, congrArg (· + 1) h.started, h.finished, h.processStart, h.intervalStart, h.entries⟩
  | process acc => exact ⟨congrArg Reply.processed (h.offer acc).1, (h.offer acc).2⟩
  | abort => exact ⟨rfl, h.abortCollection⟩
  | finish now =>
    exact ⟨congrArg Reply.finished (h.finishCollection now).1, (h.finishCollection now).2⟩

end Metering.Processor
