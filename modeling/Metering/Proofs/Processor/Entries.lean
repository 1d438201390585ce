import Metering.Proofs.Aggregator.Shape
import Metering.Proofs.Processor.Calls

/-!
# Entries by series

A processor holds at most one entry for a series. What an accumulation or the end of a collection
does to the entries is said series by series.
-/

namespace Metering.Processor

theorem bind_eq_ok {α β : Type} {x : Except MetricsError α}
    {f : α → Except MetricsError β} {b : β} (h : x >>= f = .ok b) :
    ∃ a, x = .ok a ∧ f a = .ok b := by
  cases x with
  | error cause => cases h
  | ok a => exact ⟨a, rfl, h⟩

theorem map_eq_ok {α β : Type} {x : Except MetricsError α} {f : α → β} {b : β}
    (h : f <$> x = .ok b) : ∃ a, x = .ok a ∧ f a = b := by
  cases x with
  | error cause => cases h
  | ok a => exact ⟨a, rfl, by simpa [Functor.map, Except.map] using h⟩

theorem bind_eq_error {α β : Type} {x : Except MetricsError α}
    {f : α → Except MetricsError β} {cause : MetricsError} (h : x >>= f = .error cause) :
    x = .error cause ∨ ∃ a, x = .ok a ∧ f a = .error cause := by
  cases x with
  | error cause' => cases h; exact .inl rfl
  | ok a => exact .inr ⟨a, rfl, h⟩

private theorem map_eq_error {α β : Type} {x : Except MetricsError α} {f : α → β}
    {cause : MetricsError} (h : f <$> x = .error cause) : x = .error cause := by
  cases x with
  | error cause' => cases h; rfl
  | ok a => cases h

def lookup (k : SeriesId) (es : List Entry) : Option Entry := es.find? (·.series = k)

@[simp] theorem lookup_nil (k : SeriesId) : lookup k [] = none := rfl

theorem lookup_cons (k : SeriesId) (e : Entry) (es : List Entry) :
    lookup k (e :: es) = if e.series = k then some e else lookup k es := by
  by_cases h : e.series = k <;> simp [lookup, h]

theorem lookup_series {k : SeriesId} {es : List Entry} {e : Entry} (h : lookup k es = some e) :
    e.series = k := by
  simpa using List.find?_some h

theorem lookup_mem {k : SeriesId} {es : List Entry} {e : Entry} (h : lookup k es = some e) :
    e ∈ es := List.mem_of_find?_eq_some h

theorem lookup_eq_none {k : SeriesId} {es : List Entry} :
    lookup k es = none ↔ k ∉ es.map (·.series) := by
  simp [lookup]

theorem lookup_of_mem {es : List Entry} {e : Entry} (hn : (es.map (·.series)).Nodup)
    (he : e ∈ es) : lookup e.series es = some e := by
  induction es with
  | nil => simp at he
  | cons e' es ih =>
    obtain ⟨hne, hn⟩ := List.nodup_cons.mp hn
    rw [lookup_cons]
    rcases List.mem_cons.mp he with rfl | he
    · simp
    · have hs : e'.series ≠ e.series := by
        intro h
        exact hne (List.mem_map.mpr ⟨e, he, h.symm⟩)
      rw [if_neg hs, ih hn he]

theorem lookup_perm {k : SeriesId} {es es' : List Entry} (hp : es'.Perm es)
    (hn : (es.map (·.series)).Nodup) : lookup k es' = lookup k es := by
  cases h : lookup k es with
  | none =>
    rw [lookup_eq_none] at h ⊢
    exact fun hk => h ((hp.map _).mem_iff.mp hk)
  | some e =>
    obtain rfl := lookup_series h
    exact lookup_of_mem ((hp.map _).nodup_iff.mpr hn) (hp.mem_iff.mpr (lookup_mem h))

/-! ## Accumulations -/

theorem receive_fields {c : Int} {acc : Accumulation} {e e' : Entry}
    (h : receive c acc e = .ok e') : e' = { e with current := e'.current, updated := c } := by
  unfold receive at h
  split at h
  next hu =>
    cases hm : e.current.merge acc.aggregator e.series.descriptor with
    | error cause => simp [hm, bind, Except.bind] at h
    | ok current =>
      obtain rfl : { e with current } = e' := by
        simpa [hm, bind, Except.bind, pure, Except.pure] using h
      rw [← hu]
  next =>
    obtain rfl : { e with current := acc.aggregator, updated := c } = e' := by
      simpa [pure, Except.pure] using h
    rfl

theorem receive_series {c : Int} {acc : Accumulation} {e e' : Entry}
    (h : receive c acc e = .ok e') : e'.series = e.series := by
  rw [receive_fields h]

/-- An accumulation that the entry of its series can receive changes that entry alone, or makes
it. -/
theorem insert_spec (select : TemporalitySelector) {c : Int} {acc : Accumulation}
    {es : List Entry} (received : Entry → Entry)
    (h : ∀ e, lookup acc.series es = some e → receive c acc e = .ok (received e)) :
    ∃ es', insert select c acc es = .ok es' ∧
      (∀ k, lookup k es' =
        if acc.series = k then some ((lookup k es).elim (newEntry select c acc) received)
        else lookup k es) ∧
      ((es.map (·.series)).Nodup → (es'.map (·.series)).Nodup) := by
  induction es with
  | nil =>
    refine ⟨[newEntry select c acc], rfl, fun k => ?_, by simp⟩
    rw [lookup_cons]
    rfl
  | cons e es ih =>
    by_cases he : e.series = acc.series
    · have hr := h e (by rw [lookup_cons, if_pos he])
      have hs := receive_series hr
      refine ⟨received e :: es, by simp [insert, he, hr, bind, Except.bind, pure, Except.pure],
        fun k => ?_, by simp [hs]⟩
      rw [lookup_cons, lookup_cons, hs, he]
      split <;> rfl
    · obtain ⟨es', hi, hl, hn⟩ := ih (by simpa [lookup_cons, he] using h)
      refine ⟨e :: es', by simp [insert, he, hi, bind, Except.bind, pure, Except.pure],
        fun k => ?_, fun hnd => ?_⟩
      · rw [lookup_cons, lookup_cons, hl]
        by_cases hk : e.series = k
        · have : acc.series ≠ k := fun h => he (hk.trans h.symm)
          simp [hk, this]
        · simp [hk]
      · obtain ⟨hne, hnd⟩ := List.nodup_cons.mp hnd
        refine List.nodup_cons.mpr ⟨?_, hn hnd⟩
        rw [← lookup_eq_none] at hne ⊢
        rw [hl, if_neg (Ne.symm he)]
        exact hne

/-- What new entries have and no accumulation takes away, all entries have. -/
theorem insert_forall {select : TemporalitySelector} {c : Int} {acc : Accumulation}
    {es es' : List Entry} {P : Entry → Prop} (hi : insert select c acc es = .ok es')
    (hnew : P (newEntry select c acc))
    (hreceive : ∀ e e', e.series = acc.series → P e → receive c acc e = .ok e' → P e')
    (h : ∀ e ∈ es, P e) : ∀ e ∈ es', P e := by
  induction es generalizing es' with
  | nil =>
    obtain rfl := Except.ok.inj hi
    simpa using hnew
  | cons e es ih =>
    obtain ⟨he, hes⟩ := List.forall_mem_cons.mp h
    rw [insert] at hi
    split at hi
    next hs =>
      obtain ⟨x, hx, hi⟩ := bind_eq_ok hi
      obtain rfl := Except.ok.inj hi
      exact List.forall_mem_cons.mpr ⟨hreceive e x hs he hx, hes⟩
    · obtain ⟨xs, hxs, hi⟩ := bind_eq_ok hi
      obtain rfl := Except.ok.inj hi
      exact List.forall_mem_cons.mpr ⟨he, ih hxs hes⟩

/-! ## The end of a collection -/

theorem retract_fields {c : Int} {e e' : Entry} (h : retract c e = some e') :
    e' = { e with updated := e'.updated } := by
  rw [retract] at h
  split at h
  · split at h
    · cases h
    · rw [← Option.some.inj h]
  · rw [← Option.some.inj h]

theorem mem_abortCollection {p : Processor} {e' : Entry} (h : e' ∈ p.abortCollection.entries) :
    ∃ e ∈ p.entries, e' = { e with updated := e'.updated } := by
  obtain ⟨e, he, hretract⟩ := List.mem_filterMap.mp h
  exact ⟨e, he, retract_fields hretract⟩

/-- What is kept of an entry at the end of a collection. -/
def settled (c : Int) (e : Entry) : Option Entry :=
  match settle c e with
  | .ok kept => kept
  | .error _ => none

private theorem precomputedDelta_fields {e e' : Entry} (h : precomputedDelta e = .ok e') :
    e' = { e with total := e'.total, delta := e'.delta } := by
  dsimp only [precomputedDelta] at h
  split at h <;>
  · obtain ⟨delta, -, h⟩ := bind_eq_ok h
    rw [← Except.ok.inj h]

private theorem accumulate_fields {e e' : Entry} (h : accumulate e = .ok e') :
    e' = { e with total := e'.total, delta := e'.delta } := by
  dsimp only [accumulate] at h
  split at h <;>
  · obtain ⟨total, -, h⟩ := bind_eq_ok h
    rw [← Except.ok.inj h]

/-- Settling changes the memory of an entry alone, which is not fresh any more. -/
theorem settled_fields {c : Int} {e e' : Entry} (h : settled c e = some e') :
    e' = { e with isFresh := false, total := e'.total, delta := e'.delta } := by
  have hs : settle c e = .ok (some e') := by
    unfold settled at h
    split at h
    next hk => rw [hk, h]
    next => simp at h
  dsimp only [settle] at hs
  split at hs
  · simp only [pure, Except.pure, Except.ok.injEq] at hs
    split at hs
    · rw [← Option.some.inj hs]
    · cases hs
  split at hs
  · simp only [pure, Except.pure, Except.ok.injEq, Option.some.injEq] at hs
    rw [← hs]
  split at hs
  · obtain ⟨e₁, h₁, h₂⟩ := map_eq_ok hs
    rw [← Option.some.inj h₂, precomputedDelta_fields h₁]
  · obtain ⟨e₁, h₁, h₂⟩ := map_eq_ok hs
    rw [← Option.some.inj h₂, accumulate_fields h₁]

theorem settled_series {c : Int} {e e' : Entry} (h : settled c e = some e') :
    e'.series = e.series := by
  rw [settled_fields h]

theorem settleAll_eq {c : Int} {es : List Entry} (h : ∀ e ∈ es, settle c e = .ok (settled c e)) :
    settleAll c es = (es.filterMap (settled c), .ok ()) := by
  induction es with
  | nil => rfl
  | cons e es ih =>
    rw [settleAll, h e (by simp), ih fun e' he => h e' (by simp [he])]
    cases hs : settled c e <;> simp [hs]

theorem settleAll_ok {c : Int} {es : List Entry} (h : (settleAll c es).2 = .ok ()) :
    (settleAll c es).1 = es.filterMap (settled c) := by
  induction es with
  | nil => rfl
  | cons e es ih =>
    cases hs : settle c e with
    | error cause => simp [settleAll, hs] at h
    | ok kept =>
      simp only [settleAll, hs] at h ⊢
      rw [ih h]
      cases kept <;> simp [settled, hs]

theorem settle_error {c : Int} {e : Entry} {cause : MetricsError}
    (h : settle c e = .error cause) : cause ≠ .inconsistentState := by
  rintro rfl
  simp only [settle] at h
  split at h
  · simp [pure, Except.pure] at h
  split at h
  · simp [pure, Except.pure] at h
  split at h
  · replace h := map_eq_error h
    simp only [precomputedDelta] at h
    split at h
    · rcases bind_eq_error h with h | ⟨_, -, h⟩
      · exact Aggregator.subtract_ne_inconsistentState h
      · cases h
    · cases h
  · replace h := map_eq_error h
    simp only [accumulate] at h
    split at h
    · rcases bind_eq_error h with h | ⟨_, -, h⟩
      · exact Aggregator.merge_ne_inconsistentState h
      · cases h
    · cases h

theorem settleAll_error {c : Int} {es : List Entry} {cause : MetricsError}
    (h : (settleAll c es).2 = .error cause) : cause ≠ .inconsistentState := by
  induction es with
  | nil => simp [settleAll] at h
  | cons e es ih =>
    cases hs : settle c e with
    | error cause' =>
      obtain rfl : cause' = cause := by simpa [settleAll, hs] using h
      exact settle_error hs
    | ok kept => exact ih (by simpa [settleAll, hs] using h)

theorem finishCollection_eq {p : Processor} (hp : p.isCollecting = true)
    (h : ∀ e ∈ p.entries, settle p.finished e = .ok (settled p.finished e)) (now : Time) :
    let q := { p with
      entries := p.entries.filterMap (settled p.finished), finished := p.finished + 1 }
    p.finishCollection now =
      ({ q with intervalStart := now }, .ok ⟨q.records p.finished now, p.intervalStart, now⟩) := by
  simp [finishCollection, hp, settleAll_eq h]

theorem lookup_filterMap {f : Entry → Option Entry} {es : List Entry}
    (hf : ∀ e e', f e = some e' → e'.series = e.series) (hn : (es.map (·.series)).Nodup)
    (k : SeriesId) : lookup k (es.filterMap f) = (lookup k es).bind f := by
  induction es with
  | nil => rfl
  | cons e es ih =>
    obtain ⟨hne, hn⟩ := List.nodup_cons.mp hn
    rw [lookup_cons]
    cases hfe : f e with
    | none =>
      rw [List.filterMap_cons_none hfe, ih hn]
      split
      next hk =>
        subst hk
        rw [lookup_eq_none.mpr hne, Option.bind_some, hfe, Option.bind_none]
      next => rfl
    | some e' =>
      rw [List.filterMap_cons_some hfe, lookup_cons, hf e e' hfe, ih hn]
      split
      · rw [Option.bind_some, hfe]
      · rfl

theorem filterMap_series_sublist {f : Entry → Option Entry}
    (hf : ∀ e e', f e = some e' → e'.series = e.series) (es : List Entry) :
    ((es.filterMap f).map (·.series)).Sublist (es.map (·.series)) := by
  induction es with
  | nil => exact .slnil
  | cons e es ih =>
    cases hfe : f e with
    | none => rw [List.filterMap_cons_none hfe]; exact ih.cons _
    | some e' =>
      rw [List.filterMap_cons_some hfe, List.map_cons, List.map_cons, hf e e' hfe]
      exact ih.cons_cons _

/-! ## Records -/

theorem mem_records {p : Processor} {c : Int} {now : Time} {r : Record} :
    r ∈ p.records c now ↔
      ∃ e ∈ p.entries, ∃ a start, exported? p c e = some (a, start) ∧
        r = ⟨e.series, a, start, now⟩ := by
  simp [records, eq_comm]

theorem records_series_nodup {p : Processor} (c : Int) (now : Time)
    (hn : (p.entries.map (·.series)).Nodup) :
    ((p.records c now).map (·.series)).Nodup := by
  have hp : ((p.records c now).map Record.series).Perm _ :=
    (List.mergeSort_perm _ _).map Record.series
  refine hp.nodup_iff.mpr ?_
  rw [List.map_filterMap]
  refine hn.sublist ?_
  induction p.entries with
  | nil => exact .slnil
  | cons e es ih =>
    cases hx : exported? p c e with
    | none => rw [List.filterMap_cons_none (by simp [hx])]; exact ih.cons _
    | some x => rw [List.filterMap_cons_some (by rw [hx]; rfl)]; exact ih.cons_cons _

theorem exists_record_iff {p : Processor} {c : Int} {now : Time}
    (hn : (p.entries.map (·.series)).Nodup) (k : SeriesId) (a : Aggregator) :
    (∃ r ∈ p.records c now, r.series = k ∧ r.aggregator = a) ↔
      ∃ e, lookup k p.entries = some e ∧ ∃ start, exported? p c e = some (a, start) := by
  constructor
  · rintro ⟨r, hr, rfl, rfl⟩
    obtain ⟨e, he, a, start, hx, rfl⟩ := mem_records.mp hr
    exact ⟨e, lookup_of_mem hn he, start, hx⟩
  · rintro ⟨e, he, start, hx⟩
    exact ⟨⟨e.series, a, start, now⟩, mem_records.mpr ⟨e, lookup_mem he, a, start, hx, rfl⟩,
      lookup_series he, rfl⟩

end Metering.Processor
