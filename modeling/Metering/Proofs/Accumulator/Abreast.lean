import Metering.Proofs.Accumulator.Prepared
import Metering.Proofs.Processor.Retimed

/-!
# Accumulators abreast

Two accumulators with the same steady callbacks are given the same measurements, and one of them
may also call its callbacks for collections that are cancelled. When both have made all their
calls, they hand over the same but for the stamps of last values, and a sweep leaves them abreast.
-/

namespace Metering.Accumulator

/-- Whether two recorded series hold the same from corresponding writes, and are as idle. -/
structure SameSeries (T : Retiming) (s t : LiveSeries) : Prop where
  current : Aggregator.Retimed T s.current t.current
  updates : t.updates = s.updates
  collected : t.collected = s.collected
  idleSweeps : t.idleSweeps = s.idleSweeps

structure Abreast (choose : Descriptor → Option Aggregator) (T : Retiming) (a b : Accumulator) :
    Prop where
  left : Prepared choose a
  right : Prepared choose b
  resource : b.resource = a.resource
  idleCycles : b.idleCycles = a.idleCycles
  reports : reports choose b = reports choose a
  recorded : (keys b).filter (!isObserved ·) = (keys a).filter (!isObserved ·)
  series : ∀ k, isObserved k = false →
    Option.Rel (SameSeries T) (seek k a.series) (seek k b.series)
  ordered : T.Ordered
  before : T.Before a.writes b.writes

/-- Whether the observed series were all observed, the same by corresponding writes. -/
structure Aligned (T : Retiming) (a b : Accumulator) : Prop where
  keys : (keys b).filter isObserved = (keys a).filter isObserved
  series : ∀ k, isObserved k = true →
    Option.Rel (fun s t => s.isPending = true ∧ t.isPending = true ∧
      Aggregator.Retimed T s.current t.current) (seek k a.series) (seek k b.series)

variable {choose : Descriptor → Option Aggregator} {T T' : Retiming} {a a' b b' : Accumulator}

theorem SameSeries.mono {s t : LiveSeries} (h : SameSeries T s t)
    (hT : ∀ t t', T t t' → T' t t') : SameSeries T' s t :=
  ⟨h.current.mono hT, h.updates, h.collected, h.idleSweeps⟩

theorem SameSeries.isPending_eq {s t : LiveSeries} (h : SameSeries T s t) :
    t.isPending = s.isPending := by
  rw [LiveSeries.isPending, LiveSeries.isPending, h.updates, h.collected]

theorem sameSeries_opened {k : SeriesKey} {g : Aggregator} (hg : Aggregator.IsNew k.1 g)
    (T : Retiming) : SameSeries T (.opened k g) (.opened k g) := ⟨hg.retimed T, rfl, rfl, rfl⟩

theorem SameSeries.add {s t : LiveSeries} (h : SameSeries T s t)
    (hd : t.descriptor = s.descriptor) (n : Number) {stamp stamp' : Stamp}
    (hT : T stamp.sequence stamp'.sequence) :
    SameSeries T (s.add n stamp) (t.add n stamp') := by
  refine ⟨?_, congrArg (· + 1) h.updates, h.collected, h.idleSweeps⟩
  rw [LiveSeries.add, LiveSeries.add, hd]
  exact h.current.update n hT

theorem abreast_new (resource : Resource) (idleCycles : Nat) (now : Time) :
    Abreast choose .none (new (.ofFunction choose) resource idleCycles now)
      (new (.ofFunction choose) resource idleCycles now) :=
  ⟨prepared_new .., prepared_new .., rfl, rfl, rfl, rfl, fun _ _ => .none,
    fun _ _ _ _ h => h.elim, fun _ _ h => h.elim⟩

theorem Abreast.undisturbed (h : Abreast choose T a b) (ha : Undisturbed choose a a')
    (hb : Undisturbed choose b b') : Abreast choose T a' b' := by
  refine ⟨ha.prepared, hb.prepared, ?_, ?_, ?_, ?_, fun k hk => ?_, h.ordered,
    h.before.mono ha.writes hb.writes⟩
  · rw [hb.resource, ha.resource, h.resource]
  · rw [hb.idleCycles, ha.idleCycles, h.idleCycles]
  · rw [hb.reports, ha.reports, h.reports]
  · rw [hb.recorded, ha.recorded, h.recorded]
  · rw [hb.series k hk, ha.series k hk]
    exact h.series k hk

theorem Abreast.register (h : Abreast choose T a b) (descriptors : List Descriptor)
    {calls : List (List CallbackAction)} (hs : Steady calls) :
    Abreast choose T (a.register descriptors calls).1 (b.register descriptors calls).1 := by
  obtain ⟨-, hsame, hseries⟩ := h.left.sound.register descriptors calls
  obtain ⟨-, hsame', hseries'⟩ := h.right.sound.register descriptors calls
  obtain ⟨os, -, hall⟩ := callbacks_register descriptors calls
  refine ⟨h.left.register descriptors hs, h.right.register descriptors hs, ?_, ?_, ?_, ?_,
    fun k hk => ?_, h.ordered, ?_⟩
  · rw [hsame'.resource, hsame.resource, h.resource]
  · rw [hsame'.idleCycles, hsame.idleCycles, h.idleCycles]
  · have hreports := h.reports
    rw [Accumulator.reports, Accumulator.reports] at hreports ⊢
    rw [(hall a).1, (hall b).1, List.flatMap_append, List.flatMap_append, hreports]
  · rw [keys, keys, hseries', hseries]
    exact h.recorded
  · rw [hseries', hseries]
    exact h.series k hk
  · rw [(hall a).2.2, (hall b).2.2]
    exact h.before

section
variable (hnew : ∀ d g, choose d = some g → Aggregator.IsNew d g)
include hnew

theorem Abreast.record (h : Abreast choose T a b) {m : Measurement}
    (hm : m.descriptor.kind.isSynchronous = true) :
    ∃ T' : Retiming, (∀ t t', T t t' → T' t t') ∧
      Abreast choose T' (a.record m) (b.record m) := by
  have hmeasured := measured_record h.left.sound.selector m
  have hmeasured' := measured_record h.right.sound.selector m
  have hcounted := h.left.held.allMade.counted_record h.left.sound.selector m
  have hcounted' := h.right.held.allMade.counted_record h.right.sound.selector m
  generalize hx : taken choose (.recorded m) = x? at hcounted hcounted'
  -- if the measurement is accepted, its writes correspond
  have hT := T.extend_of a.writes b.writes x?.toList.length
  refine ⟨T.extend a.writes b.writes x?.toList.length, hT, h.left.record hnew hm,
    h.right.record hnew hm, ?_, ?_, ?_, ?_, fun k hk => ?_, h.ordered.extend h.before _, ?_⟩
  · rw [hmeasured'.setup.resource, hmeasured.setup.resource, h.resource]
  · rw [hmeasured'.setup.idleCycles, hmeasured.setup.idleCycles, h.idleCycles]
  · have hreports := h.reports
    rw [Accumulator.reports, Accumulator.reports, callbacks, callbacks] at hreports ⊢
    rw [hmeasured'.observers, hmeasured.observers, hreports]
  · rw [hcounted'.keys, hcounted.keys, filter_enrolAll, filter_enrolAll, h.recorded]
  · have hold := (h.series k hk).mono fun _ _ hs => hs.mono hT
    by_cases hmk : m.key = k
    swap
    · rw [hmeasured'.frame k hmk, hmeasured.frame k hmk]
      exact hold
    subst hmk
    cases hg : choose m.key.1 with
    | none =>
      have hnone : x? = none := hx.symm.trans (taken_recorded_of_none hg)
      rw [hcounted.unchanged hnone, hcounted'.unchanged hnone]
      exact hold
    | some g =>
      rw [seek_record_given h.left.sound.selector hg, seek_record_given h.right.sound.selector hg]
      cases hn : given? choose m.key (.recorded m) with
      | none => exact hold
      | some n =>
        have hwrite : T.extend a.writes b.writes x?.toList.length a.writes b.writes := by
          refine .inr ⟨0, ?_, rfl, rfl⟩
          cases x? with
          | none => simp [given?, hx] at hn
          | some x => exact Nat.one_pos
        refine .some (SameSeries.add ?_ ?_ n hwrite)
        · generalize seek m.key a.series = s? at hold
          generalize seek m.key b.series = t? at hold
          cases hold with
          | none => exact sameSeries_opened (hnew _ g hg) _
          | some hs => exact hs
        · have hkey := slot_key (slot_eq hg a.series)
          have hkey' := slot_key (slot_eq hg b.series)
          exact congrArg Prod.fst (hkey'.trans hkey.symm)
  · rw [hcounted.writes, hcounted'.writes]
    exact h.before.extend _

/-! ## Sweeps -/

omit hnew in
theorem Abreast.mono (h : Abreast choose T a b) (hT : ∀ t t', T t t' → T' t t')
    (hordered : T'.Ordered) (hbefore : T'.Before a.writes b.writes) : Abreast choose T' a b :=
  { h with
    series := fun k hk => (h.series k hk).mono fun _ _ hs => hs.mono hT
    ordered := hordered
    before := hbefore }

omit hnew in
theorem Abreast.undisturbed_extend (h : Abreast choose T a b) (ha : Undisturbed choose a a')
    (hb : Undisturbed choose b b') {length : Nat} (hn : a'.writes = a.writes + length)
    (hn' : b'.writes = b.writes + length) :
    Abreast choose (T.extend a.writes b.writes length) a' b' := by
  refine (h.undisturbed ha hb).mono (T.extend_of a.writes b.writes length)
    (h.ordered.extend h.before length) ?_
  rw [hn, hn']
  exact h.before.extend length

/-- When both have made all reports, their observed series hold the same from
corresponding writes. -/
theorem aligned_of_took (h : Abreast choose T a b) (ha : Took choose (reports choose a) a a')
    (hb : Took choose (reports choose b) b b') :
    Aligned (T.extend a.writes b.writes (reports choose a).length) a' b' := by
  have hkeys := observed_of_took ha h.left
  have hkeys' := observed_of_took hb h.right
  rw [h.reports] at hb hkeys'
  refine ⟨hkeys'.trans hkeys.symm, fun k hk => ?_⟩
  have hrel := rel_getLast? (readings_timed_rel
    (R := T.extend a.writes b.writes (reports choose a).length) (reports choose a) a.stamp b.stamp
    (fun i hi => .inr ⟨i, hi, rfl, rfl⟩) k)
  generalize hl : (readings k (timed a.stamp (reports choose a))).getLast? = l at hrel
  generalize hl' : (readings k (timed b.stamp (reports choose a))).getLast? = l' at hrel
  cases hrel with
  | none =>
    have hnone : ∀ c : Accumulator,
        (keys c).filter isObserved = enrolAll [] (reports choose a) → seek k c.series = none := by
      intro c hc
      refine seek_eq_none.mpr fun hmem => ?_
      have hmem : k ∈ (keys c).filter isObserved := List.mem_filter.mpr ⟨hmem, hk⟩
      rw [hc, mem_enrolAll] at hmem
      rcases hmem with hmem | ⟨u, hu, huk⟩
      · simp at hmem
      · exact readings_timed_eq_nil.mp (List.getLast?_eq_none_iff.mp hl) u hu huk
    rw [hnone a' hkeys, hnone b' hkeys']
    exact .none
  | some hr =>
    obtain ⟨g, s, hg, hs, hreported⟩ := ha.reported k _ hl
    obtain ⟨g', t, hg', ht, hreported'⟩ := hb.reported k _ hl'
    obtain rfl : g = g' := Option.some.inj (hg.symm.trans hg')
    rw [hs, ht]
    refine .some ⟨?_, ?_, ?_⟩
    · simp [LiveSeries.isPending, hreported.collected.ne']
    · simp [LiveSeries.isPending, hreported'.collected.ne']
    · rw [hreported.current, hreported'.current, ← hr.1]
      exact ((hnew _ g hg).retimed _).update _ hr.2

omit hnew in
theorem Abreast.content (h : Abreast choose T a b) (hal : Aligned T a b) (k : SeriesKey) :
    Option.Rel (Aggregator.Retimed T) ((seek k a.series).bind LiveSeries.content)
      ((seek k b.series).bind LiveSeries.content) := by
  cases hk : isObserved k with
  | true =>
    have hseries := hal.series k hk
    generalize seek k a.series = s? at hseries
    generalize seek k b.series = t? at hseries
    cases hseries with
    | none => exact .none
    | some hst =>
      obtain ⟨hs, ht, hcurrent⟩ := hst
      simp only [Option.bind_some, LiveSeries.content, hs, ht, if_true]
      exact .some hcurrent
  | false =>
    have hseries := h.series k hk
    generalize seek k a.series = s? at hseries
    generalize seek k b.series = t? at hseries
    cases hseries with
    | none => exact .none
    | some hst =>
      simp only [Option.bind_some, LiveSeries.content, hst.isPending_eq]
      split
      · exact .some hst.current
      · exact .none

omit hnew in
theorem Abreast.filter_keys (h : Abreast choose T a b) (hal : Aligned T a b) (r : Relabelling)
    (k : SeriesKey) :
    (keys b).filter (fun k' => r.key k' = k) = (keys a).filter fun k' => r.key k' = k := by
  -- the keys that become the same are all observed, or all recorded
  have hkind : ∀ k', r.key k' = k → isObserved k' = isObserved k := by
    rintro k' rfl
    rfl
  have hsplit : ∀ p : SeriesKey → Bool, (∀ k', r.key k' = k → p k' = true) →
      (keys b).filter p = (keys a).filter p →
      (keys b).filter (fun k' => r.key k' = k) = (keys a).filter fun k' => r.key k' = k := by
    intro p hp hab
    have hall : ∀ ks : List SeriesKey, (ks.filter p).filter (fun k' => r.key k' = k) =
        ks.filter fun k' => r.key k' = k := by
      intro ks
      rw [List.filter_filter]
      refine List.filter_congr fun k' _ => ?_
      by_cases hk' : r.key k' = k
      · simp [hk', hp k' hk']
      · simp [hk']
    rw [← hall, hab, hall]
  cases hk : isObserved k with
  | true => exact hsplit isObserved (fun k' hk' => (hkind k' hk').trans hk) hal.keys
  | false =>
    refine hsplit (!isObserved ·) (fun k' hk' => ?_) h.recorded
    rw [hkind k' hk', hk]
    rfl

omit hnew in
theorem Abreast.retimedBatch (h : Abreast choose T a b) (hal : Aligned T a b) (r : Relabelling) :
    RetimedBatch T (handedOverAs r a.resource a) (handedOverAs r b.resource b) := by
  intro k
  rw [h.resource]
  obtain ⟨d, labels, resource⟩ := k
  by_cases hres : resource = a.resource
  · subst hres
    have hdata := fun c => dataOf_handedOverAs (a := c) r a.resource (d, labels)
    rw [hdata a, hdata b, map_current_joining h.left.sound.distinct,
      map_current_joining h.right.sound.distinct, h.filter_keys hal]
    refine List.rel_filterMap (R := Eq) ?_ (List.forall₂_eq_eq_eq ▸ rfl)
    rintro k' _ rfl
    exact h.content hal k'
  · have hnil : ∀ c, dataOf ⟨d, labels, resource⟩ (handedOverAs r a.resource c) = [] := by
      intro c
      rw [dataOf, List.map_eq_nil_iff, List.filter_eq_nil_iff]
      intro acc hacc hx
      obtain ⟨s, -, rfl⟩ := List.mem_map.mp hacc
      have hseries : ((handOver a.resource s).relabel r).series = ⟨d, labels, resource⟩ := by
        simpa using hx
      exact hres (congrArg SeriesId.resource hseries).symm
    rw [hnil, hnil]
    exact .nil

theorem SameSeries.swept {s t : LiveSeries} {epoch epoch' : Nat} {k : SeriesKey}
    (h : SameSeries T s t) (hs : Held choose epoch k s) (ht : Held choose epoch' k t) :
    SameSeries T s.swept t.swept := by
  rw [LiveSeries.swept, LiveSeries.swept, h.isPending_eq]
  cases hp : s.isPending with
  | true =>
    obtain ⟨g, hg, hmade, -⟩ := hs
    obtain ⟨g', hg', hmade', -⟩ := ht
    obtain rfl : g = g' := Option.some.inj (hg.symm.trans hg')
    refine ⟨?_, h.updates, h.updates, rfl⟩
    rw [if_pos rfl, if_pos rfl, emptied, emptied, hmade.descriptor, hmade'.descriptor,
      hmade.current, hmade'.current]
    exact (hnew _ g hg).retimed T
  | false =>
    rw [if_neg Bool.false_ne_true, if_neg Bool.false_ne_true, aged_of_not_pending hp,
      aged_of_not_pending (h.isPending_eq.trans hp)]
    exact ⟨h.current, h.updates, h.collected, congrArg (· + 1) h.idleSweeps⟩

omit hnew in
theorem Aligned.isPending (h : Aligned T a b) {k : SeriesKey} (hk : isObserved k = true) :
    (∀ s, seek k a.series = some s → s.isPending = true) ∧
      ∀ t, seek k b.series = some t → t.isPending = true := by
  have hrel := h.series k hk
  generalize seek k a.series = s? at hrel ⊢
  generalize seek k b.series = t? at hrel ⊢
  cases hrel with
  | none => simp
  | some hst =>
    obtain ⟨hs, ht, -⟩ := hst
    simp [hs, ht]

theorem Abreast.series_cleared (h : Abreast choose T a b) (ha : Cleared a a') (hb : Cleared b b')
    {k : SeriesKey} (hk : isObserved k = false) :
    Option.Rel (SameSeries T) (seek k a'.series) (seek k b'.series) := by
  have hold := h.series k hk
  have hheld := h.left.held k
  have hheld' := h.right.held k
  rw [ha.seeks, hb.seeks]
  generalize seek k a.series = s? at hold hheld ⊢
  generalize seek k b.series = t? at hold hheld' ⊢
  cases hold with
  | none => exact .none
  | @some s t hst =>
    have hswept := hst.swept hnew (hheld s rfl) (hheld' t rfl)
    have hevictable : b.isEvictable t.swept = a.isEvictable s.swept := by
      rw [isEvictable, isEvictable, h.idleCycles, hswept.idleSweeps, hswept.isPending_eq]
    rw [Option.map_some, Option.map_some, Option.filter_some, Option.filter_some, hevictable]
    split
    · exact .some hswept
    · exact .none

/-- A sweep of both leaves them abreast. -/
theorem Abreast.sweep (h : Abreast choose T a b) (hal : Aligned T a b) (ha : Cleared a a')
    (hb : Cleared b b') (events events' : List Event) :
    Abreast choose T { a' with epoch := a'.epoch + 1, now := a'.now + 1, events }
      { b' with epoch := b'.epoch + 1, now := b'.now + 1, events := events' } := by
  refine ⟨h.left.sweep hnew ha (fun _ s hk => (hal.isPending hk).1 s) _ events,
    h.right.sweep hnew hb (fun _ t hk => (hal.isPending hk).2 t) _ events', ?_, ?_, ?_, ?_,
    fun _ hk => h.series_cleared hnew ha hb hk, h.ordered, ?_⟩
  · exact hb.setup.resource.trans (h.resource.trans ha.setup.resource.symm)
  · exact hb.setup.idleCycles.trans (h.idleCycles.trans ha.setup.idleCycles.symm)
  · have hreports := h.reports
    rw [Accumulator.reports, Accumulator.reports, callbacks, callbacks] at hreports ⊢
    rw [hb.observers, ha.observers, hreports]
  · show (keys b').filter (!isObserved ·) = (keys a').filter (!isObserved ·)
    have hkept : ∀ k ∈ (keys a).filter (!isObserved ·),
        (seek k b'.series).isSome = (seek k a'.series).isSome := by
      intro k hk
      have hrel := h.series_cleared hnew ha hb (k := k) (by simpa using (List.mem_filter.mp hk).2)
      generalize seek k a'.series = s? at hrel
      generalize seek k b'.series = t? at hrel
      cases hrel <;> rfl
    rw [hb.keys, ha.keys, List.filter_comm, h.recorded, List.filter_congr hkept,
      List.filter_comm]
  · refine h.before.mono ?_ ?_
    · exact ha.writes.ge
    · exact hb.writes.ge

end

end Metering.Accumulator
