import Metering.Proofs.Attribute.Canonical
import Metering.Proofs.Processor.Brackets
import Metering.Proofs.Processor.Persistence

/-!
# The order of the records in a checkpoint set

Records are sorted by name, labels and resource. These do not tell instruments of one name apart
that differ otherwise. Where no two of them are exported for the same labels and resource, nothing
but what is exported decides on the order of the records.
-/

namespace Metering

open Std (TransCmp OrientedCmp)

/-- A name, labels and a resource: what of a series counts for the order of its record. -/
abbrev SortKey := String × LabelSet × Resource

def SeriesId.sortKey (k : SeriesId) : SortKey := (k.descriptor.name, k.labels, k.resource)

def compareSortKeys (a b : SortKey) : Ordering :=
  (compare a.1 b.1).then <|
    (compare a.2.1.encoded b.2.1.encoded).then <| compare a.2.2.identity b.2.2.identity

instance : TransCmp compareSortKeys :=
  inferInstanceAs (TransCmp (compareLex (compareOn fun a : SortKey => a.1)
    (compareLex (compareOn fun a : SortKey => a.2.1.encoded)
      (compareOn fun a : SortKey => a.2.2.identity))))

theorem LabelSet.encoded_inj {s t : LabelSet} (h : s.encoded = t.encoded) : s = t := by
  obtain ⟨es, _⟩ := s
  obtain ⟨fs, _⟩ := t
  obtain rfl : es = fs := Canonical.encode_inj h
  rfl

theorem compareSortKeys_eq_iff {a b : SortKey} :
    compareSortKeys a b = .eq ↔ a = b := by
  constructor
  · intro h
    simp only [compareSortKeys, Ordering.then_eq_eq, Std.LawfulEqOrd.compare_eq_iff_eq] at h
    obtain ⟨hname, hlabels, hresource⟩ := h
    have hresource' : a.2.2 = b.2.2 := congrArg Resource.mk (LabelSet.encoded_inj hresource)
    exact Prod.ext hname (Prod.ext (LabelSet.encoded_inj hlabels) hresource')
  · rintro rfl
    exact Std.ReflCmp.compare_self

theorem SeriesId.ext_sortKey {k k' : SeriesId} (h : k.sortKey = k'.sortKey)
    (hd : k.descriptor = k'.descriptor) : k = k' := by
  obtain ⟨d, labels, resource⟩ := k
  obtain ⟨d', labels', resource'⟩ := k'
  simp_all [sortKey]

namespace Record

theorem compareKeys_eq (r r' : Record) :
    r.compareKeys r' = compareSortKeys r.series.sortKey r'.series.sortKey := rfl

theorem compareKeys_eq_iff {r r' : Record} :
    r.compareKeys r' = .eq ↔ r.series.sortKey = r'.series.sortKey := by
  rw [compareKeys_eq, compareSortKeys_eq_iff]

theorem compareKeys_trans (r r' r'' : Record) (h : (r.compareKeys r').isLE = true)
    (h' : (r'.compareKeys r'').isLE = true) : (r.compareKeys r'').isLE = true := by
  rw [compareKeys_eq] at h h' ⊢
  exact TransCmp.isLE_trans h h'

theorem compareKeys_total (r r' : Record) :
    ((r.compareKeys r').isLE || (r'.compareKeys r).isLE) = true := by
  have hswap : compareSortKeys r'.series.sortKey r.series.sortKey = _ := OrientedCmp.eq_swap
  rw [compareKeys_eq, compareKeys_eq, hswap]
  cases compareSortKeys r.series.sortKey r'.series.sortKey <;> rfl

/-- Whether records are in order. Those that the order does not tell apart are of instruments with
one name. -/
def Ordered (rs : List Record) : Prop :=
  rs.Pairwise fun r r' => r.compareKeys r' = .lt ∨
    r.series.sortKey = r'.series.sortKey ∧ r.series.descriptor ≠ r'.series.descriptor

/-- Whether no two instruments of one name have records for the same labels and resource. -/
def Distinguished (rs : List Record) : Prop :=
  ∀ r ∈ rs, ∀ r' ∈ rs, r.series.sortKey = r'.series.sortKey →
    r.series.descriptor = r'.series.descriptor

/-- Whether lists of records are in the same order, as far as names, labels and resources tell. -/
def SameOrder (rs rs' : List Record) : Prop :=
  rs'.map (·.series.sortKey) = rs.map (·.series.sortKey) ∧
    (Distinguished rs → rs'.map (·.series) = rs.map (·.series))

variable {rs rs' : List Record}

theorem ordered_of_sorted (h : rs.Pairwise fun r r' => (r.compareKeys r').isLE = true)
    (hn : (rs.map (·.series)).Nodup) : Ordered rs := by
  refine (h.and (List.pairwise_map.mp hn)).imp fun {r r'} ⟨hle, hne⟩ => ?_
  rcases Ordering.isLE_iff_eq_lt_or_eq_eq.mp hle with hlt | heq
  · exact .inl hlt
  · have hkey := compareKeys_eq_iff.mp heq
    exact .inr ⟨hkey, fun hd => hne (SeriesId.ext_sortKey hkey hd)⟩

theorem Ordered.strict_iff (h : Ordered rs) :
    (rs.Pairwise fun r r' => r.compareKeys r' = .lt) ↔ Distinguished rs := by
  constructor
  · intro hstrict r hr r' hr' hkey
    by_contra hne
    let Apart (r r' : Record) : Prop := r.series.sortKey ≠ r'.series.sortKey
    have hsymm : Std.Symm Apart := ⟨fun _ _ => Ne.symm⟩
    have hapart : rs.Pairwise Apart :=
      hstrict.imp fun {r r'} hlt heq => by simp [compareKeys_eq_iff.mpr heq] at hlt
    exact hapart.forall hr hr' (fun heq => hne (heq ▸ rfl)) hkey
  · intro hd
    refine h.imp_of_mem fun {r r'} hr hr' hrel => ?_
    rcases hrel with hlt | ⟨hkey, hne⟩
    · exact hlt
    · exact absurd (hd r hr r' hr' hkey) hne

theorem Ordered.isLE (h : Ordered rs) :
    rs.Pairwise fun r r' => (compareSortKeys r.series.sortKey r'.series.sortKey).isLE = true := by
  refine h.imp fun {r r'} hrel => ?_
  rcases hrel with hlt | ⟨hkey, -⟩
  · rw [← compareKeys_eq, hlt]
    rfl
  · rw [compareSortKeys_eq_iff.mpr hkey]
    rfl

theorem Distinguished.congr (h : Distinguished rs)
    (hp : (rs'.map (·.series)).Perm (rs.map (·.series))) : Distinguished rs' := by
  intro r hr r' hr' hkey
  obtain ⟨q, hq, hqr⟩ := List.mem_map.mp (hp.subset (List.mem_map_of_mem hr))
  obtain ⟨q', hq', hqr'⟩ := List.mem_map.mp (hp.subset (List.mem_map_of_mem hr'))
  rw [← hqr, ← hqr'] at hkey ⊢
  exact h q hq q' hq' hkey

/-- The series alone decide on the order. -/
theorem Ordered.sameOrder (h : Ordered rs) (h' : Ordered rs')
    (hp : (rs'.map (·.series)).Perm (rs.map (·.series))) : SameOrder rs rs' := by
  constructor
  · let le (a b : SortKey) : Prop := (compareSortKeys a b).isLE = true
    have hsorted : (rs.map (·.series.sortKey)).Pairwise le := List.pairwise_map.mpr h.isLE
    have hsorted' : (rs'.map (·.series.sortKey)).Pairwise le := List.pairwise_map.mpr h'.isLE
    have hkeys := hp.map SeriesId.sortKey
    rw [List.map_map, List.map_map] at hkeys
    refine hkeys.eq_of_pairwise (fun a b _ _ hab hba => ?_) hsorted' hsorted
    exact compareSortKeys_eq_iff.mp (OrientedCmp.isLE_antisymm hab hba)
  · intro hd
    let lt (a b : SeriesId) : Prop := compareSortKeys a.sortKey b.sortKey = .lt
    have hsorted : (rs.map (·.series)).Pairwise lt := List.pairwise_map.mpr (h.strict_iff.mpr hd)
    have hsorted' : (rs'.map (·.series)).Pairwise lt :=
      List.pairwise_map.mpr (h'.strict_iff.mpr (hd.congr hp))
    refine hp.eq_of_pairwise (fun a b _ _ hab hba => ?_) hsorted' hsorted
    exact absurd hba (OrientedCmp.not_lt_of_lt hab)

end Record
namespace Processor

open Record (Ordered SameOrder)

variable {select : TemporalitySelector} {p q : Processor} {c : Int} {e e' : Entry} {now : Time}
  {set : CheckpointSet}

theorem ordered_records (hn : (p.entries.map (·.series)).Nodup) (c : Int) (now : Time) :
    Ordered (p.records c now) := by
  refine Record.ordered_of_sorted ?_ (records_series_nodup c now hn)
  exact List.pairwise_mergeSort Record.compareKeys_trans Record.compareKeys_total _

/-! ## What is exported -/

/-- Whether an entry remembers values for changes only if it is one of a precomputed sum: other
instruments report changes by themselves. -/
def Sound (e : Entry) : Prop :=
  e.isStateful = true → e.temporality = .delta →
    e.series.descriptor.kind.isPrecomputedSum = true

theorem sound_newEntry (select : TemporalitySelector) (c : Int) (acc : Accumulation) :
    Sound (newEntry select c acc) := by
  intro hstateful hdelta
  rcases needsMemory_iff.mp hstateful with ⟨-, hcumulative⟩ | ⟨hp, -⟩
  · have hdelta : select acc.series.descriptor acc.aggregator.kind = .delta := hdelta
    rw [hdelta] at hcumulative
    cases hcumulative
  · exact hp

/-- Whether something of an entry is exported if its collection ends well: always if it was updated,
and otherwise if it has a total to export. -/
def IsExported (c : Int) (e : Entry) : Prop :=
  e.updated = c ∨ e.isStateful = true ∧ e.temporality = .cumulative ∧ e.total.isSome = true

theorem settle_stale (hu : e.updated ≠ c) :
    settle c e = .ok (if e.isStateful then some { e with isFresh := false } else none) := by
  cases hs : e.isStateful <;> simp [settle, hs, hu, pure, Except.pure]

theorem settle_updated (hu : e.updated = c) {kept : Option Entry} (h : settle c e = .ok kept) :
    ∃ e', kept = some e' := by
  cases hs : e.isStateful with
  | false =>
    simp only [settle, hs, hu, pure, Except.pure] at h
    exact ⟨_, (Except.ok.inj h).symm⟩
  | true =>
    simp only [settle, hs, hu, Bool.not_true, Bool.false_eq_true, if_false, ne_eq,
      not_true_eq_false] at h
    split at h <;>
    · obtain ⟨e', -, h⟩ := map_eq_ok h
      exact ⟨e', h.symm⟩

theorem isSome_exported?_iff (p : Processor) (c : Int) (e : Entry) :
    (exported? p c e).isSome = true ↔
      e.isStateful = false ∨ (e.temporality = .cumulative ∧ e.total.isSome = true) ∨
        (e.temporality = .delta ∧ e.updated = c ∧ e.delta.isSome = true) := by
  cases hs : e.isStateful <;> cases ht : e.temporality <;> simp only [exported?, hs, ht]
  · simp
  · simp
  · simp
  · split <;> simp_all

theorem Settled.exported (hsound : Sound e) (hu : e.updated = c) (h : Settled c e e')
    (p : Processor) : (exported? p c e').isSome = true := by
  rw [isSome_exported?_iff]
  cases hs : e.isStateful with
  | false => cases h <;> exact .inl hs
  | true =>
    cases h with
    | same hstale => exact absurd hu (hstale hs)
    | changed hp delta hd =>
      cases ht : e.temporality with
      | cumulative => exact .inr (.inl ⟨rfl, rfl⟩)
      | delta => exact .inr (.inr ⟨rfl, hu, rfl⟩)
    | added hp total htotal =>
      cases ht : e.temporality with
      | cumulative => exact .inr (.inl ⟨rfl, rfl⟩)
      | delta => exact absurd (hsound hs ht) (by simp [hp])

theorem exported_settled_iff (hsound : Sound e) {kept : Option Entry}
    (h : settle c e = .ok kept) (p : Processor) :
    (∃ e' ∈ kept, (exported? p c e').isSome = true) ↔ IsExported c e := by
  by_cases hu : e.updated = c
  · obtain ⟨e', rfl⟩ := settle_updated hu h
    have hexported := (settle_cases h).exported hsound hu p
    simp [IsExported, hu, hexported]
  · obtain rfl := Except.ok.inj ((settle_stale hu).symm.trans h)
    cases hs : e.isStateful <;> simp [isSome_exported?_iff, IsExported, hs, hu]

theorem settle_of_settleAll {es : List Entry} (h : (settleAll c es).2 = .ok ()) :
    ∀ e ∈ es, settle c e = .ok (settled c e) := by
  induction es with
  | nil => simp
  | cons e es ih =>
    rw [settleAll] at h
    cases hs : settle c e with
    | error cause =>
      rw [hs] at h
      cases h
    | ok kept =>
      rw [hs] at h
      refine List.forall_mem_cons.mpr ⟨?_, ih h⟩
      rw [settled, hs]

/-- Whether something of a series is exported if the collection ends well now. -/
def Exports (p : Processor) (k : SeriesId) : Prop :=
  ∃ e ∈ p.entries, e.series = k ∧ IsExported p.finished e

/-- The entries of different series, all of them sound. -/
structure Orderly (p : Processor) : Prop where
  distinct : (p.entries.map (·.series)).Nodup
  sound : ∀ e ∈ p.entries, Sound e

theorem finished_ok (h : (p.finishCollection now).2 = .ok set) :
    p.isCollecting = true ∧ ∀ e ∈ p.entries, settle p.finished e = .ok (settled p.finished e) := by
  obtain ⟨-, hfinish⟩ | ⟨-, cause, -, hfinish⟩ | ⟨hp, hs, -⟩ := finishCollection_cases now p
  · rw [hfinish] at h
    cases h
  · rw [hfinish] at h
    cases h
  · exact ⟨hp, settle_of_settleAll hs⟩

theorem Orderly.exports_iff (h : Orderly p)
    (hset : (p.finishCollection now).2 = .ok set) (k : SeriesId) :
    k ∈ set.records.map (·.series) ↔ p.Exports k := by
  obtain ⟨-, hsettle⟩ := finished_ok hset
  obtain ⟨-, hrecords⟩ := records_of_finishCollection hset
  rw [hrecords, List.mem_map]
  constructor
  · rintro ⟨r, hr, rfl⟩
    obtain ⟨e', he', a, start, hx, rfl⟩ := mem_records.mp hr
    obtain ⟨e, he, hs⟩ := List.mem_filterMap.mp he'
    refine ⟨e, he, (settled_series hs).symm, ?_⟩
    exact (exported_settled_iff (h.sound e he) (hsettle e he) _).mp ⟨e', hs, by rw [hx]; rfl⟩
  · rintro ⟨e, he, rfl, hx⟩
    obtain ⟨e', hs, hx⟩ := (exported_settled_iff (h.sound e he) (hsettle e he) _).mpr hx
    obtain ⟨⟨a, start⟩, hx⟩ := Option.isSome_iff_exists.mp hx
    exact ⟨_, mem_records.mpr ⟨e', List.mem_filterMap.mpr ⟨e, he, hs⟩, a, start, hx, rfl⟩,
      settled_series hs⟩

/-! ## Accumulations -/

variable {acc : Accumulation} {es es' : List Entry} {k : SeriesId}

theorem insert_exports (h : insert select c acc es = .ok es') :
    (∃ e ∈ es', e.series = k ∧ IsExported c e) ↔
      acc.series = k ∨ ∃ e ∈ es, e.series = k ∧ IsExported c e := by
  induction es generalizing es' with
  | nil =>
    obtain rfl := Except.ok.inj h
    simp [newEntry, IsExported]
  | cons e es ih =>
    rw [insert] at h
    split at h
    next hs =>
      obtain ⟨e', hr, h⟩ := bind_eq_ok h
      obtain rfl := Except.ok.inj h
      have hseries := receive_series hr
      have hexported : IsExported c e' := .inl (by rw [receive_fields hr])
      simp only [List.exists_mem_cons_iff, hseries, hexported, hs]
      tauto
    · obtain ⟨xs, hxs, h⟩ := bind_eq_ok h
      obtain rfl := Except.ok.inj h
      simp only [List.exists_mem_cons_iff, ih hxs]
      tauto

theorem insert_error_exports {cause : MetricsError} (h : insert select c acc es = .error cause) :
    ∃ e ∈ es, e.series = acc.series ∧ IsExported c e := by
  induction es with
  | nil => cases h
  | cons e es ih =>
    rw [insert] at h
    split at h
    next hs =>
      refine ⟨e, by simp, hs, .inl ?_⟩
      obtain h | ⟨e', -, h⟩ := bind_eq_error h
      · rw [receive] at h
        split at h
        next hu => exact hu
        next => cases h
      · cases h
    · obtain h | ⟨xs, -, h⟩ := bind_eq_error h
      · obtain ⟨e', he', hx⟩ := ih h
        exact ⟨e', List.mem_cons_of_mem _ he', hx⟩
      · cases h

theorem exports_offer (hp : p.isCollecting = true) :
    (p.offer select acc).1.Exports k ↔ acc.series = k ∨ p.Exports k := by
  cases hi : insert select p.finished acc p.entries with
  | error cause =>
    rw [offer_of_insert_error hp hi]
    refine ⟨.inr, fun h => h.elim (fun hk => ?_) id⟩
    obtain ⟨e, he, hs, hx⟩ := insert_error_exports hi
    exact ⟨e, he, hs.trans hk, hx⟩
  | ok entries =>
    rw [offer_of_insert_ok hp hi]
    exact insert_exports hi

theorem isCollecting_offerAll (batch : List Accumulation) (p : Processor) :
    (offerAll select batch p).isCollecting = p.isCollecting := by
  induction batch generalizing p with
  | nil => rfl
  | cons acc batch ih =>
    obtain ⟨hstarted, hfinished⟩ := offer_counters select acc p
    rw [offerAll_cons, ih, isCollecting, isCollecting, hstarted, hfinished]

/-- Exactly the series of the accumulations come to what is exported, in any order. -/
theorem exports_offerAll (batch : List Accumulation) (hp : p.isCollecting = true) :
    (offerAll select batch p).Exports k ↔ (∃ acc ∈ batch, acc.series = k) ∨ p.Exports k := by
  induction batch generalizing p with
  | nil => simp [offerAll]
  | cons acc batch ih =>
    obtain ⟨hstarted, hfinished⟩ := offer_counters select acc p
    have hp' : (p.offer select acc).1.isCollecting = true := by
      rwa [isCollecting, hstarted, hfinished]
    rw [offerAll_cons, ih hp', exports_offer hp, List.exists_mem_cons_iff, or_assoc, or_left_comm]

/-! ## Reachable states -/

/-- The states that a processor can reach. In which order it goes through its entries is open at
any time. -/
inductive Reachable (select : TemporalitySelector) : Processor → Prop
  | new (created : Time) : Reachable select (new created)
  | call {p : Processor} (h : Reachable select p) (c : Call) :
      Reachable select (Processor.call select c p).1
  | reordered {p : Processor} {entries : List Entry} (h : Reachable select p)
      (hp : entries.Perm p.entries) : Reachable select { p with entries }

theorem Reachable.run (h : Reachable select p) (calls : List Call) :
    Reachable select (Processor.run select calls p).1 := by
  induction calls generalizing p with
  | nil => exact h
  | cons c calls ih => exact ih (h.call c)

theorem Orderly.reordered (h : Orderly p) (hp : es.Perm p.entries) :
    Orderly { p with entries := es } :=
  ⟨(hp.map _).nodup_iff.mpr h.distinct, fun e he => h.sound e (hp.mem_iff.mp he)⟩

theorem Orderly.offer (h : Orderly p) (acc : Accumulation) :
    Orderly (p.offer select acc).1 := by
  obtain hsame | ⟨entries, -, hi, hoffer⟩ := offer_cases select acc p
  · rw [hsame]
    exact h
  · rw [hoffer]
    refine ⟨insert_nodup hi h.distinct, ?_⟩
    refine insert_forall hi (sound_newEntry select _ acc) (fun e e' _ hsound hr => ?_) h.sound
    rw [receive_fields hr]
    exact hsound

theorem Orderly.abort (h : Orderly p) : Orderly p.abortCollection := by
  refine ⟨h.distinct.sublist (filterMap_series_sublist (fun e e' => retract_series) _), ?_⟩
  intro e' he'
  obtain ⟨e, he, hfields⟩ := mem_abortCollection he'
  rw [hfields]
  exact h.sound e he

theorem Orderly.finish (h : Orderly p) (now : Time) : Orderly (p.finishCollection now).1 := by
  obtain hentries | hentries := finishCollection_entries now p
  · constructor <;> rw [hentries]
    · exact h.distinct
    · exact h.sound
  · constructor <;> rw [hentries]
    · exact h.distinct.sublist (settleAll_series_sublist _ _)
    · intro e' he'
      obtain ⟨e, he, hs | rfl | rfl⟩ := mem_settleAll he'
      · cases hs <;> exact h.sound e he
      · exact h.sound e' he
      · exact h.sound e he

theorem Reachable.orderly (h : Reachable select p) : Orderly p := by
  induction h with
  | new created => exact ⟨.nil, by simp [Processor.new]⟩
  | call h c ih =>
    cases c with
    | start => exact ⟨ih.distinct, ih.sound⟩
    | process acc => exact ih.offer acc
    | abort => exact ih.abort
    | finish now => exact ih.finish now
  | reordered h hp ih => exact ih.reordered hp

theorem Reachable.offerAll (h : Reachable select p) (batch : List Accumulation) :
    Reachable select (Processor.offerAll select batch p) :=
  run_process_fst batch p ▸ h.run _

/-! ## Checkpoint sets -/

theorem Orderly.finished_ordered (h : Orderly p) (hset : (p.finishCollection now).2 = .ok set) :
    Ordered set.records := by
  obtain ⟨hentries, hrecords⟩ := records_of_finishCollection hset
  rw [hrecords]
  exact ordered_records (hentries ▸ (h.finish now).distinct) _ _

theorem Orderly.finished_nodup (h : Orderly p) (hset : (p.finishCollection now).2 = .ok set) :
    (set.records.map (·.series)).Nodup := by
  obtain ⟨hentries, hrecords⟩ := records_of_finishCollection hset
  rw [hrecords]
  exact records_series_nodup _ _ (hentries ▸ (h.finish now).distinct)

theorem Orderly.sameOrder (h : Orderly p) (hset : (p.finishCollection now).2 = .ok set)
    (h' : Orderly q) {now' : Time} {set' : CheckpointSet}
    (hset' : (q.finishCollection now').2 = .ok set') (hk : ∀ k, q.Exports k ↔ p.Exports k) :
    SameOrder set.records set'.records := by
  refine (h.finished_ordered hset).sameOrder (h'.finished_ordered hset') ?_
  refine (List.perm_ext_iff_of_nodup ?_ ?_).mpr fun k => ?_
  · exact h'.finished_nodup hset'
  · exact h.finished_nodup hset
  · rw [h'.exports_iff hset', h.exports_iff hset, hk]

/-- The end of a collection that goes through the entries in another order exports the same. -/
theorem finishCollection_reordered (hset : (p.finishCollection now).2 = .ok set)
    (hp : es.Perm p.entries) : ∃ set', (({ p with entries := es } : Processor).finishCollection
      now).2 = .ok set' ∧ set'.records.Perm set.records := by
  obtain ⟨hcollecting, hsettle⟩ := finished_ok hset
  obtain ⟨-, hrecords⟩ := records_of_finishCollection hset
  have hfinish := finishCollection_eq (p := { p with entries := es }) hcollecting
    (fun e he => hsettle e (hp.mem_iff.mp he)) now
  refine ⟨_, by rw [hfinish], ?_⟩
  rw [hrecords]
  refine (List.mergeSort_perm _ _).trans (.trans ?_ (List.mergeSort_perm _ _).symm)
  exact (hp.filterMap _).filterMap _

/-- The records of a checkpoint set are sorted, and those with one name, labels and resource are of
different instruments. Exactly without such records they are strictly sorted. The order is that of
any other checkpoint set with records of the same series; it does not depend on the order in which
the processor goes through its entries, nor on that in which the accumulations were processed. -/
theorem checkpoint_order (h : Reachable select p) (hset : (p.finishCollection now).2 = .ok set) :
    Ordered set.records ∧
    ((set.records.Pairwise fun r r' => r.compareKeys r' = .lt) ↔
      Record.Distinguished set.records) ∧
    (∀ select' q now' set', Reachable select' q → (q.finishCollection now').2 = .ok set' →
      (set'.records.map (·.series)).Perm (set.records.map (·.series)) →
      SameOrder set.records set'.records) ∧
    (∀ entries, entries.Perm p.entries → ∃ set',
      (({ p with entries } : Processor).finishCollection now).2 = .ok set' ∧
        set'.records.Perm set.records ∧ SameOrder set.records set'.records) ∧
    ∀ q batch batch' now' set', Reachable select q → p = offerAll select batch q →
      batch'.Perm batch → ((offerAll select batch' q).finishCollection now').2 = .ok set' →
      SameOrder set.records set'.records := by
  have hordered := h.orderly.finished_ordered hset
  refine ⟨hordered, hordered.strict_iff, ?_, ?_, ?_⟩
  · intro select' q now' set' hq hset' hperm
    exact hordered.sameOrder (hq.orderly.finished_ordered hset') hperm
  · intro entries hp
    obtain ⟨set', hset', hperm⟩ := finishCollection_reordered hset hp
    have hordered' := (h.orderly.reordered hp).finished_ordered hset'
    exact ⟨set', hset', hperm, hordered.sameOrder hordered' (hperm.map _)⟩
  · rintro q batch batch' now' set' hq rfl hbatch hset'
    have hcollecting := (finished_ok hset).1
    rw [isCollecting_offerAll] at hcollecting
    refine h.orderly.sameOrder hset (hq.offerAll batch').orderly hset' fun k => ?_
    rw [exports_offerAll _ hcollecting, exports_offerAll _ hcollecting]
    simp only [hbatch.mem_iff]

/-- Two collections of the same requests and errors, in different orders. -/
theorem checkpoint_order_requests :
    let id (name : String) : SeriesId :=
      ⟨{ name, kind := .counter, numberKind := .u64 }, .empty, .empty⟩
    let select := Temporality.constant .cumulative
    let batch : List Accumulation := [⟨id "requests", .sum ⟨3⟩⟩, ⟨id "errors", .sum ⟨1⟩⟩]
    let p := (new 0).startCollection
    ∃ set set', Reachable select (offerAll select batch p) ∧
      ((offerAll select batch p).finishCollection 1).2 = .ok set ∧
      ((offerAll select batch.reverse p).finishCollection 2).2 = .ok set' ∧
      Ordered set.records ∧ SameOrder set.records set'.records := by
  intro id select batch p
  have hstart : Reachable select p := (Reachable.new 0).call .start
  refine ⟨_, _, hstart.offerAll batch, rfl, rfl, ?_⟩
  obtain ⟨hordered, -, -, -, hprocessed⟩ := checkpoint_order (hstart.offerAll batch) rfl
  exact ⟨hordered, hprocessed p batch batch.reverse 2 _ hstart rfl (List.reverse_perm _) rfl⟩

/-- Instruments of one name that differ in their units have records that the order does not tell
apart. -/
theorem records_of_one_name_not_strict :
    let id (unit : Option MeasurementUnit) : SeriesId :=
      ⟨{ name := "requests", kind := .counter, numberKind := .u64, unit }, .empty, .empty⟩
    let select := Temporality.constant .delta
    let calls : List Call :=
      [.start, .process ⟨id none, .sum ⟨1⟩⟩, .process ⟨id (some ⟨"1"⟩), .sum ⟨2⟩⟩]
    let p := (run select calls (new 0)).1
    Reachable select p ∧ ∃ set, (p.finishCollection 1).2 = .ok set ∧
      ¬ set.records.Pairwise fun r r' => r.compareKeys r' = .lt := by
  intro id select calls p
  have hreached : Reachable select p := (Reachable.new 0).run calls
  have hset : (p.finishCollection 1).2 = .ok _ := rfl
  refine ⟨hreached, _, hset, fun hstrict => ?_⟩
  have hdistinguished := (hreached.orderly.finished_ordered hset).strict_iff.mp hstrict
  have hexports := hreached.orderly.exports_iff hset
  obtain ⟨r, hr, hs⟩ := List.mem_map.mp
    ((hexports (id none)).mpr ⟨_, .head _, rfl, .inl rfl⟩)
  obtain ⟨r', hr', hs'⟩ := List.mem_map.mp
    ((hexports (id (some ⟨"1"⟩))).mpr ⟨_, .tail _ (.head _), rfl, .inl rfl⟩)
  have hsame := hdistinguished r hr r' hr' (by rw [hs, hs']; rfl)
  rw [hs, hs'] at hsame
  simp [id] at hsame

end Processor
end Metering
