import Metering.Proofs.Processor.History

/-!
# Collections that fail

Where an entry fails, the end of a collection stops: the entries before it have taken in their
data, those after it have not, and the next collection replaces what these have. So the total of a
series is the merge of the collections that got to its entry, whatever other series fail.
-/

namespace Metering.Processor

variable {select : TemporalitySelector} {k : SeriesId} {c : Int}

/-! ## The entry of one series -/

theorem insert_series {acc : Accumulation} {es es' : List Entry}
    (h : insert select c acc es = .ok es') :
    es'.map (·.series) =
      if acc.series ∈ es.map (·.series) then es.map (·.series)
      else es.map (·.series) ++ [acc.series] := by
  induction es generalizing es' with
  | nil =>
    obtain rfl := Except.ok.inj h
    rfl
  | cons e es ih =>
    rw [insert] at h
    split at h
    next he =>
      obtain ⟨e', he', h⟩ := bind_eq_ok h
      obtain rfl := Except.ok.inj h
      simp [receive_series he', he]
    next he =>
      obtain ⟨es₁, h₁, h⟩ := bind_eq_ok h
      obtain rfl := Except.ok.inj h
      have hne : ¬acc.series = e.series := fun hx => he hx.symm
      rw [List.map_cons, ih h₁, List.map_cons]
      simp only [List.mem_cons, hne, false_or]
      split <;> rfl

theorem insert_nodup {acc : Accumulation} {es es' : List Entry}
    (h : insert select c acc es = .ok es') (hn : (es.map (·.series)).Nodup) :
    (es'.map (·.series)).Nodup := by
  rw [insert_series h]
  split
  · exact hn
  next hne =>
    refine List.nodup_append.mpr ⟨hn, by simp, fun x hx y hy hxy => ?_⟩
    obtain rfl := List.mem_singleton.mp hy
    exact hne (hxy ▸ hx)

theorem lookup_insert_of_ne {acc : Accumulation} {es es' : List Entry}
    (h : insert select c acc es = .ok es') (hne : acc.series ≠ k) :
    lookup k es' = lookup k es := by
  induction es generalizing es' with
  | nil =>
    obtain rfl := Except.ok.inj h
    rw [lookup_cons]
    exact if_neg hne
  | cons e es ih =>
    rw [insert] at h
    split at h
    next he =>
      obtain ⟨e', he', h⟩ := bind_eq_ok h
      obtain rfl := Except.ok.inj h
      rw [lookup_cons, lookup_cons, receive_series he', he, if_neg hne, if_neg hne]
    next he =>
      obtain ⟨es₁, h₁, h⟩ := bind_eq_ok h
      obtain rfl := Except.ok.inj h
      rw [lookup_cons, lookup_cons, ih h₁]

theorem retract_series {e e' : Entry} (h : retract c e = some e') : e'.series = e.series := by
  rw [retract_fields h]

/-- Whether the end of a collection gets to the entry of a series: none before it fails. -/
def reaches (k : SeriesId) (c : Int) (es : List Entry) : Bool :=
  (es.takeWhile (·.series ≠ k)).all fun e => (settle c e).isOk

theorem reaches_cons_of_ne {e : Entry} (es : List Entry) (h : e.series ≠ k) :
    reaches k c (e :: es) = ((settle c e).isOk && reaches k c es) := by
  simp [reaches, h]

theorem settle_series {e e' : Entry} (h : settle c e = .ok (some e')) :
    e'.series = e.series := settled_series (by rw [settled, h])

/-- An entry that does not fail itself is settled if the end of the collection gets to it, and
stays as it is otherwise. -/
theorem lookup_settleAll {es : List Entry} {e e' : Entry} (he : lookup k es = some e)
    (hs : settle c e = .ok (some e')) :
    lookup k (settleAll c es).1 = some (if reaches k c es then e' else e) := by
  induction es with
  | nil => simp at he
  | cons x es ih =>
    rw [lookup_cons] at he
    by_cases hx : x.series = k
    · rw [if_pos hx] at he
      obtain rfl := Option.some.inj he
      have hk := (settle_series hs).trans hx
      simp [settleAll, hs, reaches, hx, lookup_cons, hk]
    · rw [if_neg hx] at he
      rw [reaches_cons_of_ne es hx, settleAll]
      cases hxs : settle c x with
      | error cause => simpa [lookup_cons, hx, Except.isOk, Except.toBool] using he
      | ok kept =>
        have hrest := ih he
        cases kept with
        | none => simpa [Except.isOk, Except.toBool] using hrest
        | some x' =>
          have hx' : x'.series ≠ k := settle_series hxs ▸ hx
          simpa [lookup_cons, hx', Except.isOk, Except.toBool] using hrest

theorem settleAll_series_sublist (c : Int) (es : List Entry) :
    ((settleAll c es).1.map (·.series)).Sublist (es.map (·.series)) := by
  induction es with
  | nil => exact .slnil
  | cons e es ih =>
    rw [settleAll]
    cases hs : settle c e with
    | error cause => simp
    | ok kept =>
      cases kept with
      | none => exact ih.cons _
      | some e' =>
        simp only [Option.toList_some, List.cons_append, List.nil_append, List.map_cons,
          settle_series hs]
        exact ih.cons_cons _

theorem reaches_of_ok {es : List Entry} (h : (settleAll c es).2 = .ok ()) :
    reaches k c es = true := by
  induction es with
  | nil => rfl
  | cons e es ih =>
    by_cases he : e.series = k
    · simp [reaches, he]
    · rw [reaches_cons_of_ne es he]
      rw [settleAll] at h
      cases hs : settle c e with
      | error cause =>
        rw [hs] at h
        cases h
      | ok kept =>
        rw [hs] at h
        exact ih h

/-! ## What a total is made of -/

/-- What a run gives to the total of a series: the merges of the collections that got to its
entry, and the data of the current collection. -/
structure Tally where
  counted : List Aggregator := []
  current : List Aggregator := []

/-- The data after the end of a collection. -/
def Tally.finished (k : SeriesId) (t : Tally) : List Aggregator :=
  t.counted ++ (Aggregator.mergeAll k.descriptor t.current).toList

def Tally.after (k : SeriesId) (call : Call) (p : Processor) (t : Tally) : Tally :=
  match call with
  | .start => t
  | .process acc =>
    if p.isCollecting ∧ acc.series = k then { t with current := t.current ++ [acc.aggregator] }
    else t
  | .abort => { t with current := [] }
  | .finish _ =>
    if p.isCollecting then
      { counted := if reaches k p.finished p.entries then t.finished k else t.counted }
    else t

def tally (select : TemporalitySelector) (k : SeriesId) : List Call → Processor → Tally → Tally
  | [], _, t => t
  | c :: cs, p, t => tally select k cs (call select c p).1 (t.after k c p)

/-- What a run of a new processor gives to the total of a series. In which order the processor goes
through its entries is open at any time. -/
inductive Tallied (select : TemporalitySelector) (k : SeriesId) (created : Time) :
    List Call → Processor → Tally → Prop
  | new : Tallied select k created [] (new created) {}
  | call {calls : List Call} {p : Processor} {t : Tally} (h : Tallied select k created calls p t)
      (c : Call) :
      Tallied select k created (calls ++ [c]) (Processor.call select c p).1 (t.after k c p)
  | reordered {calls : List Call} {p : Processor} {t : Tally} {es : List Entry}
      (h : Tallied select k created calls p t) (hes : es.Perm p.entries) :
      Tallied select k created calls { p with entries := es } t

theorem Tallied.run {created : Time} {past : List Call} {p : Processor} {t : Tally}
    (h : Tallied select k created past p t) (calls : List Call) :
    Tallied select k created (past ++ calls) (Processor.run select calls p).1
      (tally select k calls p t) := by
  induction calls generalizing past p t with
  | nil => simpa [tally] using h
  | cons c calls ih =>
    have htail := ih (h.call c)
    rw [List.append_assoc] at htail
    exact htail

/-- Whether an aggregator has the kind and boundaries of one of some others. -/
def Resembles (accs : List Aggregator) (a : Aggregator) : Prop := ∃ b ∈ accs, a.shape = b.shape

theorem Resembles.compatible {accs : List Aggregator}
    (hsame : ∀ a ∈ accs, ∀ b ∈ accs, a.Compatible b) {a b : Aggregator} (ha : Resembles accs a)
    (hb : Resembles accs b) : a.Compatible b := by
  obtain ⟨x, hx, hax⟩ := ha
  obtain ⟨y, hy, hby⟩ := hb
  exact (hsame x hx y hy).congr hax hby

theorem resembles_mergeAll {accs as : List Aggregator} {d : Descriptor} {m : Aggregator}
    (h : ∀ a ∈ as, Resembles accs a) (hm : Aggregator.mergeAll d as = some m) :
    Resembles accs m := by
  obtain ⟨a, ha, hs⟩ := Aggregator.mergeAll_shape hm
  obtain ⟨b, hb, hab⟩ := h a ha
  exact ⟨b, hb, hs.trans hab⟩

/-- The entry of a series that is exported as a total. -/
structure Totals (k : SeriesId) (t : Tally) (c : Int) (e : Entry) : Prop where
  series : e.series = k
  temporality : e.temporality = .cumulative
  isStateful : e.isStateful = true
  total : e.total = Aggregator.mergeAll k.descriptor t.counted
  stale : t.current = [] → e.updated < c
  current : ∀ m, Aggregator.mergeAll k.descriptor t.current = some m →
    e.updated = c ∧ e.current = m
  fresh : e.isFresh = true → t.counted = []

/-- The entry of a series that is exported as a total, among those of a processor. -/
structure Counts (k : SeriesId) (accs : List Aggregator) (t : Tally) (p : Processor) : Prop where
  distinct : (p.entries.map (·.series)).Nodup
  resembles : ∀ a ∈ t.counted ++ t.current, Resembles accs a
  present : ∀ e, lookup k p.entries = some e → Totals k t p.finished e
  absent : lookup k p.entries = none → t = {}

theorem counts_new (k : SeriesId) (accs : List Aggregator) (created : Time) :
    Counts k accs {} (new created) :=
  ⟨.nil, by simp, by simp [new], fun _ => rfl⟩

variable {accs : List Aggregator} {t : Tally} {p : Processor}

theorem Totals.outdated {e : Entry} (h : Totals k t c e)
    (hm : Aggregator.mergeAll k.descriptor t.current = none) : e.updated < c :=
  h.stale (Aggregator.mergeAll_eq_none.mp hm)

theorem Totals.updated_le {e : Entry} (h : Totals k t c e) : e.updated ≤ c := by
  cases hm : Aggregator.mergeAll k.descriptor t.current with
  | none => exact (h.outdated hm).le
  | some m => exact (h.current m hm).1.le

/-! ## Calls -/

theorem totals_newEntry {acc : Accumulation} (hk : acc.series = k)
    (hp : k.descriptor.kind.isPrecomputedSum = false)
    (hcum : select k.descriptor acc.aggregator.kind = .cumulative) (c : Int) :
    Totals k { current := [acc.aggregator] } c (newEntry select c acc) := by
  subst hk
  refine ⟨rfl, hcum, ?_, rfl, by simp, ?_, fun _ => rfl⟩
  · simp only [newEntry, needsMemory_iff]
    exact .inl ⟨hp, hcum⟩
  · intro m hm
    exact ⟨rfl, Option.some.inj hm⟩

theorem Totals.received {acc : Accumulation} {e : Entry} (h : Totals k t c e) :
    Totals k { t with current := t.current ++ [acc.aggregator] } c (received c acc e) := by
  have hfields : (Processor.received c acc e).series = e.series ∧
      (Processor.received c acc e).temporality = e.temporality ∧
      (Processor.received c acc e).isStateful = e.isStateful ∧
      (Processor.received c acc e).total = e.total ∧
      (Processor.received c acc e).isFresh = e.isFresh := by
    unfold Processor.received
    split <;> exact ⟨rfl, rfl, rfl, rfl, rfl⟩
  obtain ⟨hser, htemp, hstate, htotal, hfresh⟩ := hfields
  refine ⟨hser.trans h.series, htemp.trans h.temporality, hstate.trans h.isStateful,
    htotal.trans h.total, by simp, fun m hm => ?_, fun hf => h.fresh (hfresh ▸ hf)⟩
  rw [Aggregator.mergeAll_snoc] at hm
  cases hcurrent : Aggregator.mergeAll k.descriptor t.current with
  | none =>
    have hold := (h.outdated hcurrent).ne
    rw [hcurrent] at hm
    rw [Processor.received, if_neg hold]
    exact ⟨rfl, Option.some.inj hm⟩
  | some m' =>
    obtain ⟨hu, hm'⟩ := h.current m' hcurrent
    rw [hcurrent] at hm
    rw [Processor.received, if_pos hu, hm', h.series]
    exact ⟨hu, Option.some.inj hm⟩

theorem Counts.receive_eq (h : Counts k accs t p)
    (hsame : ∀ a ∈ accs, ∀ b ∈ accs, a.Compatible b) {acc : Accumulation}
    (hmem : acc.aggregator ∈ accs) {e : Entry} (he : lookup k p.entries = some e) :
    receive p.finished acc e = .ok (Processor.received p.finished acc e) := by
  refine Processor.receive_eq fun hu => ?_
  have ht := h.present e he
  cases hcurrent : Aggregator.mergeAll k.descriptor t.current with
  | none => exact absurd hu (ht.outdated hcurrent).ne
  | some m =>
    have hm : Resembles accs m :=
      resembles_mergeAll (fun a ha => h.resembles a (List.mem_append_right _ ha)) hcurrent
    rw [(ht.current m hcurrent).2]
    exact hm.compatible hsame ⟨_, hmem, rfl⟩

theorem Counts.process (h : Counts k accs t p) (hsame : ∀ a ∈ accs, ∀ b ∈ accs, a.Compatible b)
    (hp : k.descriptor.kind.isPrecomputedSum = false) {acc : Accumulation}
    (hacc : acc.series = k →
      acc.aggregator ∈ accs ∧ select k.descriptor acc.aggregator.kind = .cumulative) :
    Counts k accs (t.after k (.process acc) p) (p.offer select acc).1 := by
  rw [Tally.after]
  by_cases hk : acc.series = k
  · obtain ⟨hmem, hcum⟩ := hacc hk
    cases hc : p.isCollecting with
    | false =>
      rw [offer_of_not_collecting hc, if_neg (by simp)]
      exact h
    | true =>
      have hself : Resembles accs acc.aggregator := ⟨_, hmem, rfl⟩
      obtain ⟨es, hi, hl, hn⟩ := insert_spec select (Processor.received p.finished acc)
        fun e he => h.receive_eq hsame hmem (hk ▸ he)
      rw [offer_of_insert_ok hc hi, if_pos ⟨rfl, hk⟩]
      refine ⟨hn h.distinct, fun a ha => ?_, fun e he => ?_, fun he => ?_⟩
      · rw [← List.append_assoc] at ha
        rcases List.mem_append.mp ha with ha | ha
        · exact h.resembles a ha
        · exact List.mem_singleton.mp ha ▸ hself
      · have he : lookup k es = some e := he
        rw [hl, if_pos hk] at he
        rw [← Option.some.inj he]
        cases hold : lookup k p.entries with
        | none =>
          rw [h.absent hold]
          exact totals_newEntry hk hp hcum p.finished
        | some e' => exact (h.present e' hold).received
      · have he : lookup k es = none := he
        rw [hl, if_pos hk] at he
        cases he
  · -- another series, whose data may be refused: this one stays as it is
    rw [if_neg (fun hx => hk hx.2)]
    obtain hsame | ⟨es, -, hi, hoffer⟩ := offer_cases select acc p
    · rw [hsame]
      exact h
    · have hl := lookup_insert_of_ne hi hk
      rw [hoffer]
      exact ⟨insert_nodup hi h.distinct, h.resembles, fun e he => h.present e (hl ▸ he),
        fun he => h.absent (hl ▸ he)⟩

theorem Counts.abort (h : Counts k accs t p) :
    Counts k accs { t with current := [] } p.abortCollection := by
  have hl : lookup k p.abortCollection.entries = (lookup k p.entries).bind (retract p.finished) :=
    lookup_filterMap (fun _ _ => retract_series) h.distinct k
  refine ⟨h.distinct.sublist (filterMap_series_sublist (fun _ _ => retract_series) _),
    fun a ha => h.resembles a (by simp at ha; simp [ha]), fun e' he' => ?_, fun he' => ?_⟩
  · rw [hl] at he'
    obtain ⟨e, he, hr⟩ := Option.bind_eq_some_iff.mp he'
    have ht := h.present e he
    rw [retract] at hr
    split at hr
    next hu =>
      split at hr
      · cases hr
      next hf =>
        rw [← Option.some.inj hr]
        exact ⟨ht.series, ht.temporality, ht.isStateful, ht.total, fun _ => Int.sub_one_lt_of_le
          (le_refl _), by simp, fun hx => absurd hx hf⟩
    next hu =>
      rw [← Option.some.inj hr]
      refine ⟨ht.series, ht.temporality, ht.isStateful, ht.total, fun _ => ?_, by simp, ht.fresh⟩
      show e.updated < p.finished
      cases hcurrent : Aggregator.mergeAll k.descriptor t.current with
      | none => exact ht.outdated hcurrent
      | some m => exact absurd (ht.current m hcurrent).1 hu
  · rw [hl] at he'
    cases he : lookup k p.entries with
    | none => rw [h.absent he]
    | some e =>
      have ht := h.present e he
      rw [he, Option.bind_some, retract] at he'
      split at he'
      · split at he'
        next hf => rw [ht.fresh hf]
        · cases he'
      · cases he'

/-- An entry that is exported as a total never fails: it takes in the data of the collection. -/
theorem Totals.settle {e : Entry} (h : Totals k t c e)
    (hp : k.descriptor.kind.isPrecomputedSum = false)
    (hresembles : ∀ a ∈ t.counted ++ t.current, Resembles accs a)
    (hsame : ∀ a ∈ accs, ∀ b ∈ accs, a.Compatible b) :
    ∃ e', Processor.settle c e = .ok (some e') ∧
      Totals k { counted := t.finished k } (c + 1) e' := by
  cases hm : Aggregator.mergeAll k.descriptor t.current with
  | none =>
    have hold : e.updated ≠ c := (h.outdated hm).ne
    refine ⟨{ e with isFresh := false }, ?_, ?_⟩
    · simp [Processor.settle, h.isStateful, hold, pure, Except.pure]
    · refine ⟨h.series, h.temporality, h.isStateful, ?_, fun _ => Int.lt_add_one_of_le h.updated_le,
        by simp, by simp⟩
      rw [Tally.finished, hm, Option.toList_none, List.append_nil]
      exact h.total
  | some m =>
    obtain ⟨hu, hcurrent⟩ := h.current m hm
    refine ⟨{ e with
      isFresh := false
      total := some (e.total.elim m fun total => total.absorb k.descriptor m) }, ?_, ?_⟩
    · cases htotal : e.total with
      | none =>
        simp [Processor.settle, h.isStateful, hu, h.series, hp, accumulate, htotal, hcurrent,
          pure, Except.pure, bind, Except.bind, Functor.map, Except.map]
      | some total =>
        have hcompat : total.Compatible m := by
          refine Resembles.compatible hsame (resembles_mergeAll (d := k.descriptor)
            (fun a ha => hresembles a (List.mem_append_left _ ha)) ?_)
            (resembles_mergeAll (fun a ha => hresembles a (List.mem_append_right _ ha)) hm)
          rw [← h.total, htotal]
        simp [Processor.settle, h.isStateful, hu, h.series, hp, accumulate, htotal, hcurrent,
          pure, Except.pure, bind, Except.bind, Functor.map, Except.map, hcompat.merge_eq]
    · refine ⟨h.series, h.temporality, h.isStateful, ?_, fun _ => Int.lt_add_one_of_le h.updated_le,
        by simp, by simp⟩
      rw [Tally.finished, hm, Option.toList_some, Aggregator.mergeAll_snoc, h.total]

theorem Totals.unreached {e : Entry} (h : Totals k t c e) :
    Totals k { counted := t.counted } (c + 1) e :=
  ⟨h.series, h.temporality, h.isStateful, h.total, fun _ => Int.lt_add_one_of_le h.updated_le,
    by simp, h.fresh⟩

theorem Counts.closed (h : Counts k accs t p) (hsame : ∀ a ∈ accs, ∀ b ∈ accs, a.Compatible b)
    (hp : k.descriptor.kind.isPrecomputedSum = false) :
    Counts k accs
      { counted := if reaches k p.finished p.entries then t.finished k else t.counted }
      p.closed := by
  have hsub := settleAll_series_sublist p.finished p.entries
  refine ⟨h.distinct.sublist hsub, fun a ha => ?_, fun e' he' => ?_, fun hnone => ?_⟩
  · rw [List.append_nil] at ha
    split at ha
    · rcases List.mem_append.mp ha with ha | ha
      · exact h.resembles a (List.mem_append_left _ ha)
      · exact resembles_mergeAll (fun a ha => h.resembles a (List.mem_append_right _ ha))
          (Option.mem_toList.mp ha)
    · exact h.resembles a (List.mem_append_left _ ha)
  · cases he : lookup k p.entries with
    | none =>
      refine absurd (lookup_mem he') fun hmem => ?_
      have hk := hsub.subset (List.mem_map_of_mem hmem)
      rw [lookup_series he'] at hk
      exact lookup_eq_none.mp he hk
    | some e =>
      have ht := h.present e he
      -- whether the entry is settled depends on the entries before it alone
      obtain ⟨e₁, hs, ht₁⟩ := ht.settle hp h.resembles hsame
      have hl : lookup k (Processor.settleAll p.finished p.entries).1 = some e' := he'
      rw [lookup_settleAll he hs] at hl
      rw [← Option.some.inj hl]
      split
      · exact ht₁
      · exact ht.unreached
  · cases he : lookup k p.entries with
    | none =>
      rw [h.absent he]
      simp [Tally.finished]
    | some e =>
      obtain ⟨e₁, hs, -⟩ := (h.present e he).settle hp h.resembles hsame
      have hl : lookup k (Processor.settleAll p.finished p.entries).1 = none := hnone
      rw [lookup_settleAll he hs] at hl
      cases hl

theorem Counts.finish (h : Counts k accs t p) (hsame : ∀ a ∈ accs, ∀ b ∈ accs, a.Compatible b)
    (hp : k.descriptor.kind.isPrecomputedSum = false) (now : Time) :
    Counts k accs (t.after k (.finish now) p) (p.finishCollection now).1 := by
  rw [Tally.after]
  have hall := h.closed hsame hp
  obtain ⟨hc, hfinish⟩ | ⟨hc, cause, -, hfinish⟩ | ⟨hc, -, hfinish⟩ := finishCollection_cases now p
  · rw [hfinish, hc, if_neg Bool.false_ne_true]
    exact h
  · rw [hfinish, hc, if_pos rfl]
    exact hall
  · rw [hfinish, hc, if_pos rfl]
    exact ⟨hall.distinct, hall.resembles, hall.present, hall.absent⟩

theorem exists_of_isOk {α : Type} {x : Except MetricsError α} (h : x.isOk = true) :
    ∃ a, x = .ok a := by
  cases x with
  | error cause => cases h
  | ok a => exact ⟨a, rfl⟩

/-- The data that the calls of a run hand over for a series. -/
def offered (k : SeriesId) (calls : List Call) : List Aggregator :=
  calls.filterMap fun
    | .process acc => if acc.series = k then some acc.aggregator else none
    | _ => none

theorem mem_offered {acc : Accumulation} {calls : List Call} (h : .process acc ∈ calls)
    (hk : acc.series = k) : acc.aggregator ∈ offered k calls :=
  List.mem_filterMap.mpr ⟨_, h, if_pos hk⟩

theorem Counts.reordered (h : Counts k accs t p) {es : List Entry} (hes : es.Perm p.entries) :
    Counts k accs t { p with entries := es } := by
  have hl : lookup k es = lookup k p.entries := lookup_perm hes h.distinct
  exact ⟨(hes.map _).nodup_iff.mpr h.distinct, h.resembles, fun e he => h.present e (hl ▸ he),
    fun he => h.absent (hl ▸ he)⟩

theorem Tallied.counts {created : Time} {calls : List Call}
    (h : Tallied select k created calls p t) (hsame : ∀ a ∈ accs, ∀ b ∈ accs, a.Compatible b)
    (hcum : ∀ a ∈ accs, select k.descriptor a.kind = .cumulative)
    (hp : k.descriptor.kind.isPrecomputedSum = false)
    (hacc : ∀ acc, .process acc ∈ calls → acc.series = k → acc.aggregator ∈ accs) :
    Counts k accs t p := by
  induction h with
  | new => exact counts_new k accs created
  | call _ c ih =>
    have hcounts := ih fun acc hmem => hacc acc (List.mem_append_left _ hmem)
    cases c with
    | start => exact ⟨hcounts.distinct, hcounts.resembles, hcounts.present, hcounts.absent⟩
    | process acc =>
      refine hcounts.process hsame hp fun hk => ?_
      have hmem := hacc acc (by simp) hk
      exact ⟨hmem, hcum _ hmem⟩
    | abort => exact hcounts.abort
    | finish now => exact hcounts.finish hsame hp now
  | reordered _ hes ih => exact (ih hacc).reordered hes

/-- A collection that does not fail exports the total that the tally says. -/
theorem Counts.exports (h : Counts k accs t p) (hsame : ∀ a ∈ accs, ∀ b ∈ accs, a.Compatible b)
    (hp : k.descriptor.kind.isPrecomputedSum = false) {now : Time} {set : CheckpointSet}
    (hset : (p.finishCollection now).2 = .ok set) (a : Aggregator) :
    (∃ r ∈ set.records, r.series = k ∧ r.aggregator = a) ↔
      Aggregator.mergeAll k.descriptor (t.finished k) = some a := by
  obtain ⟨-, hfinish⟩ | ⟨-, cause, -, hfinish⟩ | ⟨-, hs, hfinish⟩ := finishCollection_cases now p
  · rw [hfinish] at hset
    cases hset
  · rw [hfinish] at hset
    cases hset
  · have hall := h.closed hsame hp
    rw [hfinish] at hset
    rw [reaches_of_ok hs, if_pos rfl] at hall
    rw [← Except.ok.inj hset, exists_record_iff hall.distinct]
    constructor
    · rintro ⟨e, he, start, hx⟩
      have ht := hall.present e he
      simp only [exported?, ht.temporality, ht.isStateful, ht.total] at hx
      obtain ⟨total, htotal, hx⟩ := Option.map_eq_some_iff.mp hx
      rw [htotal, (Prod.mk.inj hx).1]
    · intro ha
      cases he : lookup k p.closed.entries with
      | none =>
        have hnil : t.finished k = [] := congrArg Tally.counted (hall.absent he)
        rw [hnil] at ha
        cases ha
      | some e =>
        have ht := hall.present e he
        refine ⟨e, rfl, p.closed.processStart, ?_⟩
        simp [exported?, ht.temporality, ht.isStateful, ht.total, ha]

/-- What is exported of a series that is reported as a total, whatever other series fail and in
whatever order the entries are gone through: the in-order merge of the collections that got to its
entry, the exported one included. -/
theorem total_of_reached_collections (select : TemporalitySelector) (created now : Time)
    (calls : List Call) (k : SeriesId) (hp : k.descriptor.kind.isPrecomputedSum = false)
    (hcum : ∀ a ∈ offered k calls, select k.descriptor a.kind = .cumulative)
    (hsame : ∀ a ∈ offered k calls, ∀ b ∈ offered k calls, a.Compatible b) (p : Processor)
    (t : Tally) (ht : Tallied select k created calls p t) :
    ∀ set, (p.finishCollection now).2 = .ok set →
      ∀ a, (∃ r ∈ set.records, r.series = k ∧ r.aggregator = a) ↔
        Aggregator.mergeAll k.descriptor (t.finished k) = some a := by
  intro set hset a
  exact (ht.counts hsame hcum hp fun acc hmem hk => mem_offered hmem hk).exports hsame hp hset a

def Reply.isInconsistent : Reply → Bool
  | .finished (.error (.inconsistentAggregator _)) => true
  | _ => false

theorem Reply.isInconsistent_iff {reply : Reply} : reply.isInconsistent = true ↔
    ∃ cause, reply = .finished (.error (.inconsistentAggregator cause)) := by
  constructor
  · intro h
    unfold isInconsistent at h
    split at h
    next cause => exact ⟨cause, rfl⟩
    next => cases h
  · rintro ⟨cause, rfl⟩
    rfl

/-- Requests are counted in a collection that fails at a later series, and in the next one. -/
theorem total_of_reached_collections_requests :
    let id (name : String) : SeriesId :=
      ⟨{ name, kind := .counter, numberKind := .u64 }, .empty, .empty⟩
    let select := Temporality.constant .cumulative
    let calls : List Call :=
      [.start, .process ⟨id "requests", .sum ⟨3⟩⟩, .process ⟨id "errors", .sum ⟨1⟩⟩, .finish 1,
        .start, .process ⟨id "requests", .sum ⟨5⟩⟩, .process ⟨id "errors", .lastValue none⟩,
        .finish 2, .start, .process ⟨id "requests", .sum ⟨7⟩⟩]
    (∀ a ∈ offered (id "requests") calls, ∀ b ∈ offered (id "requests") calls, a.Compatible b) ∧
      ∃ set, ((run select calls (new 0)).1.finishCollection 3).2 = .ok set ∧
        ∃ r ∈ set.records, r.series = id "requests" ∧ r.aggregator = .sum ⟨15⟩ := by
  intro id select calls
  have hoffered : offered (id "requests") calls = [.sum ⟨3⟩, .sum ⟨5⟩, .sum ⟨7⟩] := by
    decide +kernel
  have hsame : ∀ a ∈ offered (id "requests") calls, ∀ b ∈ offered (id "requests") calls,
      a.Compatible b := by
    rw [hoffered]
    simp [Aggregator.Compatible, Aggregator.mismatch?]
  have hok : ((run select calls (new 0)).1.finishCollection 3).2.isOk = true := by decide +kernel
  obtain ⟨set, hset⟩ := exists_of_isOk hok
  have htotal := total_of_reached_collections select 0 3 calls (id "requests") rfl
    (fun _ _ => rfl) hsame _ _ (Tallied.new.run calls) set hset
  refine ⟨hsame, set, hset, (htotal (.sum ⟨15⟩)).mpr ?_⟩
  decide +kernel

/-- Errors with the wrong kind of data make a collection fail before it gets to the requests: what
was counted of these is missing from their total ever after. -/
theorem total_lost_of_unreached_collection :
    let id (name : String) : SeriesId :=
      ⟨{ name, kind := .counter, numberKind := .u64 }, .empty, .empty⟩
    let select := Temporality.constant .cumulative
    let calls (offending : List Call) : List Call :=
      [.start, .process ⟨id "errors", .sum ⟨1⟩⟩, .process ⟨id "requests", .sum ⟨3⟩⟩, .finish 1,
        .start] ++ offending ++ [.process ⟨id "requests", .sum ⟨5⟩⟩, .finish 2, .start]
    let exports (offending : List Call) (a : Aggregator) : Prop :=
      ∃ set, ((run select (calls offending) (new 0)).1.finishCollection 3).2 = .ok set ∧
        ∃ r ∈ set.records, r.series = id "requests" ∧ r.aggregator = a
    let offending : List Call := [.process ⟨id "errors", .lastValue none⟩]
    (∃ cause, .finished (.error (.inconsistentAggregator cause)) ∈
      (run select (calls offending) (new 0)).2) ∧
    exports offending (.sum ⟨3⟩) ∧ exports [] (.sum ⟨8⟩) := by
  intro id select calls exports offending
  have hexports : ∀ offending a,
      offered (id "requests") (calls offending) = [.sum ⟨3⟩, .sum ⟨5⟩] →
      ((run select (calls offending) (new 0)).1.finishCollection 3).2.isOk = true →
      Aggregator.mergeAll (id "requests").descriptor
        ((tally select (id "requests") (calls offending) (new 0) {}).finished (id "requests")) =
          some a →
      exports offending a := by
    intro offending a hoffered hok ha
    obtain ⟨set, hset⟩ := exists_of_isOk hok
    have hsame : ∀ a ∈ offered (id "requests") (calls offending),
        ∀ b ∈ offered (id "requests") (calls offending), a.Compatible b := by
      rw [hoffered]
      simp [Aggregator.Compatible, Aggregator.mismatch?]
    have htallied : Tallied select (id "requests") 0 _ _ _ := Tallied.new.run (calls offending)
    have hcounts := htallied.counts hsame (fun _ _ => rfl) rfl fun _ => mem_offered
    exact ⟨set, hset, (hcounts.exports hsame rfl hset a).mpr ha⟩
  refine ⟨?_, ?_, ?_⟩
  · have hany : (run select (calls offending) (new 0)).2.any Reply.isInconsistent = true := by
      decide +kernel
    obtain ⟨reply, hmem, hreply⟩ := List.any_eq_true.mp hany
    obtain ⟨cause, rfl⟩ := Reply.isInconsistent_iff.mp hreply
    exact ⟨cause, hmem⟩
  · refine hexports _ _ ?_ ?_ ?_ <;> decide +kernel
  · refine hexports _ _ ?_ ?_ ?_ <;> decide +kernel

end Metering.Processor
