import Metering.Proofs.Accumulator.Passage

/-!
# Accumulations with something new

A sweep remembers how many measurements a series had when it was found, but hands over those that
the series has at its turn. As long as a processor records nothing for a series between the two,
every accumulation of the series has a measurement that was made since it was last handed over.
Otherwise the next sweep hands over a series without any.
-/

namespace Metering

/-- Whether an aggregator shows that it has no measurements; a sum does not. -/
def Aggregator.isBlank : Aggregator → Bool
  | sum _ => false
  | lastValue last => last.isNone
  | minMaxSumCount _ state => state.isNone
  | histogram _ _ state => state.count = 0

theorem Aggregator.isBlank_update (a : Aggregator) (n : Number) (d : Descriptor) (stamp : Stamp) :
    (a.update n d stamp).isBlank = false := by
  cases a with
  | sum total => rfl
  | lastValue last => rfl
  | minMaxSumCount kind state => cases state <;> rfl
  | histogram kind boundaries state =>
    simp [update, isBlank, Distribution.record, Count.plus, Count.top]

namespace Accumulator

variable {choose : Descriptor → Option Aggregator} {k : SeriesKey} {g : Aggregator}

/-! ## What a series has to hand over -/

/-- The numbers that were added to the series with a key since it was last handed over. -/
def waiting (choose : Descriptor → Option Aggregator) (k : SeriesKey) (ds : List Deed) :
    List Number :=
  ds.foldl (fun ns deed =>
    if isHandedOver k deed then [] else ns ++ (given? choose k deed).toList) []

theorem waiting_snoc (ds : List Deed) (deed : Deed) :
    waiting choose k (ds ++ [deed]) =
      if isHandedOver k deed then [] else waiting choose k ds ++ (given? choose k deed).toList := by
  simp [waiting]

theorem waiting_other {ds : List Deed} {deed : Deed} (hd : given? choose k deed = none)
    (hh : isHandedOver k deed = false) :
    waiting choose k (ds ++ [deed]) = waiting choose k ds := by
  simp [waiting_snoc, hd, hh]

theorem isHandedOver_of_given? {deed : Deed} {n : Number} (h : given? choose k deed = some n) :
    isHandedOver k deed = false := by
  cases deed with
  | processed acc => cases h
  | _ => rfl

/-- Whether an aggregator has a measurement, the last of some. -/
def EndsWith (k : SeriesKey) (g : Aggregator) (n : Number) (a : Aggregator) : Prop :=
  ∃ (x : Aggregator) (stamp : Stamp), x.cleared k.1 = g ∧ a = x.update n k.1 stamp

/-- Whether the series with a key is pending exactly if measurements wait to be handed over. -/
def Standing (choose : Descriptor → Option Aggregator) (k : SeriesKey) (g : Aggregator)
    (ds : List Deed) (s? : Option LiveSeries) : Prop :=
  match (waiting choose k ds).getLast? with
  | none => ∀ s, s? = some s → s.MadeFrom k g ∧ s.current = g ∧ s.updates = s.collected
  | some n => ∃ s, s? = some s ∧ s.MadeFrom k g ∧ EndsWith k g n s.current ∧
      s.collected < s.updates

theorem standing_none (choose : Descriptor → Option Aggregator) (k : SeriesKey)
    (g : Aggregator) : Standing choose k g [] none := by
  intro s hs
  cases hs

theorem Standing.slot {ds : List Deed} {s? : Option LiveSeries}
    (h : Standing choose k g ds s?) (hnew : Aggregator.IsNew k.1 g) :
    (s?.getD (.opened k g)).MadeFrom k g ∧
      (s?.getD (.opened k g)).collected ≤ (s?.getD (.opened k g)).updates := by
  cases s? with
  | none => exact ⟨LiveSeries.madeFrom_opened hnew, le_refl _⟩
  | some s =>
    rw [Standing] at h
    cases hlast : (waiting choose k ds).getLast? with
    | none =>
      rw [hlast] at h
      obtain ⟨hmade, -, hcollected⟩ := h s rfl
      exact ⟨hmade, hcollected.ge⟩
    | some n =>
      rw [hlast] at h
      obtain ⟨t, ht, hmade, -, hlt⟩ := h
      obtain rfl := Option.some.inj ht
      exact ⟨hmade, hlt.le⟩

theorem Standing.other {ds : List Deed} {s? : Option LiveSeries}
    (h : Standing choose k g ds s?) {deed : Deed} (hd : given? choose k deed = none)
    (hh : isHandedOver k deed = false) : Standing choose k g (ds ++ [deed]) s? := by
  rw [Standing, waiting_other hd hh]
  exact h

theorem standing_add {ds : List Deed} {s : LiveSeries} {deed : Deed} {n : Number}
    (hn : given? choose k deed = some n) (hmade : s.MadeFrom k g)
    (hle : s.collected ≤ s.updates) (stamp : Stamp) :
    Standing choose k g (ds ++ [deed]) (some (s.add n stamp)) := by
  have hlast : (waiting choose k (ds ++ [deed])).getLast? = some n := by
    simp [waiting_snoc, isHandedOver_of_given? hn, hn]
  rw [Standing, hlast]
  refine ⟨_, rfl, hmade.add n stamp, ⟨s.current, stamp, hmade.current, ?_⟩, Nat.lt_succ_of_le hle⟩
  rw [LiveSeries.add, hmade.descriptor]

theorem enduring_standing (hnew : Aggregator.IsNew k.1 g) :
    Enduring choose k g (Standing choose k g) where
  other h hd hh := h.other hd hh
  add h hn stamp := by
    obtain ⟨hmade, hle⟩ := h.slot hnew
    exact standing_add hn hmade hle stamp

theorem expendable_standing : Expendable (Standing choose k g) := by
  intro ds s h hp
  rw [Standing] at h ⊢
  cases hlast : (waiting choose k ds).getLast? with
  | none => exact fun t ht => by cases ht
  | some n =>
    rw [hlast] at h
    obtain ⟨t, ht, -, -, hlt⟩ := h
    obtain rfl := Option.some.inj ht
    simp [LiveSeries.isPending, hlt.ne'] at hp

/-! ## What was handed over -/

/-- Whether every accumulation of the series with a key ends with the last of the measurements
made since the series was handed over before. -/
def Novel (choose : Descriptor → Option Aggregator) (k : SeriesKey) (g : Aggregator)
    (ds : List Deed) : Prop :=
  ∀ ds₁ acc ds₂, ds = ds₁ ++ .processed acc :: ds₂ → acc.series.key = k →
    ∃ n, (waiting choose k ds₁).getLast? = some n ∧ EndsWith k g n acc.aggregator

theorem novel_nil : Novel choose k g [] := by
  intro ds₁ acc ds₂ h
  simp at h

theorem Novel.snoc {ds : List Deed} (h : Novel choose k g ds) {deed : Deed}
    (hd : ∀ acc, deed = .processed acc → acc.series.key = k →
      ∃ n, (waiting choose k ds).getLast? = some n ∧ EndsWith k g n acc.aggregator) :
    Novel choose k g (ds ++ [deed]) := by
  intro ds₁ acc ds₂ hds hk
  rcases List.eq_nil_or_concat ds₂ with rfl | ⟨ds₂, last, rfl⟩
  · obtain ⟨rfl, hlast⟩ := List.append_inj' hds rfl
    exact hd acc (List.cons.inj hlast).1 hk
  · rw [List.concat_eq_append, ← List.cons_append, ← List.append_assoc] at hds
    exact h ds₁ acc ds₂ (List.append_inj' hds rfl).1 hk

theorem Novel.other {ds : List Deed} (h : Novel choose k g ds) {deed : Deed}
    (hh : isHandedOver k deed = false) : Novel choose k g (ds ++ [deed]) := by
  refine h.snoc fun acc hacc hk => ?_
  rw [hacc] at hh
  simp [isHandedOver, handedOver, hk] at hh

/-! ## Sweeps -/

/-- Whether nothing is recorded for the series with a key before it is handed over. -/
def Orderly (choose : Descriptor → Option Aggregator) (k : SeriesKey) (ds : List Deed) : Prop :=
  ds.Pairwise fun x y => isHandedOver k y = true → given? choose k x = none

theorem Orderly.of_snoc {ds : List Deed} {deed : Deed}
    (h : Orderly choose k (ds ++ [deed])) : Orderly choose k ds := (List.pairwise_append.mp h).1

theorem Orderly.given_eq_nil {ds : List Deed} {deed : Deed}
    (h : Orderly choose k (ds ++ [deed])) (hd : isHandedOver k deed = true) :
    given choose k ds = [] := by
  refine List.filterMap_eq_nil_iff.mpr fun x hx => ?_
  exact (List.pairwise_append.mp h).2.2 x hx deed (by simp) hd

section
variable {ds : List Deed}

/-- What holds along a sweep as long as it is orderly, after some earlier deeds. -/
def WhileOrderly (choose : Descriptor → Option Aggregator) (k : SeriesKey) (g : Aggregator)
    (ds : List Deed) (Q : List Deed → Option LiveSeries → Prop) (log : List Deed)
    (s? : Option LiveSeries) : Prop :=
  ∃ new, log = ds ++ new ∧ (Orderly choose k new → Novel choose k g log ∧ Q log s?)

theorem Enduring.whileOrderly {Q : List Deed → Option LiveSeries → Prop}
    (hQ : Enduring choose k g Q) : Enduring choose k g (WhileOrderly choose k g ds Q) where
  other := by
    rintro log s? deed ⟨new, rfl, h⟩ hd hh
    refine ⟨new ++ [deed], List.append_assoc .., fun ho => ?_⟩
    obtain ⟨hnovel, hq⟩ := h ho.of_snoc
    exact ⟨hnovel.other hh, hQ.other hq hd hh⟩
  add := by
    rintro log s? m n ⟨new, rfl, h⟩ hn stamp
    refine ⟨new ++ [.recorded m], List.append_assoc .., fun ho => ?_⟩
    obtain ⟨hnovel, hq⟩ := h ho.of_snoc
    exact ⟨hnovel.other rfl, hQ.add hq hn stamp⟩

theorem Expendable.whileOrderly {Q : List Deed → Option LiveSeries → Prop}
    (hQ : Expendable Q) : Expendable (WhileOrderly choose k g ds Q) := by
  rintro log s ⟨new, rfl, h⟩ hp
  exact ⟨new, rfl, fun ho => ⟨(h ho).1, hQ (h ho).2 hp⟩⟩

/-- The series that a sweep found, before its turn: it is as it was, unless something was recorded
for it. -/
structure Found? (choose : Descriptor → Option Aggregator) (k : SeriesKey) (g : Aggregator)
    (ds : List Deed) (f : LiveSeries) (log : List Deed) (s? : Option LiveSeries) : Prop where
  unchanged : ∃ new, log = ds ++ new ∧
    (given choose k new = [] → s? = some f ∧ waiting choose k log = waiting choose k ds)
  novel : Novel choose k g log
  made : ∃ s, s? = some s ∧ s.MadeFrom k g

theorem enduring_found (f : LiveSeries) : Enduring choose k g (Found? choose k g ds f) where
  other := by
    rintro log s? deed ⟨⟨new, rfl, h⟩, hnovel, hmade⟩ hd hh
    refine ⟨⟨new ++ [deed], List.append_assoc .., fun hgiven => ?_⟩, hnovel.other hh, hmade⟩
    rw [given_snoc, hd, Option.toList_none, List.append_nil] at hgiven
    obtain ⟨hs, hw⟩ := h hgiven
    exact ⟨hs, (waiting_other hd hh).trans hw⟩
  add := by
    rintro log s? m n ⟨⟨new, rfl, h⟩, hnovel, s, rfl, hmade⟩ hn stamp
    refine ⟨⟨new ++ [.recorded m], List.append_assoc .., fun hgiven => ?_⟩, hnovel.other rfl, _,
      rfl, hmade.add n stamp⟩
    simp [given_snoc, hn] at hgiven

/-- A series as it is marked when the sweep that found it has handed it over. -/
def marked (f s : LiveSeries) : LiveSeries := { s with collected := f.updates, idleSweeps := 0 }

theorem enduring_marked (hnew : Aggregator.IsNew k.1 g) (f : LiveSeries) :
    Enduring choose k g fun log s? =>
      ∃ s, s? = some s ∧ Standing choose k g log (some (marked f s)) where
  other := by
    rintro log s? deed ⟨s, rfl, h⟩ hd hh
    exact ⟨s, rfl, h.other hd hh⟩
  add := by
    rintro log s? m n ⟨s, rfl, h⟩ hn stamp
    exact ⟨_, rfl, (enduring_standing hnew).add h hn stamp⟩

/-- A series with something new passes an orderly sweep: that is handed over, and the series has
nothing to hand over any more until something is recorded for it. -/
theorem Standing.passage {f : LiveSeries} (h : Standing choose k g ds (some f))
    (hf : f.isPending = true) (hnew : Aggregator.IsNew k.1 g) (resource : Resource) :
    Passage choose k g resource f (Found? choose k g ds f)
      (WhileOrderly choose k g ds fun log s? =>
        ∃ s, s? = some s ∧ Standing choose k g log (some (marked f s)))
      (WhileOrderly choose k g ds (Standing choose k g)) where
  before := enduring_found f
  after := (enduring_marked hnew f).whileOrderly
  done := (enduring_standing hnew).whileOrderly
  turn := by
    rintro log s ⟨⟨new, rfl, hnews⟩, hnovel, t, ht, hmade⟩
    obtain rfl := Option.some.inj ht
    refine ⟨g, s.current, hmade.move hnew, new ++ [.processed _], List.append_assoc ..,
      fun ho => ?_⟩
    have hover : isHandedOver k (.processed ⟨⟨k.1, k.2, resource⟩, s.current⟩) = true :=
      decide_eq_true rfl
    obtain ⟨hs, hw⟩ := hnews (ho.given_eq_nil hover)
    obtain rfl := Option.some.inj hs
    rw [Standing, ← hw] at h
    cases hlast : (waiting choose k (ds ++ new)).getLast? with
    | none =>
      rw [hlast] at h
      simp [LiveSeries.isPending, (h s rfl).2.2] at hf
    | some n =>
      rw [hlast] at h
      obtain ⟨t, ht, -, hends, -⟩ := h
      obtain rfl := Option.some.inj ht
      refine ⟨hnovel.snoc ?_, _, rfl, ?_⟩
      · rintro acc hacc -
        rw [← Deed.processed.inj hacc]
        exact ⟨n, hlast, hends⟩
      · have hmoved := hmade.moved hnew
        rw [Standing, waiting_snoc, if_pos hover]
        intro t ht
        rw [← Option.some.inj ht]
        exact ⟨⟨hmoved.key, hmoved.current, hmoved.checkpoint⟩, rfl, rfl⟩
  present := by
    rintro log ⟨-, -, s, hs, -⟩
    cases hs
  mark := by
    rintro log s? ⟨new, rfl, h⟩
    refine ⟨new, rfl, fun ho => ?_⟩
    obtain ⟨hnovel, s, rfl, hs⟩ := h ho
    exact ⟨hnovel, hs⟩

theorem Standing.aged {s? : Option LiveSeries} (h : Standing choose k g ds s?)
    (hp : ∀ s, s? = some s → s.isPending = false) :
    Standing choose k g ds (s?.map Accumulator.aged) := by
  cases s? with
  | none => exact h
  | some s =>
    have haged := aged_of_not_pending (hp s rfl)
    rw [Standing] at h
    rw [Option.map_some, Standing]
    cases hlast : (waiting choose k ds).getLast? with
    | none =>
      rw [hlast] at h
      intro t ht
      obtain ⟨hmade, hrest⟩ := h s rfl
      rw [← Option.some.inj ht]
      exact ⟨hmade.aged, haged ▸ hrest⟩
    | some n =>
      rw [hlast] at h
      obtain ⟨t, ht, hmade, hrest⟩ := h
      obtain rfl := Option.some.inj ht
      exact ⟨_, rfl, hmade.aged, haged ▸ hrest⟩

theorem Standing.sweep {σ : Type} {a : Accumulator}
    (h : Standing choose k g ds (seek k a.series)) (hnovel : Novel choose k g ds)
    (hg : choose k.1 = some g) (hnew : Aggregator.IsNew k.1 g) (ha : Sound choose a)
    (step : ProcessorStep σ) (p : σ) {new : List Deed}
    (hnews : (Accumulator.sweep (logged step) (p, ds) a).2.1.2 = ds ++ new)
    (ho : Orderly choose k new) :
    let r := Accumulator.sweep (logged step) (p, ds) a
    Novel choose k g (ds ++ new) ∧
      ∀ n, r.2.2 = .ok n → Standing choose k g (ds ++ new) (seek k r.1.series) := by
  intro r
  have hdone : WhileOrderly choose k g ds (Standing choose k g) r.2.1.2 (seek k r.1.series) →
      Novel choose k g (ds ++ new) ∧ Standing choose k g (ds ++ new) (seek k r.1.series) := by
    rintro ⟨new', hnew', h⟩
    rw [hnews] at hnew' h
    obtain rfl := List.append_cancel_left hnew'
    exact h ho
  by_cases hp : ∀ s, seek k a.series = some s → s.isPending = false
  · -- the sweep does not find the series
    have haged : WhileOrderly choose k g ds (Standing choose k g) ds
        ((seek k a.series).map Accumulator.aged) :=
      ⟨[], (List.append_nil ds).symm, fun _ => ⟨hnovel, h.aged hp⟩⟩
    obtain ⟨hnovel', hs⟩ := hdone ((enduring_standing hnew).whileOrderly.sweep
      expendable_standing.whileOrderly hg step p ha hp haged)
    exact ⟨hnovel', fun _ _ => hs⟩
  · simp only [not_forall, Bool.not_eq_false] at hp
    obtain ⟨f, hf, hp⟩ := hp
    rw [hf] at h
    have hb : Found? choose k g ds f ds (some f) := by
      obtain ⟨hmade, -⟩ := h.slot hnew
      exact ⟨⟨[], (List.append_nil ds).symm, fun _ => ⟨rfl, rfl⟩⟩, hnovel, f, rfl, hmade⟩
    rcases (h.passage hp hnew a.resource).sweep expendable_standing.whileOrderly hg step p ha hf hp
      hb with hd | ⟨⟨cause, hx⟩, hd⟩
    · obtain ⟨hnovel', hs⟩ := hdone hd
      exact ⟨hnovel', fun _ _ => hs⟩
    · refine ⟨?_, fun n hn => by rw [hx] at hn; cases hn⟩
      rcases hd with hd | ⟨new', hnew', hd⟩
      · rw [← hnews]
        exact hd.novel
      · rw [hnews] at hnew' hd
        obtain rfl := List.append_cancel_left hnew'
        exact (hd ho).1

end

/-! ## Runs -/

section
variable {σ : Type} {ds : List Deed} {a : Accumulator}

def Booking (choose : Descriptor → Option Aggregator) (k : SeriesKey) (g : Aggregator)
    (ds : List Deed) (a : Accumulator) : Prop :=
  Novel choose k g ds ∧ (a.isPoisoned = false → Standing choose k g ds (seek k a.series))

theorem kept_booking (hg : choose k.1 = some g) (hnew : Aggregator.IsNew k.1 g) :
    Kept choose (Booking choose k g) where
  same := by
    rintro ds a b ⟨hnovel, hs⟩ hsame hseries
    rw [Booking, hseries, hsame.isPoisoned]
    exact ⟨hnovel, hs⟩
  record := by
    rintro ds a ha ⟨hnovel, hs⟩ m
    refine ⟨hnovel.other rfl, fun hb => ?_⟩
    have hm := measured_record ha.selector m
    exact (enduring_standing hnew).record hg ha (hs (hm.setup.isPoisoned ▸ hb)) m
  observe := by
    rintro ds a registered ha - ⟨hnovel, hs⟩ d n labels
    refine ⟨hnovel.other rfl, fun hb => ?_⟩
    have hm := measured_observe ha.selector registered d n labels
    have hs := hs (hm.setup.isPoisoned ▸ hb)
    obtain ⟨hmade, hle⟩ := hs.slot hnew
    rw [seek_observe_given ha.selector hg hnew (fun s hx => by simpa [hx] using hmade)]
    cases hn : given? choose k (.observed registered d n labels) with
    | none => exact hs.other hn rfl
    | some n => exact standing_add hn (hmade.renewed hnew _) hle a.stamp

/-- What a collection's processor is handed and records. -/
def processorLog (cx : Context) (step : ProcessorStep σ) (p : σ) (a : Accumulator) : List Deed :=
  (collect cx (logged step) (p, []) a).2.1.2

theorem Booking.collect (h : Booking choose k g ds a) (hg : choose k.1 = some g)
    (hnew : Aggregator.IsNew k.1 g) (ha : Sound choose a) (cx : Context) (step : ProcessorStep σ)
    (p : σ) (ho : Orderly choose k (processorLog cx step p a)) :
    Booking choose k g (ds ++ collected cx step p a) (Accumulator.collect cx step p a).1 := by
  obtain ⟨hsound, hcalled⟩ := (kept_booking hg hnew).callObservers cx
    (List.range a.observers.length) ha h
  have hsetup := setup_callObservers ha cx (List.range a.observers.length)
  cases hopen : a.isPoisoned with
  | true =>
    have hc : Accumulator.collect cx step p a = (a, p, .error (.error .poisoned)) := by
      rw [Accumulator.collect, hopen]
      rfl
    rw [hc, collected, hopen, if_pos rfl, List.append_nil]
    exact h
  | false =>
    rcases collect_cases cx step p a with ⟨hc, hcol⟩ | ⟨hc, hcol⟩ | ⟨new, hcol, hlog, hc⟩
    · rw [hc, hcol, List.append_nil]
      exact h
    · rw [hc, hcol]
      exact hcalled
    · have hnews : processorLog cx step p a = new := by
        rw [collected, hopen, if_neg Bool.false_ne_true] at hcol
        exact List.append_cancel_left hcol
      rw [hnews] at ho
      obtain ⟨hnovel, hstand⟩ := hcalled
      have hswept := (hstand (hsetup.isPoisoned.trans hopen)).sweep hnovel hg hnew hsound step p
        (by rw [hlog]) ho
      rw [hlog] at hswept
      obtain ⟨hnovel, hstand⟩ := hswept
      rw [hcol, ← List.append_assoc]
      refine ⟨hnovel, ?_⟩
      rcases hc with ⟨n, errors, hn, -, hc⟩ | ⟨cause, -, hc⟩
      · rw [hc]
        exact fun _ => hstand n hn
      · rw [hc]
        intro hb
        cases hb

theorem booking_serveAll (hg : choose k.1 = some g) (hnew : Aggregator.IsNew k.1 g)
    (ha : Sound choose a) (h : Booking choose k g ds a) (requests : List (Request σ))
    (ho : ∀ before cx step p after, requests = before ++ .collect cx step p :: after →
      Orderly choose k (processorLog cx step p (serveAll before a))) :
    Booking choose k g (ds ++ deedsAll requests a) (serveAll requests a) := by
  induction requests generalizing ds a with
  | nil =>
    rw [deedsAll, List.append_nil]
    exact h
  | cons request requests ih =>
    rw [deedsAll, ← List.append_assoc]
    refine ih (ha.serve request) ?_ fun before cx step p after hr =>
      ho (request :: before) cx step p after (by rw [hr]; rfl)
    have hkept := kept_booking hg hnew
    cases request with
    | record m => exact hkept.record ha h m
    | register descriptors calls =>
      obtain ⟨-, hsame, hseries⟩ := ha.register descriptors calls
      rw [deeds, List.append_nil]
      exact hkept.same h hsame hseries
    | await now flags =>
      rw [deeds, List.append_nil]
      exact h
    | collect cx step p => exact h.collect hg hnew ha cx step p (ho [] cx step p requests rfl)

end

/-- As long as no processor records anything for a series between the beginning of a sweep and the
series' turn in it, every accumulation of the series ends with a measurement that was accepted
since the series was last handed over, and so is not blank. -/
theorem accumulations_have_news {σ : Type} (choose : Descriptor → Option Aggregator)
    (resource : Resource) (idleCycles : Nat) (created : Time) (requests : List (Request σ))
    (k : SeriesKey) (g : Aggregator) (hg : choose k.1 = some g) (hnew : Aggregator.IsNew k.1 g) :
    let start := new (.ofFunction choose) resource idleCycles created
    (∀ before cx step p after, requests = before ++ .collect cx step p :: after →
      Orderly choose k (processorLog cx step p (serveAll before start))) →
    ∀ ds acc ds', deedsAll requests start = ds ++ .processed acc :: ds' → acc.series.key = k →
      (∃ n, (waiting choose k ds).getLast? = some n ∧ EndsWith k g n acc.aggregator) ∧
      acc.aggregator.isBlank = false := by
  intro start ho ds acc ds' hds hk
  have hbooking : Booking choose k g [] start :=
    ⟨novel_nil, fun _ => standing_none choose k g⟩
  obtain ⟨hnovel, -⟩ := booking_serveAll hg hnew (sound_new resource idleCycles created) hbooking
    requests ho
  obtain ⟨n, hlast, hends⟩ := hnovel ds acc ds' hds hk
  refine ⟨⟨n, hlast, hends⟩, ?_⟩
  obtain ⟨x, stamp, -, hx⟩ := hends
  rw [hx, Aggregator.isBlank_update]

/-- Requests are recorded, and again when they have been handed over. -/
theorem accumulations_have_news_requests :
    let d : Descriptor := { name := "requests", kind := .counter, numberKind := .u64 }
    let counted (n : Number) : Measurement := ⟨d, n, .u64, .empty⟩
    let choose : Descriptor → Option Aggregator := fun d => some (.newMinMaxSumCount d)
    let step : ProcessorStep Unit := fun _ _ => ((), { records := [counted ⟨2⟩] })
    let requests : List (Request Unit) := [.record (counted ⟨3⟩), .collect {} step ()]
    let start := new (.ofFunction choose) .empty 1 0
    let acc : Accumulation := ⟨⟨d, .empty, .empty⟩, .minMaxSumCount .u64 (some (.single ⟨3⟩))⟩
    (∀ before cx step p after, requests = before ++ .collect cx step p :: after →
      Orderly choose (d, .empty) (processorLog cx step p (serveAll before start))) ∧
    deedsAll requests start =
      [.recorded (counted ⟨3⟩)] ++ .processed acc :: [.recorded (counted ⟨2⟩)] ∧
    (∃ n, (waiting choose (d, .empty) [.recorded (counted ⟨3⟩)]).getLast? = some n ∧
      EndsWith (d, .empty) (.newMinMaxSumCount d) n acc.aggregator) ∧
    acc.aggregator.isBlank = false := by
  intro d counted choose step requests start acc
  have horderly : ∀ before cx step p after, requests = before ++ .collect cx step p :: after →
      Orderly choose (d, .empty) (processorLog cx step p (serveAll before start)) := by
    intro before cx step' p after hr
    obtain ⟨rfl, hcollect⟩ : [.record (counted ⟨3⟩)] = before ∧
        [Request.collect {} step ()] = .collect cx step' p :: after := by
      rcases before with - | ⟨first, - | ⟨second, before⟩⟩ <;> simp_all [requests]
    obtain ⟨rfl, rfl, -⟩ := Request.collect.inj (List.cons.inj hcollect).1
    have hlog : processorLog {} step p
        (serveAll [(.record (counted ⟨3⟩) : Request Unit)] start) =
        [.processed acc, .recorded (counted ⟨2⟩)] := rfl
    rw [hlog]
    simp [Orderly, isHandedOver, handedOver]
  have hdeeds : deedsAll requests start =
      [.recorded (counted ⟨3⟩)] ++ .processed acc :: [.recorded (counted ⟨2⟩)] := rfl
  exact ⟨horderly, hdeeds, accumulations_have_news choose .empty 1 0 requests (d, .empty)
    (.newMinMaxSumCount d) rfl ⟨.minMaxSumCount, [], rfl⟩ horderly _ acc _ hdeeds rfl⟩

/-- An error that is recorded while requests are handed over, before the errors' own turn, is
handed over in that turn, and yet the next sweep hands over the errors again: without any. -/
theorem accumulations_blank_when_rerecorded :
    let d (name : String) : Descriptor := { name, kind := .counter, numberKind := .u64 }
    let counted (name : String) : Measurement := ⟨d name, ⟨1⟩, .u64, .empty⟩
    let choose : Descriptor → Option Aggregator := fun d => some (.newMinMaxSumCount d)
    let step : ProcessorStep Unit := fun _ acc =>
      ((), { records :=
        if acc.series.descriptor.name = "requests" then [counted "errors"] else [] })
    let requests : List (Request Unit) :=
      [.record (counted "requests"), .record (counted "errors"), .collect {} step (),
        .collect {} step ()]
    let start := new (.ofFunction choose) .empty 1 0
    ∃ ds acc, deedsAll requests start = ds ++ [.processed acc] ∧
      waiting choose acc.series.key ds = [] ∧ acc.aggregator.isBlank = true := by
  intro d counted choose step requests start
  let acc (name : String) (state : Option Extremes) : Accumulation :=
    ⟨⟨d name, .empty, .empty⟩, .minMaxSumCount .u64 state⟩
  refine ⟨[.recorded (counted "requests"), .recorded (counted "errors"),
    .processed (acc "requests" (some ⟨1, ⟨1⟩, ⟨1⟩, ⟨1⟩⟩)), .recorded (counted "errors"),
    .processed (acc "errors" (some ⟨2, ⟨2⟩, ⟨1⟩, ⟨1⟩⟩))], acc "errors" none, ?_, ?_, rfl⟩
  · cbv
  · cbv

end Accumulator
end Metering
