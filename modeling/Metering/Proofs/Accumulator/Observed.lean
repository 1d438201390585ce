import Metering.Proofs.Accumulator.Passage

/-!
# The last observation counts

A series that is only observed holds at most one observation: the last one that was accepted since
the last completed sweep. A collection that completes its sweep hands over exactly that, however
often the series was observed before, and in how many cancelled collections.
-/

namespace Metering.Accumulator

variable {choose : Descriptor → Option Aggregator} {k : SeriesKey} {g : Aggregator} {epoch : Nat}

/-! ## What an observed series holds -/

/-- Whether a series holds nothing, after some number of completed collections. -/
structure Rested (k : SeriesKey) (g : Aggregator) (epoch : Nat) (s : LiveSeries) : Prop where
  made : s.MadeFrom k g
  current : s.current = g
  collected : s.updates = s.collected
  observed : s.observedEpoch ≤ epoch

/-- Whether a series holds a single observation, made for the next collection. -/
structure Reported (k : SeriesKey) (g : Aggregator) (epoch : Nat) (n : Number) (stamp : Stamp)
    (s : LiveSeries) : Prop where
  made : s.MadeFrom k g
  current : s.current = g.update n k.1 stamp
  collected : s.collected < s.updates
  observed : s.observedEpoch = epoch + 1

/-- Whether the series with a key holds the last of the measurements that some deeds gave to it. -/
def Watched (choose : Descriptor → Option Aggregator) (k : SeriesKey) (g : Aggregator)
    (epoch : Nat) (ds : List Deed) (s? : Option LiveSeries) : Prop :=
  match (given choose k ds).getLast? with
  | none => ∀ s, s? = some s → Rested k g epoch s
  | some n => ∃ s stamp, s? = some s ∧ Reported k g epoch n stamp s

theorem watched_none (choose : Descriptor → Option Aggregator) (k : SeriesKey) (g : Aggregator)
    (epoch : Nat) : Watched choose k g epoch [] none := by
  intro s hs
  cases hs

theorem Watched.cases {ds : List Deed} {s : LiveSeries}
    (h : Watched choose k g epoch ds (some s)) :
    Rested k g epoch s ∨ ∃ n stamp, Reported k g epoch n stamp s := by
  rw [Watched] at h
  cases hlast : (given choose k ds).getLast? with
  | none =>
    rw [hlast] at h
    exact .inl (h s rfl)
  | some n =>
    rw [hlast] at h
    obtain ⟨t, stamp, ht, hr⟩ := h
    exact .inr ⟨n, stamp, Option.some.inj ht ▸ hr⟩

theorem Watched.made {ds : List Deed} {s : LiveSeries}
    (h : Watched choose k g epoch ds (some s)) : s.MadeFrom k g := by
  rcases h.cases with hr | ⟨n, stamp, hr⟩
  · exact hr.made
  · exact hr.made

theorem Watched.other {ds : List Deed} {s? : Option LiveSeries}
    (h : Watched choose k g epoch ds s?) {deed : Deed} (hd : given? choose k deed = none) :
    Watched choose k g epoch (ds ++ [deed]) s? := by
  rw [Watched, given_snoc, hd, Option.toList_none, List.append_nil]
  exact h

theorem rested_opened (hnew : Aggregator.IsNew k.1 g) (epoch : Nat) :
    Rested k g epoch (.opened k g) := ⟨LiveSeries.madeFrom_opened hnew, rfl, rfl, Nat.zero_le _⟩

theorem Rested.report {s : LiveSeries} (h : Rested k g epoch s) (hnew : Aggregator.IsNew k.1 g)
    (n : Number) (stamp : Stamp) :
    Reported k g epoch n stamp ((s.renewed g (epoch + 1)).add n stamp) := by
  have hcurrent : (s.renewed g (epoch + 1)).current = g := by
    rw [LiveSeries.renewed, if_neg (Nat.lt_succ_of_le h.observed).ne]
    exact h.current
  refine ⟨(h.made.renewed hnew _).add n stamp, ?_, Nat.lt_succ_of_le h.collected.ge, rfl⟩
  rw [LiveSeries.add, hcurrent, (h.made.renewed hnew _).descriptor]

theorem Reported.report {s : LiveSeries} {m : Number} {earlier : Stamp}
    (h : Reported k g epoch m earlier s) (hnew : Aggregator.IsNew k.1 g) (n : Number)
    (stamp : Stamp) : Reported k g epoch n stamp ((s.renewed g (epoch + 1)).add n stamp) := by
  have hcurrent : (s.renewed g (epoch + 1)).current = g := by
    rw [LiveSeries.renewed, if_pos h.observed]
  refine ⟨(h.made.renewed hnew _).add n stamp, ?_, Nat.lt_succ_of_lt h.collected, rfl⟩
  rw [LiveSeries.add, hcurrent, (h.made.renewed hnew _).descriptor]

theorem Watched.report {ds : List Deed} {s? : Option LiveSeries}
    (h : Watched choose k g epoch ds s?) (hnew : Aggregator.IsNew k.1 g) (n : Number)
    (stamp : Stamp) :
    Reported k g epoch n stamp
      (((s?.getD (.opened k g)).renewed g (epoch + 1)).add n stamp) := by
  cases s? with
  | none => exact (rested_opened hnew epoch).report hnew n stamp
  | some s =>
    rcases h.cases with hr | ⟨m, earlier, hr⟩
    · exact hr.report hnew n stamp
    · exact hr.report hnew n stamp

/-! ## Measurements -/

def Deed.isRecorded : Deed → Bool
  | .recorded _ => true
  | _ => false

/-- Whether no measurement of an instrument was recorded. -/
def Unrecorded (d : Descriptor) (ds : List Deed) : Prop :=
  ∀ m, Deed.recorded m ∈ ds → m.descriptor ≠ d

theorem Unrecorded.mono {d : Descriptor} {ds ds' : List Deed} (h : Unrecorded d ds')
    (hs : ds ⊆ ds') : Unrecorded d ds := fun m hm => h m (hs hm)

theorem Unrecorded.given?_eq_none (hg : choose k.1 = some g) {m : Measurement}
    (hm : m.descriptor ≠ k.1) : given? choose k (.recorded m) = none := by
  rw [given?_recorded hg, if_neg]
  rintro ⟨rfl, -⟩
  exact hm rfl

def WatchedIn (choose : Descriptor → Option Aggregator) (k : SeriesKey) (g : Aggregator)
    (ds : List Deed) (a : Accumulator) : Prop :=
  a.isPoisoned = false → Unrecorded k.1 ds → Watched choose k g a.epoch ds (seek k a.series)

theorem kept_watchedIn (hg : choose k.1 = some g) (hnew : Aggregator.IsNew k.1 g) :
    Kept choose (WatchedIn choose k g) where
  same := by
    intro ds a b h hsame hseries hb hds
    rw [hseries, hsame.epoch]
    exact h (hsame.isPoisoned ▸ hb) hds
  record := by
    intro ds a ha h m hb hds
    have hm := measured_record ha.selector m
    have hne : m.descriptor ≠ k.1 := hds m (by simp)
    have hw := h (hm.setup.isPoisoned ▸ hb) (hds.mono (by simp))
    rw [hm.frame k (fun hk => hne (congrArg Prod.fst hk)), hm.setup.epoch]
    exact hw.other (Unrecorded.given?_eq_none hg hne)
  observe := by
    intro ds a registered ha _ h d n labels hb hds
    have hm := measured_observe ha.selector registered d n labels
    have hw := h (hm.setup.isPoisoned ▸ hb) (hds.mono (by simp))
    rw [seek_observe_given ha.selector hg hnew (fun s hs => (hs ▸ hw).made), hm.setup.epoch]
    cases hn : given? choose k (.observed registered d n labels) with
    | none => exact hw.other hn
    | some n =>
      rw [Watched, given_snoc, hn]
      simp only [Option.toList_some, List.getLast?_concat]
      exact ⟨_, a.stamp, rfl, hw.report hnew n a.stamp⟩

/-! ## Sweeps -/

/-- The accumulations of the series with a key. -/
def handedTo (k : SeriesKey) (ds : List Deed) : List Accumulation :=
  (handed ds).filter (·.series.key = k)

theorem handedTo_append (ds ds' : List Deed) :
    handedTo k (ds ++ ds') = handedTo k ds ++ handedTo k ds' := by
  rw [handedTo, handed_append, List.filter_append]
  rfl

theorem handedTo_of_not {deed : Deed} (h : isHandedOver k deed = false) :
    handedTo k [deed] = [] := by
  cases deed with
  | recorded m => rfl
  | observed registered d n labels => rfl
  | processed acc =>
    have hne : acc.series.key ≠ k := by simpa [isHandedOver, handedOver] using h
    simp [handedTo, handed, handedOver, hne]

section
variable {σ : Type} {a : Accumulator}

/-- A property of the series with a key and of what was handed over of it, as long as its
instrument is not recorded. -/
def Untouched (choose : Descriptor → Option Aggregator) (k : SeriesKey)
    (accs : List Accumulation) (Q : LiveSeries → Prop) (ds : List Deed)
    (s? : Option LiveSeries) : Prop :=
  Unrecorded k.1 ds → (∀ s, s? = some s → Q s) ∧ handedTo k ds = accs ∧ given choose k ds = []

theorem enduring_untouched (hg : choose k.1 = some g) (accs : List Accumulation)
    (Q : LiveSeries → Prop) : Enduring choose k g (Untouched choose k accs Q) where
  other := by
    intro ds s? deed h hd hh hds
    obtain ⟨hs, haccs, hgiven⟩ := h (hds.mono (by simp))
    refine ⟨hs, ?_, ?_⟩
    · rw [handedTo_append, handedTo_of_not hh, haccs, List.append_nil]
    · rw [given_snoc, hgiven, hd]
      rfl
  add := by
    intro ds s? m n _ hn stamp hds
    rw [Unrecorded.given?_eq_none hg (hds m (by simp))] at hn
    cases hn

theorem expendable_untouched (accs : List Accumulation) (Q : LiveSeries → Prop) :
    Expendable (Untouched choose k accs Q) := by
  intro ds s h _ hds
  refine ⟨fun t ht => ?_, (h hds).2⟩
  cases ht

theorem Enduring.and_made {P : List Deed → Option LiveSeries → Prop}
    (hP : Enduring choose k g P) :
    Enduring choose k g fun ds s? => P ds s? ∧ ∃ s, s? = some s ∧ s.MadeFrom k g where
  other h hd hh := ⟨hP.other h.1 hd hh, h.2⟩
  add := by
    rintro ds s? m n ⟨h, s, rfl, hs⟩ hn stamp
    exact ⟨hP.add h hn stamp, _, rfl, hs.add n stamp⟩

/-- A series that was observed passes a sweep: the observation is handed over, and nothing
remains. -/
theorem Reported.passage {n : Number} {stamp : Stamp} {f : LiveSeries}
    (h : Reported k g epoch n stamp f) (hg : choose k.1 = some g)
    (hnew : Aggregator.IsNew k.1 g) (resource : Resource) :
    Passage choose k g resource f
      (fun ds s? => Untouched choose k [] (· = f) ds s? ∧ ∃ s, s? = some s ∧ s.MadeFrom k g)
      (Untouched choose k [⟨⟨k.1, k.2, resource⟩, f.current⟩]
        (· = { f with current := g, checkpoint := f.current }))
      (Untouched choose k [⟨⟨k.1, k.2, resource⟩, f.current⟩] (Rested k g (epoch + 1))) where
  before := (enduring_untouched hg _ _).and_made
  after := enduring_untouched hg _ _
  done := enduring_untouched hg _ _
  turn := by
    rintro ds s ⟨hb, t, ht, hmade⟩
    obtain rfl := Option.some.inj ht
    refine ⟨g, s.current, hmade.move hnew, fun hds => ?_⟩
    obtain ⟨hs, haccs, hgiven⟩ := hb (hds.mono (by simp))
    obtain rfl := hs s rfl
    refine ⟨fun t ht => (Option.some.inj ht).symm, ?_, ?_⟩
    · rw [handedTo_append, haccs]
      simp [handedTo, handed, handedOver, SeriesId.key]
    · rw [given_snoc, hgiven]
      rfl
  present := by
    rintro ds ⟨-, s, hs, -⟩
    cases hs
  mark := by
    intro ds s? ha hds
    obtain ⟨hs, hrest⟩ := ha hds
    refine ⟨fun t ht => ?_, hrest⟩
    obtain ⟨s, rfl, rfl⟩ := Option.map_eq_some_iff.mp ht
    obtain rfl := hs s rfl
    have hmoved := h.made.moved hnew
    exact ⟨⟨hmoved.key, hmoved.current, hmoved.checkpoint⟩, rfl, rfl, h.observed.le⟩

/-- Whether some accumulations of the series with a key are exactly the last of the measurements
that some deeds gave to it, added to a new aggregator. -/
def LastOnly (choose : Descriptor → Option Aggregator) (k : SeriesKey) (g : Aggregator)
    (resource : Resource) (ds : List Deed) (accs : List Accumulation) : Prop :=
  match (given choose k ds).getLast? with
  | none => accs = []
  | some n => ∃ stamp, accs = [⟨⟨k.1, k.2, resource⟩, g.update n k.1 stamp⟩]

theorem Watched.sweep {ds : List Deed} (h : Watched choose k g epoch ds (seek k a.series))
    (hg : choose k.1 = some g) (hnew : Aggregator.IsNew k.1 g) (ha : Sound choose a)
    (step : ProcessorStep σ) (p : σ) {n : Nat}
    (hn : (Accumulator.sweep (logged step) (p, []) a).2.2 = .ok n)
    (hds : Unrecorded k.1 (Accumulator.sweep (logged step) (p, []) a).2.1.2) :
    let r := Accumulator.sweep (logged step) (p, []) a
    Watched choose k g (epoch + 1) [] (seek k r.1.series) ∧
      LastOnly choose k g a.resource (ds ++ r.2.1.2) (handedTo k r.2.1.2) := by
  intro r
  have hgiven : ∀ {accs Q s?}, Untouched choose k accs Q r.2.1.2 s? →
      given choose k (ds ++ r.2.1.2) = given choose k ds := by
    intro accs Q s? hu
    rw [given_append, (hu hds).2.2, List.append_nil]
  rw [Watched] at h
  rw [LastOnly]
  cases hlast : (given choose k ds).getLast? with
  | none =>
    -- the sweep does not find the series, and at most evicts it
    rw [hlast] at h
    have hidle : ∀ s, seek k a.series = some s → s.isPending = false := by
      intro s hs
      simp [LiveSeries.isPending, (h s hs).collected]
    have hb : Untouched choose k [] (Rested k g (epoch + 1)) []
        ((seek k a.series).map aged) := by
      refine fun _ => ⟨fun t ht => ?_, rfl, rfl⟩
      obtain ⟨s, hs, rfl⟩ := Option.map_eq_some_iff.mp ht
      have hrest := h s hs
      have hmade := hrest.made.aged
      rw [aged_of_not_pending (hidle s hs)] at hmade ⊢
      exact ⟨hmade, hrest.current, hrest.collected, hrest.observed.trans (Nat.le_succ _)⟩
    have hr := (enduring_untouched hg _ _).sweep (expendable_untouched _ _) hg step p ha hidle hb
    rw [hgiven hr, hlast]
    exact ⟨(hr hds).1, (hr hds).2.1⟩
  | some m =>
    rw [hlast] at h
    obtain ⟨f, stamp, hf, hrep⟩ := h
    have hpending : f.isPending = true := by
      simp [LiveSeries.isPending, hrep.collected.ne']
    have hb : Untouched choose k [] (· = f) [] (some f) ∧
        ∃ s, some f = some s ∧ s.MadeFrom k g :=
      ⟨fun _ => ⟨fun s hs => (Option.some.inj hs).symm, rfl, rfl⟩, f, rfl, hrep.made⟩
    rcases (hrep.passage hg hnew a.resource).sweep (expendable_untouched _ _) hg step p ha hf
      hpending hb with hr | ⟨⟨cause, hx⟩, -⟩
    · rw [hgiven hr, hlast]
      exact ⟨(hr hds).1, stamp, (hr hds).2.1.trans (by rw [hrep.current])⟩
    · rw [hx] at hn
      cases hn

/-! ## Collections -/

/-- Whether a collection completed its sweep, be it after errors of callbacks. -/
def isComplete : Except Halt Nat → Bool
  | .ok _ | .error (.error (.partialCollection ..)) => true
  | _ => false

theorem WatchedIn.collect {ds : List Deed} (h : WatchedIn choose k g ds a)
    (hg : choose k.1 = some g) (hnew : Aggregator.IsNew k.1 g) (ha : Sound choose a)
    (cx : Context) (step : ProcessorStep σ) (p : σ)
    (hds : Unrecorded k.1 (ds ++ collected cx step p a)) :
    let r := Accumulator.collect cx step p a
    (isComplete r.2.2 = false → WatchedIn choose k g (ds ++ collected cx step p a) r.1) ∧
    (isComplete r.2.2 = true → WatchedIn choose k g [] r.1 ∧
      LastOnly choose k g a.resource (ds ++ collected cx step p a)
        (handedTo k (collected cx step p a))) := by
  obtain ⟨hsound, hcalled⟩ := (kept_watchedIn hg hnew).callObservers cx
    (List.range a.observers.length) ha h
  have hsetup := setup_callObservers ha cx (List.range a.observers.length)
  rcases collect_cases cx step p a with ⟨hc, hcol⟩ | ⟨hc, hcol⟩ | ⟨new, hcol, hlog, hc⟩
  · rw [hc, hcol, List.append_nil]
    exact ⟨fun _ => h, fun hx => by cases hx⟩
  · rw [hc, hcol]
    exact ⟨fun _ => hcalled, fun hx => by cases hx⟩
  · rw [hcol, ← List.append_assoc] at hds
    have hnewlog := hlog []
    rw [List.nil_append] at hnewlog
    rcases hc with ⟨n, errors, hn, -, hc⟩ | ⟨cause, -, hc⟩
    · have hdone : isComplete (Accumulator.collect cx step p a).2.2 = true := by
        rw [hc]
        dsimp only
        split <;> rfl
      refine ⟨fun hx => absurd hx (by simp [hdone]), fun _ => ?_⟩
      have hopen : a.isPoisoned = false := by
        cases hp : a.isPoisoned with
        | false => rfl
        | true =>
          rw [Accumulator.collect, hp] at hdone
          cases hdone
      have hw := hcalled (hsetup.isPoisoned.trans hopen) (hds.mono (by simp))
      obtain ⟨hnext, hlast⟩ := hw.sweep hg hnew hsound step p (by rw [hnewlog]; exact hn)
        (by rw [hnewlog]; exact hds.mono (by simp))
      rw [hnewlog] at hnext hlast
      have hhanded : handedTo k (collected cx step p a) = handedTo k new := by
        rw [hcol, handedTo_append, handedTo, handed_calledAll]
        rfl
      rw [hhanded, hcol, ← List.append_assoc, ← hsetup.resource]
      have hepoch := (setup_sweep hsound step p []).epoch
      rw [hlog] at hepoch
      refine ⟨fun _ _ => ?_, hlast⟩
      rw [hc]
      dsimp only at hepoch ⊢
      rw [hepoch]
      exact hnext
    · refine ⟨fun _ hx => ?_, fun hx => ?_⟩
      · rw [hc] at hx
        cases hx
      · rw [hc] at hx
        cases hx

/-! ## Runs -/

def Request.completes : Request σ → Accumulator → Bool
  | .collect cx step p, a => isComplete (Accumulator.collect cx step p a).2.2
  | _, _ => false

/-- The deeds of a run, after some earlier ones, since its last completed sweep. -/
def deedsSince : List (Request σ) → List Deed → Accumulator → List Deed
  | [], ds, _ => ds
  | request :: requests, ds, a =>
    deedsSince requests (if request.completes a then [] else ds ++ deeds request a)
      (serve request a)

theorem WatchedIn.serve {ds : List Deed} (h : WatchedIn choose k g ds a)
    (hg : choose k.1 = some g) (hnew : Aggregator.IsNew k.1 g) (ha : Sound choose a)
    (request : Request σ) (hds : Unrecorded k.1 (ds ++ deeds request a)) :
    WatchedIn choose k g (if request.completes a then [] else ds ++ deeds request a)
      (serve request a) := by
  have hkept := kept_watchedIn hg hnew
  cases request with
  | record m => exact hkept.record ha h m
  | register descriptors calls =>
    obtain ⟨-, hsame, hseries⟩ := ha.register descriptors calls
    rw [deeds, List.append_nil]
    exact hkept.same h hsame hseries
  | await now flags =>
    rw [deeds, List.append_nil]
    exact hkept.same h ⟨rfl, rfl, rfl, rfl, rfl⟩ rfl
  | collect cx step p =>
    obtain ⟨hopen, hdone⟩ := h.collect hg hnew ha cx step p hds
    rw [Request.completes]
    split
    next hx => exact (hdone hx).1
    next hx => exact hopen (by simpa using hx)

theorem WatchedIn.serveAll {ds : List Deed} (h : WatchedIn choose k g ds a)
    (hg : choose k.1 = some g) (hnew : Aggregator.IsNew k.1 g) (ha : Sound choose a)
    (requests : List (Request σ)) (hds : Unrecorded k.1 (ds ++ deedsAll requests a)) :
    WatchedIn choose k g (deedsSince requests ds a) (serveAll requests a) ∧
      Unrecorded k.1 (deedsSince requests ds a) := by
  induction requests generalizing ds a with
  | nil =>
    rw [deedsAll, List.append_nil] at hds
    exact ⟨h, hds⟩
  | cons request requests ih =>
    rw [deedsAll, ← List.append_assoc] at hds
    have hone := h.serve hg hnew ha request (hds.mono (by simp))
    refine ih hone (ha.serve request) (hds.mono ?_)
    split
    · simp
    · exact fun _ hx => hx

theorem resource_serve (ha : Sound choose a) (request : Request σ) :
    (serve request a).resource = a.resource := by
  cases request with
  | record m => exact (measured_record ha.selector m).setup.resource
  | register descriptors calls => exact (ha.register descriptors calls).2.1.resource
  | await now flags => rfl
  | collect cx step p =>
    have hcalled := setup_callObservers ha cx (List.range a.observers.length)
    have hsound := ha.callObservers cx (List.range a.observers.length)
    rw [Accumulator.serve]
    rcases collect_cases cx step p a with ⟨hc, -⟩ | ⟨hc, -⟩ | ⟨new, -, hlog, hc⟩
    · rw [hc]
    · rw [hc]
      exact hcalled.resource
    · have hswept := (setup_sweep hsound step p []).resource
      rw [hlog] at hswept
      rcases hc with ⟨n, errors, -, -, hc⟩ | ⟨cause, -, hc⟩ <;>
      · rw [hc]
        exact hswept.trans hcalled.resource

theorem resource_serveAll (ha : Sound choose a) (requests : List (Request σ)) :
    (serveAll requests a).resource = a.resource := by
  induction requests generalizing a with
  | nil => rfl
  | cons request requests ih => exact (ih (ha.serve request)).trans (resource_serve ha request)

theorem watchedIn_new (choose : Descriptor → Option Aggregator) (k : SeriesKey) (g : Aggregator)
    (resource : Resource) (idleCycles : Nat) (created : Time) :
    WatchedIn choose k g [] (new (.ofFunction choose) resource idleCycles created) :=
  fun _ _ => watched_none choose k g 0

end

/-- A completed collection hands over a series that is only observed exactly if an observation of
it was accepted since the last completed sweep: then the accumulation is a new aggregator with the
last of these observations alone, whatever else was observed, failed or was cancelled meanwhile. -/
theorem last_observation_handed_over {σ : Type} (choose : Descriptor → Option Aggregator)
    (resource : Resource) (idleCycles : Nat) (created : Time) (requests : List (Request σ))
    (cx : Context) (step : ProcessorStep σ) (p : σ) (k : SeriesKey) (g : Aggregator)
    (hg : choose k.1 = some g) (hnew : Aggregator.IsNew k.1 g) :
    let start := new (.ofFunction choose) resource idleCycles created
    let a := serveAll requests start
    (∀ m, Deed.recorded m ∈ deedsAll requests start ++ collected cx step p a →
      m.descriptor ≠ k.1) →
    (Request.collect cx step p).completes a = true →
    LastOnly choose k g resource (deedsSince requests [] start ++ collected cx step p a)
      (handedTo k (collected cx step p a)) := by
  intro start a honly hdone
  have hsound : Sound choose start := sound_new resource idleCycles created
  obtain ⟨hwatched, hsince⟩ := (watchedIn_new choose k g resource idleCycles created).serveAll hg
    hnew hsound requests (fun m hm => honly m (List.mem_append_left _ hm))
  have hds : Unrecorded k.1 (deedsSince requests [] start ++ collected cx step p a) := by
    intro m hm
    rcases List.mem_append.mp hm with hm | hm
    · exact hsince m hm
    · exact honly m (List.mem_append_right _ hm)
  have hlast := ((hwatched.collect hg hnew (hsound.serveAll requests) cx step p hds).2 hdone).2
  rw [resource_serveAll hsound] at hlast
  exact hlast

/-- A sum is observed in a collection that is cancelled, and three times in the next one, the last
time out of range. -/
theorem last_observation_handed_over_bytes :
    let d : Descriptor := { name := "bytes.read", kind := .counterObserver, numberKind := .i64 }
    let seen (n : Number) : CallbackAction := .observe d n .empty
    let step : ProcessorStep Unit := fun _ _ => ((), {})
    let cx : Context := { flag := some 0 }
    let requests : List (Request Unit) :=
      [.await 0 [false], .register [d] [[seen ⟨7⟩, .cancel], [seen ⟨8⟩, seen ⟨9⟩, seen ⟨-1⟩]],
        .collect cx step (), .await 9 [false]]
    let start := new (.ofFunction fun _ => some .newSum) .empty 1 0
    let a := serveAll requests start
    (∀ m, Deed.recorded m ∈ deedsAll requests start ++ collected cx step () a →
      m.descriptor ≠ d) ∧ (Request.collect cx step ()).completes a = true ∧
      handedTo (d, .empty) (collected cx step () a) = [⟨⟨d, .empty, .empty⟩, .sum ⟨9⟩⟩] := by
  intro d seen step cx requests start a
  have honly : ∀ m, Deed.recorded m ∈ deedsAll requests start ++ collected cx step () a →
      m.descriptor ≠ d := by
    have hall : (deedsAll requests start ++ collected cx step () a).all (!·.isRecorded) = true := by
      decide +kernel
    intro m hm
    have hm := List.all_eq_true.mp hall _ hm
    simp [Deed.isRecorded] at hm
  have hdone : (Request.collect cx step ()).completes a = true := by decide +kernel
  have hlast := last_observation_handed_over (fun _ => some .newSum) .empty 1 0 requests cx step ()
    (d, .empty) .newSum rfl (Aggregator.isNew_newSum d) honly hdone
  have hgiven : (given (fun _ => some .newSum) (d, .empty)
      (deedsSince requests [] start ++ collected cx step () a)).getLast? = some ⟨9⟩ := by
    decide +kernel
  rw [LastOnly, hgiven] at hlast
  obtain ⟨stamp, hlast⟩ := hlast
  have hsum : Aggregator.newSum.update ⟨9⟩ d stamp = .sum ⟨9⟩ := rfl
  rw [hsum] at hlast
  exact ⟨honly, hdone, hlast⟩

end Metering.Accumulator
