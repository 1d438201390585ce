import Metering.Proofs.Accumulator.Observed
import Metering.Proofs.Accumulator.Upkeep

/-!
# Which series are registered

A series is registered with its first measurement and evicted by the sweep that finds it idle as
often as the accumulator allows. So a completed sweep leaves those series that were handed over in
the last sweeps, as many as that number, and each of them counts the sweeps since then. A
collection that is cancelled before its sweep counts for nothing.
-/

namespace Metering.Accumulator

/-! ## Processors that do not record -/

section
variable {σ : Type} {step : ProcessorStep σ} {s : LiveSeries} {p : σ} {a : Accumulator} {n : Nat}

/-- Whether a processor records nothing while it is handed an accumulation. -/
def Unrecording (step : ProcessorStep σ) : Prop := ∀ p acc, (step p acc).2.records = []

/-- A processor that goes on where another one panics. -/
def calmed (step : ProcessorStep σ) : ProcessorStep σ := fun p acc =>
  let reply := step p acc
  (reply.1, { reply.2 with
    outcome := match reply.2.outcome with
      | .error (.panic _) => .ok ()
      | outcome => outcome })

theorem silent_calmed (h : Unrecording step) : Silent (fun _ => True) (calmed step) := by
  intro p acc _
  refine ⟨h p acc, ?_, trivial⟩
  intro cause
  simp only [calmed]
  split
  · simp
  next hpanic => exact hpanic cause

theorem checkpointSeries_calmed (h : (checkpointSeries step s p a).2.2 = .ok n) :
    checkpointSeries (calmed step) s p a = checkpointSeries step s p a := by
  simp only [checkpointSeries] at h ⊢
  cases hm : s.current.move s.checkpoint s.descriptor with
  | error cause => rfl
  | ok moved =>
    simp only [hm, calmed] at h ⊢
    split at h
    · next hout => simp only [hout]
    · next hout => simp only [hout]
    · cases h

theorem checkpointAll_calmed {found : List LiveSeries}
    (h : (checkpointAll step found p a).2.2 = .ok n) :
    checkpointAll (calmed step) found p a = checkpointAll step found p a := by
  induction found generalizing p a n with
  | nil => rfl
  | cons f found ih =>
    simp only [checkpointAll] at h ⊢
    rcases hone : checkpointSeries step ((a.find? f.descriptor f.labels).getD f) p a with
      ⟨b, q, cause | m⟩
    · rw [hone] at h
      cases h
    · rw [checkpointSeries_calmed (congrArg (·.2.2) hone), hone]
      rw [hone] at h
      obtain ⟨m', hrest, _⟩ := map_add_eq_ok h
      simp only [ih hrest]

theorem sweep_calmed (h : (sweep step p a).2.2 = .ok n) :
    sweep (calmed step) p a = sweep step p a := by
  rcases hall : checkpointAll step (a.series.filter (·.isPending)) p a.ageIdle with
    ⟨b, q, cause | m⟩
  · rw [sweep, hall] at h
    cases h
  · rw [sweep, sweep, checkpointAll_calmed (congrArg (·.2.2) hall)]

end

/-! ## Measurements -/

/-- Whether measurements lead from one state of a series to another: none were taken in, or the
series holds some now. They do not change how often the series was idle. -/
def Busier (s? t? : Option LiveSeries) : Prop :=
  t? = s? ∨ ∃ t, t? = some t ∧ t.isPending = true ∧ t.idleSweeps = s?.elim 0 (·.idleSweeps)

theorem Busier.refl (s? : Option LiveSeries) : Busier s? s? := .inl rfl

theorem Busier.trans {s? t? u? : Option LiveSeries} (h : Busier s? t?) (h' : Busier t? u?) :
    Busier s? u? := by
  rcases h' with rfl | ⟨u, hu, hpending, hidle⟩
  · exact h
  · right
    refine ⟨u, hu, hpending, ?_⟩
    rcases h with rfl | ⟨t, rfl, _, ht⟩
    · exact hidle
    · exact hidle.trans ht

theorem Tended.busier {k : SeriesKey} {g : Aggregator} {epoch : Nat} {ns : List Number}
    {n? : Option Number} {s? : Option LiveSeries} {add : Number → LiveSeries}
    (h : Tended k g epoch (ns ++ n?.toList) ((n?.map add).or s?))
    (hidle : ∀ n, (add n).idleSweeps = s?.elim 0 (·.idleSweeps)) :
    Busier s? ((n?.map add).or s?) := by
  cases n? with
  | none => exact .refl s?
  | some n =>
    right
    refine ⟨add n, rfl, ?_, hidle n⟩
    rw [h.isPending rfl]
    cases ns <;> rfl

section
variable {choose : Descriptor → Option Aggregator} {ds : List Deed} {a : Accumulator}

variable (hnew : ∀ d g, choose d = some g → Aggregator.IsNew d g)
include hnew

theorem Upkept.busier_record (h : Upkept choose ds a) (m : Measurement) (k : SeriesKey) :
    Busier (seek k a.series) (seek k (a.record m).series) := by
  cases hg : choose k.1 with
  | none =>
    rw [h.disabled k hg, (h.record hnew m).disabled k hg]
    exact .refl none
  | some g =>
    have htended := (h.record hnew m).tended k g hg
    rw [given_snoc] at htended
    rw [seek_record_given h.selector hg] at htended ⊢
    apply htended.busier
    intro n
    cases seek k a.series <;> rfl

theorem Upkept.busier_observe (h : Upkept choose ds a) (registered : List Descriptor)
    (d : Descriptor) (n : Number) (labels : LabelSet) (k : SeriesKey) :
    Busier (seek k a.series) (seek k (a.observe registered d n labels).series) := by
  cases hg : choose k.1 with
  | none =>
    rw [h.disabled k hg, (h.observe hnew registered d n labels).disabled k hg]
    exact .refl none
  | some g =>
    have hmade (s : LiveSeries) (hs : seek k a.series = some s) : s.MadeFrom k g :=
      (h.tended k g hg).made hs
    have htended := (h.observe hnew registered d n labels).tended k g hg
    rw [given_snoc] at htended
    rw [seek_observe_given h.selector hg (hnew _ g hg) hmade] at htended ⊢
    apply htended.busier
    intro n
    cases seek k a.series <;> rfl

theorem kept_busier (a : Accumulator) :
    Kept choose fun ds b =>
      Upkept choose ds b ∧ ∀ k, Busier (seek k a.series) (seek k b.series) where
  same := by
    intro ds b c hb hsetup hseries
    refine ⟨hb.1.same hsetup hseries, ?_⟩
    rw [hseries]
    exact hb.2
  record := by
    intro ds b _ hb m
    exact ⟨hb.1.record hnew m, fun k => (hb.2 k).trans (hb.1.busier_record hnew m k)⟩
  observe := by
    intro ds b registered _ _ hb d n labels
    exact ⟨hb.1.observe hnew registered d n labels,
      fun k => (hb.2 k).trans (hb.1.busier_observe hnew registered d n labels k)⟩

end

/-! ## Sweeps -/

/-- The number of sweeps since the series with a key was handed over last, if it ever was. -/
def sinceHanded (k : SeriesKey) (sweeps : List (List Accumulation)) : Option Nat :=
  sweeps.reverse.findIdx? fun batch => batch.any fun acc => acc.series.key = k

theorem sinceHanded_snoc (k : SeriesKey) (sweeps : List (List Accumulation))
    (batch : List Accumulation) :
    sinceHanded k (sweeps ++ [batch]) =
      if batch.any fun acc => acc.series.key = k then some 0
      else (sinceHanded k sweeps).map (· + 1) := by
  rw [sinceHanded, List.reverse_append, List.reverse_singleton, List.singleton_append,
    List.findIdx?_cons]
  rfl

/-- The last sweeps hand a key over if and only if there were fewer sweeps since then. -/
theorem exists_handed_iff {k : SeriesKey} {sweeps : List (List Accumulation)} {n : Nat} :
    (∃ batch ∈ sweeps.drop (sweeps.length - n), ∃ acc ∈ batch, acc.series.key = k) ↔
      ∃ m, sinceHanded k sweeps = some m ∧ m < n := by
  have hlast : (∃ batch ∈ sweeps.drop (sweeps.length - n), ∃ acc ∈ batch, acc.series.key = k) ↔
      ((sweeps.reverse.take n).any fun batch => batch.any fun acc => acc.series.key = k) =
        true := by
    rw [List.take_reverse]
    simp
  rw [hlast, ← List.findIdx?_isSome, List.findIdx?_take, ← sinceHanded]
  cases sinceHanded k sweeps <;> simp [Option.guard]

/-- How long a series stays: one without new measurements counts the sweeps since it was handed
over, which are fewer than the accumulator allows, and one that is not there was handed over as
long ago, or never. -/
def Tenure (cycles : Nat) (since : Option Nat) : Option LiveSeries → Prop
  | none => ∀ m, since = some m → cycles ≤ m
  | some s => s.isPending = false → since = some s.idleSweeps ∧ s.idleSweeps < cycles

variable {cycles : Nat} {since : Option Nat} {s? t? : Option LiveSeries}

theorem Tenure.busier (h : Tenure cycles since s?) (hb : Busier s? t?) :
    Tenure cycles since t? := by
  rcases hb with rfl | ⟨t, rfl, hpending, _⟩
  · exact h
  · intro hidle
    rw [hpending] at hidle
    cases hidle

theorem Tenure.swept (h : Tenure cycles since s?) (hcycles : 1 ≤ cycles) {a : Accumulator}
    (ha : a.idleCycles = cycles) :
    Tenure cycles
      (if (s?.bind LiveSeries.content).isSome then some 0 else since.map (· + 1))
      ((s?.map (·.swept)).filter (!a.isEvictable ·)) := by
  cases s? with
  | none =>
    intro m hm
    obtain ⟨m', hm', rfl⟩ := Option.map_eq_some_iff.mp hm
    have hle := h m' hm'
    omega
  | some s =>
    cases hp : s.isPending with
    | true =>
      have hswept : s.swept = emptied s := if_pos hp
      have hkept : a.isEvictable (emptied s) = false := by
        simp [isEvictable, emptied, ha]
        omega
      rw [Option.map_some, hswept, Option.filter_some_pos (by simp [hkept])]
      intro _
      simp [LiveSeries.content, hp, emptied]
      omega
    | false =>
      obtain ⟨hsince, hlt⟩ := h hp
      have hswept : s.swept = { s with idleSweeps := s.idleSweeps + 1 } := by
        rw [LiveSeries.swept, hp, aged_of_not_pending hp]
        rfl
      have hp' : LiveSeries.isPending { s with idleSweeps := s.idleSweeps + 1 } = false := hp
      have hcontent : ((some s).bind LiveSeries.content).isSome = false := by
        simp [LiveSeries.content, hp]
      rw [Option.map_some, hswept, hcontent, hsince]
      by_cases hlast : cycles ≤ s.idleSweeps + 1
      · have hevicted : a.isEvictable { s with idleSweeps := s.idleSweeps + 1 } = true := by
          simp [isEvictable, ha, hp', hlast]
        rw [Option.filter_some_neg (by simp [hevicted])]
        intro m hm
        obtain rfl : s.idleSweeps + 1 = m := by simpa using hm
        exact hlast
      · have hkept : a.isEvictable { s with idleSweeps := s.idleSweeps + 1 } = false := by
          simp [isEvictable, ha]
          omega
        rw [Option.filter_some_pos (by simp [hkept])]
        intro _
        constructor
        · simp
        · change s.idleSweeps + 1 < cycles
          omega

/-! ## All series -/

/-- Whether the series are those that completed sweeps, and the measurements since then, leave. -/
structure Registered (choose : Descriptor → Option Aggregator) (cycles : Nat)
    (sweeps : List (List Accumulation)) (ds : List Deed) (a : Accumulator) : Prop where
  upkept : Upkept choose ds a
  idleCycles : a.idleCycles = cycles
  tenure : ∀ k, Tenure cycles (sinceHanded k sweeps) (seek k a.series)

variable {choose : Descriptor → Option Aggregator} {sweeps : List (List Accumulation)}
  {ds ds' : List Deed} {a b : Accumulator}

theorem registered_new (resource : Resource) (hcycles : 1 ≤ cycles) (created : Time) :
    Registered choose cycles [] [] (new (.ofFunction choose) resource cycles created) := by
  refine ⟨upkept_new resource cycles created, max_eq_right hcycles, ?_⟩
  intro k m hm
  cases hm

theorem Registered.busier (h : Registered choose cycles sweeps ds a) (hb : Upkept choose ds' b)
    (hsetup : SameSetup a b) (hbusier : ∀ k, Busier (seek k a.series) (seek k b.series)) :
    Registered choose cycles sweeps ds' b :=
  ⟨hb, hsetup.idleCycles.trans h.idleCycles, fun k => (h.tenure k).busier (hbusier k)⟩

theorem any_contents (hd : Distinct a.series) (k : SeriesKey) :
    (a.contents.any fun acc => acc.series.key = k) =
      ((seek k a.series).bind LiveSeries.content).isSome := by
  rw [Bool.eq_iff_iff, ← exists_mem_contents hd]
  simp

theorem Registered.idleSweeps (h : Registered choose cycles sweeps [] a) {k : SeriesKey}
    {s : LiveSeries} (hs : seek k a.series = some s) :
    sinceHanded k sweeps = some s.idleSweeps ∧ s.idleSweeps < cycles := by
  have htenure := h.tenure k
  rw [hs] at htenure
  apply htenure
  cases hg : choose k.1 with
  | none =>
    rw [h.upkept.disabled k hg] at hs
    cases hs
  | some g => exact (h.upkept.tended k g hg).isPending hs

theorem Registered.mem_keys_iff (h : Registered choose cycles sweeps [] a) {k : SeriesKey} :
    k ∈ a.series.map (·.key) ↔
      ∃ batch ∈ sweeps.drop (sweeps.length - cycles), ∃ acc ∈ batch, acc.series.key = k := by
  rw [exists_handed_iff]
  cases hs : seek k a.series with
  | none =>
    have htenure := h.tenure k
    rw [hs] at htenure
    constructor
    · intro hk
      exact absurd hk (seek_eq_none.mp hs)
    · intro ⟨m, hm, hlt⟩
      have hle := htenure m hm
      omega
  | some s =>
    constructor
    · intro _
      exact ⟨s.idleSweeps, h.idleSweeps hs⟩
    · intro _
      exact List.mem_map.mpr ⟨s, seek_mem hs, seek_key hs⟩

section
variable (hnew : ∀ d g, choose d = some g → Aggregator.IsNew d g)
include hnew

section
variable {σ : Type} {step : ProcessorStep σ} {p : σ} {cx : Context}

theorem Upkept.swept (h : Upkept choose ds a) (hstep : Unrecording step) {n : Nat}
    (hn : (Accumulator.sweep step p a).2.2 = .ok n) :
    Cleared a (Accumulator.sweep step p a).1 ∧
      handed (Accumulator.sweep (logged step) (p, []) a).2.1.2 = a.contents := by
  have hmovable := h.allMade.movable hnew h.distinct
  have hsilent := silent_calmed hstep
  obtain ⟨new, hlog⟩ := sweep_logged step p a
  have hn' : (Accumulator.sweep (logged step) (p, []) a).2.2 = .ok n := by
    rw [hlog]
    exact hn
  constructor
  · rw [← sweep_calmed hn]
    exact (sweep_silent hsilent trivial h.distinct hmovable).2
  · have hswept := (sweep_silent hsilent.logged (p := (p, [])) trivial h.distinct hmovable).1
    have hsame : Accumulator.sweep (logged (calmed step)) (p, []) a =
        Accumulator.sweep (logged step) (p, []) a := sweep_calmed hn'
    rw [hsame, hsilent.feed_logged trivial] at hswept
    rw [hswept]
    exact handed_processed a.contents

theorem Registered.swept (h : Registered choose cycles sweeps ds a) (hcycles : 1 ≤ cycles)
    (hb : Cleared a b) :
    Registered choose cycles (sweeps ++ [a.contents]) [] { b with epoch := b.epoch + 1 } := by
  refine ⟨h.upkept.sweep hnew hb b.now b.events, hb.setup.idleCycles.trans h.idleCycles, ?_⟩
  intro k
  rw [sinceHanded_snoc, any_contents h.upkept.distinct]
  change Tenure _ _ (seek k b.series)
  rw [hb.seeks]
  exact (h.tenure k).swept hcycles h.idleCycles

/-- A collection at most takes in measurements if it is cancelled, and counts as one more sweep if
it completes. Otherwise a panic ends it, and nothing is collected any more. -/
theorem Registered.collect (h : Registered choose cycles sweeps ds a) (hcycles : 1 ≤ cycles)
    (ha : Sound choose a) (hstep : Unrecording step) (cx : Context) (p : σ) :
    let r := Accumulator.collect cx step p a
    (r.2.2 = .error (.error .cancelled) ∧ (∃ ds', Registered choose cycles sweeps ds' r.1) ∧
      ∀ k, Busier (seek k a.series) (seek k r.1.series)) ∨
    (isComplete r.2.2 = true ∧
      Registered choose cycles (sweeps ++ [handed (collected cx step p a)]) [] r.1) ∨
    (∃ cause, r.2.2 = .error (.panic cause)) ∧ r.1.isPoisoned = true := by
  intro r
  have ⟨_, hcalled, hbusier⟩ := (kept_busier hnew a).callObservers cx
    (List.range a.observers.length) ha ⟨h.upkept, fun k => .refl _⟩
  have hsetup := setup_callObservers ha cx (List.range a.observers.length)
  have hregistered := h.busier hcalled hsetup hbusier
  by_cases hgo : ∃ errors, Proceeds cx a errors
  · right
    obtain ⟨errors, hproceeds⟩ := hgo
    cases hs : (Accumulator.sweep step p (a.afterCallbacks cx)).2.2 with
    | ok n =>
      left
      have hr : r = _ := hproceeds.collect_of_ok hs
      have ⟨hcleared, hhanded⟩ := hcalled.swept hnew hstep hs
      have hdone : isComplete r.2.2 = true := by
        rw [hr]
        dsimp only
        split <;> rfl
      rw [hproceeds.collected_eq, handed_append, handed_calledAll, List.nil_append]
      have hswept := hregistered.swept hnew hcycles hcleared
      rw [← hhanded] at hswept
      rw [hr] at hdone ⊢
      exact ⟨hdone, hswept⟩
    | error cause =>
      right
      have hr : r = _ := hproceeds.collect_of_panic hs
      rw [hr]
      exact ⟨⟨cause, rfl⟩, rfl⟩
  · left
    have hr : r = _ := collect_of_not_proceeds h.upkept.intact (not_exists.mp hgo) step p
    rw [hr]
    exact ⟨rfl, ⟨_, hregistered⟩, hbusier⟩

/-! ## Runs -/

def Request.IsUnrecording : Request σ → Prop
  | .collect _ step _ => Unrecording step
  | .record _ | .register .. | .await .. => True

/-- What a request hands over in a sweep that it completes, if it does. -/
def Request.sweptOf (request : Request σ) (a : Accumulator) : List (List Accumulation) :=
  if request.completes a then [handed (deeds request a)] else []

/-- What the completed sweeps of a run hand over, one after the other. -/
def sweepsOf : List (Request σ) → Accumulator → List (List Accumulation)
  | [], _ => []
  | request :: requests, a => request.sweptOf a ++ sweepsOf requests (serve request a)

omit hnew in
theorem sweepsOf_append (requests requests' : List (Request σ)) (a : Accumulator) :
    sweepsOf (requests ++ requests') a =
      sweepsOf requests a ++ sweepsOf requests' (serveAll requests a) := by
  induction requests generalizing a with
  | nil => rfl
  | cons request requests ih =>
    rw [List.cons_append, sweepsOf, sweepsOf, ih, List.append_assoc]
    rfl

theorem Registered.serve (h : Registered choose cycles sweeps ds a) (hcycles : 1 ≤ cycles)
    (ha : Sound choose a) {request : Request σ} (hrequest : request.IsUnrecording) :
    (Accumulator.serve request a).isPoisoned = true ∨
      ∃ ds', Registered choose cycles (sweeps ++ request.sweptOf a) ds'
        (Accumulator.serve request a) := by
  cases request with
  | record m =>
    have hsetup := (measured_record ha.selector m).setup
    have hb := h.busier (h.upkept.record hnew m) hsetup (h.upkept.busier_record hnew m)
    exact .inr ⟨_, (List.append_nil sweeps).symm ▸ hb⟩
  | register descriptors calls =>
    have ⟨_, hsetup, hseries⟩ := ha.register descriptors calls
    have hb := h.busier (h.upkept.same hsetup hseries) hsetup fun k => .inl (by rw [hseries])
    exact .inr ⟨_, (List.append_nil sweeps).symm ▸ hb⟩
  | await now flags =>
    have hsetup : SameSetup a { a with now, flags } := ⟨rfl, rfl, rfl, rfl, rfl⟩
    have hb := h.busier (h.upkept.same hsetup rfl) hsetup fun k => .refl _
    exact .inr ⟨_, (List.append_nil sweeps).symm ▸ hb⟩
  | collect cx step p =>
    rw [Request.sweptOf, Request.completes]
    rcases h.collect hnew hcycles ha hrequest cx p with ⟨hr, ⟨ds', hb⟩, _⟩ | ⟨hdone, hb⟩ | ⟨_, hb⟩
    · rw [hr]
      exact .inr ⟨ds', (List.append_nil sweeps).symm ▸ hb⟩
    · rw [hdone]
      exact .inr ⟨[], hb⟩
    · exact .inl hb

omit hnew in
theorem isPoisoned_serve (ha : Sound choose a) (request : Request σ) (hp : a.isPoisoned = true) :
    (Accumulator.serve request a).isPoisoned = true := by
  cases request with
  | record m => exact (measured_record ha.selector m).setup.isPoisoned.trans hp
  | register descriptors calls => exact (ha.register descriptors calls).2.1.isPoisoned.trans hp
  | await now flags => exact hp
  | collect cx step p =>
    rw [Accumulator.serve, Accumulator.collect, if_pos hp]
    exact hp

omit hnew in
theorem isPoisoned_serveAll (ha : Sound choose a) (requests : List (Request σ))
    (hp : a.isPoisoned = true) : (Accumulator.serveAll requests a).isPoisoned = true := by
  induction requests generalizing a with
  | nil => exact hp
  | cons request requests ih => exact ih (ha.serve request) (isPoisoned_serve ha request hp)

theorem Registered.serveAll (h : Registered choose cycles sweeps ds a) (hcycles : 1 ≤ cycles)
    (ha : Sound choose a) {requests : List (Request σ)}
    (hrequests : ∀ request ∈ requests, request.IsUnrecording) :
    (Accumulator.serveAll requests a).isPoisoned = true ∨
      ∃ ds', Registered choose cycles (sweeps ++ sweepsOf requests a) ds'
        (Accumulator.serveAll requests a) := by
  induction requests generalizing sweeps ds a with
  | nil => exact .inr ⟨ds, (List.append_nil sweeps).symm ▸ h⟩
  | cons request requests ih =>
    have ⟨hrequest, hrequests⟩ := List.forall_mem_cons.mp hrequests
    rcases h.serve hnew hcycles ha hrequest with hp | ⟨ds', hb⟩
    · exact .inl (isPoisoned_serveAll (ha.serve request) requests hp)
    · rw [sweepsOf, ← List.append_assoc]
      exact ih hb (ha.serve request) hrequests

/-- A collection after a run is cancelled, completes its sweep, or is ended by a panic, its own or
an earlier one. -/
theorem Registered.serveAll_collect (h : Registered choose cycles sweeps ds a)
    (hcycles : 1 ≤ cycles) (ha : Sound choose a) {requests : List (Request σ)}
    (hrequests : ∀ request ∈ requests, request.IsUnrecording) {step : ProcessorStep σ}
    (hstep : Unrecording step) (cx : Context) (p : σ) :
    let b := Accumulator.serveAll requests a
    let r := Accumulator.collect cx step p b
    (r.2.2 = .error (.error .cancelled) ∧ ∀ k, Busier (seek k b.series) (seek k r.1.series)) ∨
    (isComplete r.2.2 = true ∧
      Registered choose cycles (sweeps ++ sweepsOf (requests ++ [.collect cx step p]) a) [] r.1) ∨
    isComplete r.2.2 = false ∧ r.2.2 ≠ .error (.error .cancelled) := by
  intro b r
  have hpoisoned (hp : b.isPoisoned = true) : r.2.2 = .error (.error .poisoned) := by
    simp only [r, Accumulator.collect, if_pos hp]
  rcases h.serveAll hnew hcycles ha hrequests with hp | ⟨ds', hb⟩
  · right
    right
    rw [hpoisoned hp]
    refine ⟨rfl, ?_⟩
    intro heq
    cases heq
  · rcases hb.collect hnew hcycles (ha.serveAll requests) hstep cx p with
      ⟨hr, _, hbusier⟩ | ⟨hdone, hr⟩ | ⟨⟨cause, hr⟩, _⟩
    · exact .inl ⟨hr, hbusier⟩
    · right
      left
      refine ⟨hdone, ?_⟩
      rw [sweepsOf_append, ← List.append_assoc, sweepsOf, sweepsOf, List.append_nil,
        Request.sweptOf, Request.completes, hdone]
      exact hr
    · right
      right
      rw [hr]
      exact ⟨rfl, by simp⟩

end
end

/-- A collection that completes its sweep, be it after errors of callbacks, leaves exactly the
series that were handed over in the last completed sweeps, as many of these as the accumulator
allows a series to be idle; and each series counts the sweeps since it was handed over, whether
callbacks failed in these or not. A collection that is cancelled before its sweep is none of them:
it evicts no series, and makes none seem idle for longer. -/
theorem registered_series_are_recent {σ : Type} (choose : Descriptor → Option Aggregator)
    (hnew : ∀ d g, choose d = some g → Aggregator.IsNew d g) (resource : Resource) (cycles : Nat)
    (hcycles : 1 ≤ cycles) (created : Time) (requests : List (Request σ))
    (hrequests : ∀ request ∈ requests, request.IsUnrecording) (cx : Context)
    (step : ProcessorStep σ) (hstep : Unrecording step) (p : σ) :
    let start := new (.ofFunction choose) resource cycles created
    let a := serveAll requests start
    let r := collect cx step p a
    let sweeps := sweepsOf (requests ++ [.collect cx step p]) start
    (isComplete r.2.2 = true →
      (∀ k, k ∈ r.1.series.map (·.key) ↔
        ∃ batch ∈ sweeps.drop (sweeps.length - cycles), ∃ acc ∈ batch, acc.series.key = k) ∧
      ∀ s ∈ r.1.series, sinceHanded s.key sweeps = some s.idleSweeps) ∧
    (r.2.2 = .error (.error .cancelled) →
      sweeps = sweepsOf requests start ∧
      ∀ s ∈ a.series, ∃ t ∈ r.1.series, t.key = s.key ∧ t.idleSweeps = s.idleSweeps) := by
  intro start a r sweeps
  have hsound : Sound choose start := sound_new resource cycles created
  have hstart : Registered choose cycles [] [] start := registered_new resource hcycles created
  have hcollect := hstart.serveAll_collect hnew hcycles hsound hrequests hstep cx p
  constructor
  · intro hdone
    rcases hcollect with ⟨hr, _⟩ | ⟨_, hb⟩ | ⟨hr, _⟩
    · rw [hr] at hdone
      cases hdone
    · have hb : Registered choose cycles sweeps [] r.1 := hb
      constructor
      · exact fun k => hb.mem_keys_iff
      · exact fun s hs => (hb.idleSweeps (seek_of_mem hb.upkept.distinct hs)).1
    · rw [hr] at hdone
      cases hdone
  · intro hcancelled
    rcases hcollect with ⟨_, hbusier⟩ | ⟨hr, _⟩ | ⟨_, hr⟩
    · constructor
      · change sweepsOf (requests ++ [.collect cx step p]) start = _
        rw [sweepsOf_append, sweepsOf, sweepsOf, Request.sweptOf, Request.completes, hcancelled]
        simp [isComplete]
      · intro s hs
        have hbusier := hbusier s.key
        rw [seek_of_mem (hsound.serveAll requests).distinct hs] at hbusier
        rcases hbusier with ht | ⟨t, ht, _, hidle⟩
        · exact ⟨s, seek_mem ht, rfl, rfl⟩
        · exact ⟨t, seek_mem ht, seek_key ht, hidle⟩
    · rw [hcancelled] at hr
      cases hr
    · exact absurd hcancelled hr

/-- Two series with eviction after two idle sweeps: one is handed over in the first sweep, and one
in the second, in which a callback fails. The third collection is cancelled, so that only the next
one evicts the first series. -/
theorem registered_series_of_requests :
    let id (name : String) : Descriptor := { name, kind := .counter, numberKind := .u64 }
    let step : ProcessorStep Unit := fun _ _ => ((), {})
    let cx : Context := { flag := some 0 }
    let failing : List CallbackAction := [.fail (.other (.described "no sensor"))]
    let early : List (Request Unit) :=
      [.await 0 [false], .record ⟨id "requests", ⟨1⟩, .u64, .empty⟩, .collect cx step (),
        .register [] [failing, [.cancel], []], .record ⟨id "errors", ⟨2⟩, .u64, .empty⟩,
        .collect cx step ()]
    let later : List (Request Unit) := early ++ [.collect cx step (), .await 9 [false]]
    let start := new (.ofFunction fun _ => some .newSum) .empty 2 0
    let sweeps := sweepsOf (later ++ [.collect cx step ()]) start
    let names (a : Accumulator) : List (String × Nat) :=
      a.series.map fun s => (s.descriptor.name, s.idleSweeps)
    sweeps.map (·.map (·.series.descriptor.name)) = [["requests"], ["errors"], []] ∧
      names (serveAll early start) = [("requests", 1), ("errors", 0)] ∧
      (∀ s ∈ (serveAll early start).series,
        ∃ t ∈ (collect cx step () (serveAll early start)).1.series,
          t.key = s.key ∧ t.idleSweeps = s.idleSweeps) ∧
      names (collect cx step () (serveAll later start)).1 = [("errors", 1)] ∧
      ∀ k, k ∈ (collect cx step () (serveAll later start)).1.series.map (·.key) ↔
        ∃ batch ∈ sweeps.drop (sweeps.length - 2), ∃ acc ∈ batch, acc.series.key = k := by
  intro id step cx failing early later start sweeps names
  have hstep : Unrecording step := fun _ _ => rfl
  have hnew : ∀ (d : Descriptor) (g : Aggregator),
      some .newSum = some g → Aggregator.IsNew d g := by
    intro d g hg
    exact Option.some.inj hg ▸ Aggregator.isNew_newSum d
  have hearly : ∀ request ∈ early, request.IsUnrecording := by
    simp [early, Request.IsUnrecording, hstep]
  have hlater : ∀ request ∈ later, request.IsUnrecording := by
    simp [later, early, Request.IsUnrecording, hstep]
  have hcancelled : (collect cx step () (serveAll early start)).2.2 =
      .error (.error .cancelled) := by
    have hends : ((serveAll early start).afterCallbacks cx).isCancelled cx = true := by
      decide +kernel
    rw [collect_of_not_proceeds (by decide +kernel)]
    intro errors hproceeds
    rw [hproceeds.goesOn] at hends
    cases hends
  have hdone : isComplete (collect cx step () (serveAll later start)).2.2 = true := by
    decide +kernel
  have hfirst := registered_series_are_recent (fun _ => some .newSum) hnew .empty 2 (by decide) 0
    early hearly cx step hstep ()
  have hsecond := registered_series_are_recent (fun _ => some .newSum) hnew .empty 2 (by decide) 0
    later hlater cx step hstep ()
  have hstart : new (.ofFunction fun _ => some .newSum) .empty 2 0 = start := rfl
  dsimp only at hfirst hsecond
  rw [hstart] at hfirst hsecond
  refine ⟨by decide +kernel, by decide +kernel, ?_, by decide +kernel, ?_⟩
  · exact (hfirst.2 hcancelled).2
  · exact (hsecond.1 hdone).1

end Metering.Accumulator
