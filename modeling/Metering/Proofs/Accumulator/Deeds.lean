import Metering.Proofs.Accumulator.Series

/-!
# What is done in a run

A run of an accumulator leaves a list of deeds: measurements that were offered, whether or not
they were accepted, and accumulations that were handed to a processor.
-/

namespace Metering.Accumulator

/-- What was done to the series, in the order in which it happened. -/
inductive Deed where
  | recorded (m : Measurement)
  | observed (registered : List Descriptor) (d : Descriptor) (n : Number) (labels : LabelSet)
  | processed (acc : Accumulation)

/-! ## Callbacks -/

/-- The measurements of a callback, up to the action that ends it. -/
def performed (registered : List Descriptor) : List CallbackAction → List Deed
  | [] => []
  | .observe d n labels :: rest => .observed registered d n labels :: performed registered rest
  | .record m :: rest => .recorded m :: performed registered rest
  | .fail _ :: _ | .panic _ :: _ => []
  | .register .. :: rest | .cancel :: rest | .note _ :: rest => performed registered rest

def called (i : Nat) (a : Accumulator) : List Deed :=
  a.observers[i]?.elim [] fun o => performed o.descriptors o.nextActions

def calledAll (cx : Context) : List Nat → Accumulator → List Deed
  | [], _ => []
  | i :: is, a =>
    if a.isCancelled cx then [] else called i a ++ calledAll cx is (callObserver cx i a).1

/-! ## Collections -/

section
variable {σ : Type}

/-- A processor that writes down what it is handed, and what it records meanwhile. -/
def logged (step : ProcessorStep σ) : ProcessorStep (σ × List Deed) := fun p acc =>
  let reply := step p.1 acc
  ((reply.1, p.2 ++ .processed acc :: reply.2.records.map .recorded), reply.2)

def collected (cx : Context) (step : ProcessorStep σ) (p : σ) (a : Accumulator) : List Deed :=
  if a.isPoisoned then []
  else
    calledAll cx (List.range a.observers.length) a ++ (collect cx (logged step) (p, []) a).2.1.2

theorem checkpointSeries_logged (step : ProcessorStep σ) (s : LiveSeries) (p : σ)
    (a : Accumulator) :
    ∃ new, ∀ log, checkpointSeries (logged step) s (p, log) a =
      ((checkpointSeries step s p a).1, ((checkpointSeries step s p a).2.1, log ++ new),
        (checkpointSeries step s p a).2.2) := by
  simp only [checkpointSeries]
  cases s.current.move s.checkpoint s.descriptor with
  | error cause => exact ⟨[], fun log => by simp⟩
  | ok moved =>
    let acc : Accumulation := ⟨⟨s.descriptor, s.labels, a.resource⟩, moved.2⟩
    refine ⟨.processed acc :: (step p acc).2.records.map .recorded, fun log => ?_⟩
    simp only [logged]
    split <;> rfl

theorem checkpointAll_logged (step : ProcessorStep σ) (found : List LiveSeries) (p : σ)
    (a : Accumulator) :
    ∃ new, ∀ log, checkpointAll (logged step) found (p, log) a =
      ((checkpointAll step found p a).1, ((checkpointAll step found p a).2.1, log ++ new),
        (checkpointAll step found p a).2.2) := by
  induction found generalizing p a with
  | nil => exact ⟨[], fun log => by simp [checkpointAll]⟩
  | cons f found ih =>
    obtain ⟨new, h⟩ := checkpointSeries_logged step
      ((a.find? f.descriptor f.labels).getD f) p a
    simp only [checkpointAll, h]
    rcases checkpointSeries step ((a.find? f.descriptor f.labels).getD f) p a with
      ⟨a', p', cause | n⟩
    · exact ⟨new, fun log => rfl⟩
    · obtain ⟨new', h'⟩ := ih p' (markCollected f a')
      refine ⟨new ++ new', fun log => ?_⟩
      simp only [h', List.append_assoc]

theorem sweep_logged (step : ProcessorStep σ) (p : σ) (a : Accumulator) :
    ∃ new, ∀ log, sweep (logged step) (p, log) a =
      ((sweep step p a).1, ((sweep step p a).2.1, log ++ new), (sweep step p a).2.2) := by
  obtain ⟨new, h⟩ := checkpointAll_logged step (a.series.filter (·.isPending)) p a.ageIdle
  refine ⟨new, fun log => ?_⟩
  simp only [sweep, h]
  rcases checkpointAll step (a.series.filter (·.isPending)) p a.ageIdle with ⟨a', p', cause | n⟩ <;>
    rfl

theorem callObservers_error {cx : Context} {is : List Nat} {a : Accumulator}
    {cause : MetricsError} (h : (callObservers cx is a).2 = .error cause) :
    cause = .cancelled := by
  induction is generalizing a with
  | nil => cases h
  | cons i is ih =>
    rw [callObservers] at h
    split at h
    · exact (Except.error.inj h).symm
    · cases hr : (callObservers cx is (callObserver cx i a).1).2 with
      | error cause' =>
        simp only [hr, Except.map, Except.error.injEq] at h
        exact ih (h ▸ hr)
      | ok errors => simp [hr, Except.map] at h

def afterCallbacks (cx : Context) (a : Accumulator) : Accumulator :=
  (callObservers cx (List.range a.observers.length) a).1

/-- Whether a collection gets to its sweep, with some errors of the callbacks. -/
structure Proceeds (cx : Context) (a : Accumulator) (errors : List MetricsError) : Prop where
  intact : a.isPoisoned = false
  called : (callObservers cx (List.range a.observers.length) a).2 = .ok errors
  goesOn : (a.afterCallbacks cx).isCancelled cx = false

variable {cx : Context} {a : Accumulator} {errors : List MetricsError} {step : ProcessorStep σ}
  {p : σ}

theorem Proceeds.callObservers_eq (h : Proceeds cx a errors) :
    callObservers cx (List.range a.observers.length) a = (a.afterCallbacks cx, .ok errors) :=
  Prod.ext rfl h.called

theorem Proceeds.collect_of_ok {n : Nat} (h : Proceeds cx a errors)
    (hs : (sweep step p (a.afterCallbacks cx)).2.2 = .ok n) :
    let swept := sweep step p (a.afterCallbacks cx)
    collect cx step p a = ({ swept.1 with epoch := swept.1.epoch + 1 }, swept.2.1,
      if errors.isEmpty then .ok n else .error (.error (.partialCollection n errors))) := by
  intro swept
  have hswept : sweep step p (a.afterCallbacks cx) = (swept.1, swept.2.1, .ok n) :=
    Prod.ext rfl (Prod.ext rfl hs)
  simp only [Accumulator.collect, h.intact, h.callObservers_eq, h.goesOn, hswept,
    Bool.false_eq_true, if_false]
  split <;> rfl

theorem Proceeds.collect_of_panic {cause : Panic} (h : Proceeds cx a errors)
    (hs : (sweep step p (a.afterCallbacks cx)).2.2 = .error cause) :
    let swept := sweep step p (a.afterCallbacks cx)
    collect cx step p a =
      ({ swept.1 with isPoisoned := true }, swept.2.1, .error (.panic cause)) := by
  intro swept
  have hswept : sweep step p (a.afterCallbacks cx) = (swept.1, swept.2.1, .error cause) :=
    Prod.ext rfl (Prod.ext rfl hs)
  simp only [Accumulator.collect, h.intact, h.callObservers_eq, h.goesOn, hswept,
    Bool.false_eq_true, if_false]

theorem Proceeds.collected_eq (h : Proceeds cx a errors) (step : ProcessorStep σ) (p : σ) :
    collected cx step p a = calledAll cx (List.range a.observers.length) a ++
      (sweep (logged step) (p, []) (a.afterCallbacks cx)).2.1.2 := by
  rw [collected, h.intact, if_neg Bool.false_ne_true]
  cases hs : (sweep (logged step) (p, []) (a.afterCallbacks cx)).2.2 with
  | ok n => rw [h.collect_of_ok hs]
  | error cause => rw [h.collect_of_panic hs]

theorem collect_of_not_proceeds (ha : a.isPoisoned = false) (h : ∀ errors, ¬Proceeds cx a errors)
    (step : ProcessorStep σ) (p : σ) :
    collect cx step p a = (a.afterCallbacks cx, p, .error (.error .cancelled)) := by
  rcases hc : callObservers cx (List.range a.observers.length) a with ⟨b, cause | errors⟩
  · obtain rfl := callObservers_error (congrArg Prod.snd hc)
    simp [collect, afterCallbacks, ha, hc]
  · have hcancelled : b.isCancelled cx = true := by
      by_contra hgo
      exact h errors ⟨ha, by rw [hc], by rw [afterCallbacks, hc]; simpa using hgo⟩
    simp [collect, afterCallbacks, ha, hc, hcancelled]

theorem collected_of_not_proceeds (ha : a.isPoisoned = false)
    (h : ∀ errors, ¬Proceeds cx a errors) (step : ProcessorStep σ) (p : σ) :
    collected cx step p a = calledAll cx (List.range a.observers.length) a := by
  rw [collected, ha, if_neg Bool.false_ne_true, collect_of_not_proceeds ha h, List.append_nil]

/-- What a collection does: nothing if an earlier one panicked, the callbacks alone if it is
cancelled, and otherwise the callbacks and a sweep, which may panic. -/
theorem collect_cases (cx : Context) (step : ProcessorStep σ) (p : σ) (a : Accumulator) :
    let called := callObservers cx (List.range a.observers.length) a
    let swept := sweep step p called.1
    (collect cx step p a = (a, p, .error (.error .poisoned)) ∧ collected cx step p a = []) ∨
    (collect cx step p a = (called.1, p, .error (.error .cancelled)) ∧
      collected cx step p a = calledAll cx (List.range a.observers.length) a) ∨
    ∃ new, collected cx step p a = calledAll cx (List.range a.observers.length) a ++ new ∧
      (∀ log, sweep (logged step) (p, log) called.1 =
        (swept.1, (swept.2.1, log ++ new), swept.2.2)) ∧
      ((∃ n errors, swept.2.2 = .ok n ∧ called.2 = .ok errors ∧ collect cx step p a =
        ({ swept.1 with epoch := swept.1.epoch + 1 }, swept.2.1,
          if errors.isEmpty then .ok n else .error (.error (.partialCollection n errors)))) ∨
      ∃ cause, swept.2.2 = .error cause ∧
        collect cx step p a =
          ({ swept.1 with isPoisoned := true }, swept.2.1, .error (.panic cause))) := by
  intro called swept
  cases ha : a.isPoisoned with
  | true => exact .inl ⟨by rw [collect, ha]; rfl, by rw [collected, ha]; rfl⟩
  | false =>
    by_cases hgo : ∃ errors, Proceeds cx a errors
    · obtain ⟨errors, h⟩ := hgo
      obtain ⟨new, hnew⟩ := sweep_logged step p (a.afterCallbacks cx)
      refine .inr (.inr ⟨new, ?_, hnew, ?_⟩)
      · rw [h.collected_eq, hnew, List.nil_append]
      · cases hs : swept.2.2 with
        | ok n => exact .inl ⟨n, errors, rfl, h.called, h.collect_of_ok hs⟩
        | error cause => exact .inr ⟨cause, rfl, h.collect_of_panic hs⟩
    · have hgo := not_exists.mp hgo
      exact .inr (.inl ⟨collect_of_not_proceeds ha hgo step p,
        collected_of_not_proceeds ha hgo step p⟩)

/-! ## Runs -/

/-- What a program may do with an accumulator. Between these requests time may pass and handles
of contexts may be used; each collection has a processor of its own. -/
inductive Request (σ : Type) where
  | record (m : Measurement)
  | register (descriptors : List Descriptor) (calls : List (List CallbackAction))
  | await (now : Time) (flags : CancellationFlags)
  | collect (cx : Context) (step : ProcessorStep σ) (p : σ)

def serve : Request σ → Accumulator → Accumulator
  | .record m, a => a.record m
  | .register descriptors calls, a => (a.register descriptors calls).1
  | .await now flags, a => { a with now, flags }
  | .collect cx step p, a => (collect cx step p a).1

def deeds : Request σ → Accumulator → List Deed
  | .record m, _ => [.recorded m]
  | .register .., _ | .await .., _ => []
  | .collect cx step p, a => collected cx step p a

def serveAll (requests : List (Request σ)) (a : Accumulator) : Accumulator :=
  requests.foldl (fun a request => serve request a) a

def deedsAll : List (Request σ) → Accumulator → List Deed
  | [], _ => []
  | request :: requests, a => deeds request a ++ deedsAll requests (serve request a)

theorem serveAll_append (requests requests' : List (Request σ)) (a : Accumulator) :
    serveAll (requests ++ requests') a = serveAll requests' (serveAll requests a) :=
  List.foldl_append

theorem deedsAll_append (requests requests' : List (Request σ)) (a : Accumulator) :
    deedsAll (requests ++ requests') a =
      deedsAll requests a ++ deedsAll requests' (serveAll requests a) := by
  induction requests generalizing a with
  | nil => rfl
  | cons request requests ih =>
    rw [List.cons_append, deedsAll, deedsAll, ih, List.append_assoc]
    rfl

end

/-! ## What holds along a run -/

/-- An accumulator whose selector always chooses the same, with different series, and with
callbacks for asynchronous instruments. -/
structure Sound (choose : Descriptor → Option Aggregator) (a : Accumulator) : Prop where
  selector : a.selector = .ofFunction choose
  distinct : Distinct a.series
  asynchronous : ∀ o ∈ a.observers, ∀ d ∈ o.descriptors, d.kind.isSynchronous = false

section
variable {choose : Descriptor → Option Aggregator}

theorem sound_new (resource : Resource) (idleCycles : Nat) (now : Time) :
    Sound choose (new (.ofFunction choose) resource idleCycles now) :=
  ⟨rfl, List.nodup_nil, by simp [new]⟩

theorem Sound.measured {a b : Accumulator} (h : Sound choose a) {k : SeriesKey}
    (hm : Measured k a b) : Sound choose b :=
  ⟨hm.setup.selector.trans h.selector, hm.distinct h.distinct, hm.observers ▸ h.asynchronous⟩

theorem Sound.register {a : Accumulator} (h : Sound choose a) (descriptors : List Descriptor)
    (calls : List (List CallbackAction)) :
    Sound choose (a.register descriptors calls).1 ∧
      SameSetup a (a.register descriptors calls).1 ∧
      (a.register descriptors calls).1.series = a.series := by
  rw [Accumulator.register]
  cases hd : descriptors.find? (·.kind.isSynchronous) with
  | some d => exact ⟨h, .refl a, rfl⟩
  | none =>
    refine ⟨⟨h.selector, h.distinct, fun o ho => ?_⟩, ⟨rfl, rfl, rfl, rfl, rfl⟩, rfl⟩
    rcases List.mem_append.mp ho with ho | ho
    · exact h.asynchronous o ho
    · obtain rfl := List.mem_singleton.mp ho
      simpa using hd

/-- Properties of an accumulator and its deeds that measurements keep, and that depend on the
series and the setup alone. -/
structure Kept (choose : Descriptor → Option Aggregator)
    (I : List Deed → Accumulator → Prop) : Prop where
  same : ∀ {ds a b}, I ds a → SameSetup a b → b.series = a.series → I ds b
  record : ∀ {ds a}, Sound choose a → I ds a → ∀ m, I (ds ++ [.recorded m]) (a.record m)
  observe : ∀ {ds a registered}, Sound choose a →
    (∀ d ∈ registered, d.kind.isSynchronous = false) → I ds a →
    ∀ d n labels, I (ds ++ [.observed registered d n labels]) (a.observe registered d n labels)

variable {I : List Deed → Accumulator → Prop} {ds : List Deed} {a : Accumulator}

theorem Kept.perform (hI : Kept choose I) (cx : Context) {registered : List Descriptor}
    (hr : ∀ d ∈ registered, d.kind.isSynchronous = false) (actions : List CallbackAction)
    (h : Sound choose a) (hi : I ds a) :
    Sound choose (perform cx registered actions a).1 ∧
      I (ds ++ performed registered actions) (perform cx registered actions a).1 := by
  induction actions generalizing a ds with
  | nil => exact ⟨h, by simpa [performed, Accumulator.perform] using hi⟩
  | cons action rest ih =>
    cases action with
    | observe d n labels =>
      simpa [performed, Accumulator.perform] using
        ih (h.measured (measured_observe h.selector ..)) (hI.observe h hr hi d n labels)
    | record m =>
      simpa [performed, Accumulator.perform] using
        ih (h.measured (measured_record h.selector m)) (hI.record h hi m)
    | register descriptors calls =>
      obtain ⟨hs, hsame, hseries⟩ := h.register descriptors calls
      exact ih ⟨hs.selector, hs.distinct, hs.asynchronous⟩ (hI.same hi
        (hsame.trans ⟨rfl, rfl, rfl, rfl, rfl⟩) hseries)
    | cancel =>
      have hc : ∃ flags, a.cancel cx = { a with flags } := by
        rw [cancel]
        cases cx.flag with
        | none => exact ⟨a.flags, rfl⟩
        | some flag => exact ⟨_, rfl⟩
      obtain ⟨flags, hc⟩ := hc
      rw [Accumulator.perform, performed, hc]
      exact ih ⟨h.selector, h.distinct, h.asynchronous⟩
        (hI.same hi ⟨rfl, rfl, rfl, rfl, rfl⟩ rfl)
    | note text =>
      exact ih ⟨h.selector, h.distinct, h.asynchronous⟩
        (hI.same hi ⟨rfl, rfl, rfl, rfl, rfl⟩ rfl)
    | fail error => exact ⟨h, by simpa [performed, Accumulator.perform] using hi⟩
    | panic cause => exact ⟨h, by simpa [performed, Accumulator.perform] using hi⟩

theorem Kept.callObserver (hI : Kept choose I) (cx : Context) (i : Nat) (h : Sound choose a)
    (hi : I ds a) :
    Sound choose (callObserver cx i a).1 ∧ I (ds ++ called i a) (callObserver cx i a).1 := by
  rw [Accumulator.callObserver, called]
  cases ho : a.observers[i]? with
  | none => exact ⟨h, by simpa using hi⟩
  | some o =>
    have hmem : o ∈ a.observers := List.mem_of_getElem? ho
    have hcalled : Sound choose
        { a with observers := a.observers.set i { o with called := o.called + 1 } } := by
      refine ⟨h.selector, h.distinct, fun o' ho' => ?_⟩
      rcases List.mem_or_eq_of_mem_set ho' with ho' | rfl
      · exact h.asynchronous o' ho'
      · exact h.asynchronous o hmem
    obtain ⟨hs, hp⟩ := hI.perform cx (h.asynchronous o hmem) o.nextActions hcalled
      (hI.same hi ⟨rfl, rfl, rfl, rfl, rfl⟩ rfl)
    simp only
    split
    next hperf =>
      rw [hperf] at hs hp
      exact ⟨hs, hp⟩
    next hperf =>
      rw [hperf] at hs hp
      exact ⟨⟨hs.selector, hs.distinct, hs.asynchronous⟩,
        hI.same hp ⟨rfl, rfl, rfl, rfl, rfl⟩ rfl⟩

theorem Kept.callObservers (hI : Kept choose I) (cx : Context) (is : List Nat)
    (h : Sound choose a) (hi : I ds a) :
    Sound choose (callObservers cx is a).1 ∧
      I (ds ++ calledAll cx is a) (callObservers cx is a).1 := by
  induction is generalizing a ds with
  | nil => exact ⟨h, by simpa [calledAll, Accumulator.callObservers] using hi⟩
  | cons i is ih =>
    rw [Accumulator.callObservers, calledAll]
    split
    · exact ⟨h, by simpa using hi⟩
    · obtain ⟨hs, hc⟩ := hI.callObserver cx i h hi
      simpa using ih hs hc

theorem Kept.recordAll (hI : Kept choose I) (ms : List Measurement) (h : Sound choose a)
    (hi : I ds a) :
    Sound choose (ms.foldl Accumulator.record a) ∧
      I (ds ++ ms.map .recorded) (ms.foldl Accumulator.record a) := by
  induction ms generalizing a ds with
  | nil => exact ⟨h, by simpa using hi⟩
  | cons m ms ih =>
    simpa using ih (h.measured (measured_record h.selector m)) (hI.record h hi m)

/-! ## What a sweep hands over -/

def handedOver : Deed → Option Accumulation
  | .processed acc => some acc
  | _ => none

def handed (ds : List Deed) : List Accumulation := ds.filterMap handedOver

theorem handed_append (ds ds' : List Deed) : handed (ds ++ ds') = handed ds ++ handed ds' :=
  List.filterMap_append

theorem handed_recorded (ms : List Measurement) : handed (ms.map .recorded) = [] := by
  induction ms with
  | nil => rfl
  | cons m ms ih => exact ih

theorem handed_processed (accs : List Accumulation) : handed (accs.map .processed) = accs := by
  induction accs with
  | nil => rfl
  | cons acc accs ih => exact congrArg (acc :: ·) ih

theorem handed_performed (registered : List Descriptor) (actions : List CallbackAction) :
    handed (performed registered actions) = [] := by
  induction actions with
  | nil => rfl
  | cons action rest ih => cases action <;> first | exact ih | rfl

theorem handed_calledAll (cx : Context) (is : List Nat) (a : Accumulator) :
    handed (calledAll cx is a) = [] := by
  induction is generalizing a with
  | nil => rfl
  | cons i is ih =>
    rw [calledAll]
    split
    · rfl
    · rw [handed_append, ih, List.append_nil, called]
      cases a.observers[i]? with
      | none => rfl
      | some o => exact handed_performed _ _

section
variable {σ : Type}

/-- What becomes of a series that a sweep found pending: its measurements move to the checkpoint,
which is handed over, and then the processor's own are recorded. -/
theorem checkpointSeries_spec (step : ProcessorStep σ) (s : LiveSeries) (p : σ)
    (log : List Deed) (a : Accumulator) :
    let r := checkpointSeries (logged step) s (p, log) a
    match s.current.move s.checkpoint s.descriptor with
    | .error cause => r = (a.report cause, (p, log), .ok 0)
    | .ok (current, checkpoint) =>
      ∃ (events : List Event) (p' : σ) (records : List Measurement),
        r.1 = { records.foldl record (a.store { s with current, checkpoint }) with events } ∧
        r.2.1 = (p', log ++ .processed ⟨⟨s.descriptor, s.labels, a.resource⟩, checkpoint⟩ ::
          records.map .recorded) ∧
        (r.2.2 = .ok 1 ∨ ∃ cause, r.2.2 = .error cause) := by
  intro r
  have hr : r = checkpointSeries (logged step) s (p, log) a := rfl
  rw [checkpointSeries] at hr
  cases hm : s.current.move s.checkpoint s.descriptor with
  | error cause =>
    simp only [hm] at hr
    exact hr
  | ok moved =>
    obtain ⟨current, checkpoint⟩ := moved
    simp only [hm, logged] at hr
    split at hr
    · exact ⟨_, _, _, by rw [hr], by rw [hr]; rfl, .inl (by rw [hr])⟩
    · exact ⟨_, _, _, by rw [hr]; rfl, by rw [hr]; rfl, .inl (by rw [hr])⟩
    · exact ⟨_, _, _, by rw [hr], by rw [hr]; rfl, .inr ⟨_, by rw [hr]⟩⟩

theorem seek_getD_key (f : LiveSeries) (a : Accumulator) :
    ((a.find? f.descriptor f.labels).getD f).key = f.key := by
  rw [find?_eq_seek]
  cases hs : seek (f.descriptor, f.labels) a.series with
  | none => rfl
  | some s => exact seek_key hs

theorem map_add_eq_ok {r : Except Panic Nat} {m n : Nat}
    (h : r.map (m + ·) = .ok n) : ∃ n', r = .ok n' ∧ n = m + n' := by
  cases r with
  | error cause => cases h
  | ok n' => exact ⟨n', rfl, (Except.ok.inj h).symm⟩

theorem checkpointAll_handed (step : ProcessorStep σ) (found : List LiveSeries) (p : σ)
    (log : List Deed) (a : Accumulator) :
    ∃ accs, handed (checkpointAll (logged step) found (p, log) a).2.1.2 = handed log ++ accs ∧
      (accs.map fun acc => acc.series.key).Sublist (found.map (·.key)) ∧
      ∀ n, (checkpointAll (logged step) found (p, log) a).2.2 = .ok n → n = accs.length := by
  induction found generalizing p log a with
  | nil => exact ⟨[], by simp [checkpointAll], .slnil, by simp [checkpointAll]⟩
  | cons f found ih =>
    have hkey := seek_getD_key f a
    have hspec := checkpointSeries_spec step ((a.find? f.descriptor f.labels).getD f) p log a
    simp only [checkpointAll]
    generalize (a.find? f.descriptor f.labels).getD f = s at hkey hspec ⊢
    cases hm : s.current.move s.checkpoint s.descriptor with
    | error cause =>
      simp only [hm] at hspec
      rw [hspec]
      obtain ⟨accs, hh, hsub, hn⟩ := ih p log (markCollected f (a.report cause))
      refine ⟨accs, hh, hsub.cons _, fun n hx => ?_⟩
      obtain ⟨n', hr, rfl⟩ := map_add_eq_ok hx
      rw [Nat.zero_add, hn n' hr]
    | ok moved =>
      obtain ⟨current, checkpoint⟩ := moved
      simp only [hm] at hspec
      rcases hcall : checkpointSeries (logged step) s (p, log) a with ⟨a', ⟨p', log'⟩, res⟩
      obtain ⟨events, q, records, -, hlog, hres⟩ := hspec
      rw [hcall] at hlog hres
      obtain ⟨rfl, rfl⟩ := Prod.mk.inj hlog
      generalize hacc : (⟨⟨s.descriptor, s.labels, a.resource⟩, checkpoint⟩ : Accumulation) = acc
      have hk : acc.series.key = f.key := by rw [← hacc, ← hkey]; rfl
      have hhanded : handed (log ++ .processed acc :: records.map .recorded) =
          handed log ++ [acc] := by
        rw [handed_append]
        exact congrArg (fun l => handed log ++ acc :: l) (handed_recorded records)
      rcases res with cause | n
      · exact ⟨[acc], hhanded, by simp [hk], by simp⟩
      · obtain rfl : n = 1 := by simpa using hres
        obtain ⟨accs, hh, hsub, hn⟩ := ih p'
          (log ++ .processed acc :: records.map .recorded) (markCollected f a')
        refine ⟨acc :: accs, ?_, ?_, fun n hx => ?_⟩
        · rw [hhanded, List.append_assoc] at hh
          exact hh
        · rw [List.map_cons, List.map_cons, hk]
          exact hsub.cons_cons _
        · obtain ⟨n', hr, rfl⟩ := map_add_eq_ok hx
          rw [List.length_cons, hn n' hr, Nat.add_comm]

/-! ## Sound accumulators stay sound -/

theorem kept_true : Kept choose fun _ _ => True := ⟨fun _ _ _ => trivial, fun _ _ _ => trivial,
  fun _ _ _ _ _ _ => trivial⟩

theorem Sound.recordAll (h : Sound choose a) (ms : List Measurement) :
    Sound choose (ms.foldl Accumulator.record a) :=
  (@Kept.recordAll _ _ [] _ kept_true ms h trivial).1

theorem Sound.checkpointSeries (h : Sound choose a) (step : ProcessorStep σ) (s : LiveSeries)
    (p : σ) : Sound choose (checkpointSeries step s p a).1 := by
  obtain ⟨new, hlog⟩ := checkpointSeries_logged step s p a
  have hspec := checkpointSeries_spec step s p [] a
  rw [hlog] at hspec
  cases hm : s.current.move s.checkpoint s.descriptor with
  | error cause =>
    simp only [hm] at hspec
    rw [show (Accumulator.checkpointSeries step s p a).1 = _ from congrArg (·.1) hspec]
    exact ⟨h.selector, h.distinct, h.asynchronous⟩
  | ok moved =>
    obtain ⟨current, checkpoint⟩ := moved
    simp only [hm] at hspec
    obtain ⟨events, p', records, hr, -, -⟩ := hspec
    have hstore := h.measured
      (measured_store a (k := s.key) (s := { s with current, checkpoint }) rfl)
    have hs := hstore.recordAll records
    rw [hr]
    exact ⟨hs.selector, hs.distinct, hs.asynchronous⟩

theorem Sound.markCollected (h : Sound choose a) (found : LiveSeries) :
    Sound choose (markCollected found a) := h.measured (measured_markCollected found a)

theorem Sound.checkpointAll (h : Sound choose a) (step : ProcessorStep σ)
    (found : List LiveSeries) (p : σ) : Sound choose (checkpointAll step found p a).1 := by
  induction found generalizing p a with
  | nil => exact h
  | cons f found ih =>
    have hs := h.checkpointSeries step ((a.find? f.descriptor f.labels).getD f) p
    rw [Accumulator.checkpointAll]
    rcases hr : Accumulator.checkpointSeries step ((a.find? f.descriptor f.labels).getD f) p a with
      ⟨a', p', cause | n⟩
    · simpa only [hr] using hs
    · rw [hr] at hs
      simpa only [hr] using ih (hs.markCollected f) p'

theorem Sound.sweep (h : Sound choose a) (step : ProcessorStep σ) (p : σ) :
    Sound choose (sweep step p a).1 := by
  have haged : Sound choose a.ageIdle :=
    ⟨h.selector, distinct_map aged_key h.distinct, h.asynchronous⟩
  have hs := haged.checkpointAll step (a.series.filter (·.isPending)) p
  rw [Accumulator.sweep]
  rcases hr : Accumulator.checkpointAll step (a.series.filter (·.isPending)) p a.ageIdle with
    ⟨a', p', cause | n⟩
  · simpa only [hr] using hs
  · rw [hr] at hs
    obtain ⟨events, he⟩ := evictIdle_eq a'
    simp only [he]
    exact ⟨hs.selector, distinct_filter hs.distinct _, hs.asynchronous⟩

theorem Sound.callObservers (h : Sound choose a) (cx : Context) (is : List Nat) :
    Sound choose (callObservers cx is a).1 :=
  (@Kept.callObservers _ _ [] _ kept_true cx is h trivial).1

theorem Sound.collect (h : Sound choose a) (cx : Context) (step : ProcessorStep σ) (p : σ) :
    Sound choose (collect cx step p a).1 := by
  have hcalled := h.callObservers cx (List.range a.observers.length)
  have hswept := hcalled.sweep step p
  rcases collect_cases cx step p a with ⟨hc, -⟩ | ⟨hc, -⟩ | ⟨-, -, -, hc⟩
  · rwa [hc]
  · rwa [hc]
  · rcases hc with ⟨n, errors, -, -, hc⟩ | ⟨cause, -, hc⟩ <;>
    · rw [hc]
      exact ⟨hswept.selector, hswept.distinct, hswept.asynchronous⟩

theorem Sound.serve (h : Sound choose a) (request : Request σ) :
    Sound choose (serve request a) := by
  cases request with
  | record m => exact h.measured (measured_record h.selector m)
  | register descriptors calls => exact (h.register descriptors calls).1
  | await now flags => exact ⟨h.selector, h.distinct, h.asynchronous⟩
  | collect cx step p => exact h.collect cx step p

theorem Sound.serveAll (h : Sound choose a) (requests : List (Request σ)) :
    Sound choose (serveAll requests a) := by
  induction requests generalizing a with
  | nil => exact h
  | cons request requests ih => exact ih (h.serve request)

/-- A collection hands over each series at most once, and counts what it hands over. -/
theorem Sound.collected_handed (h : Sound choose a) (cx : Context) (step : ProcessorStep σ)
    (p : σ) :
    ((handed (collected cx step p a)).map fun acc => acc.series.key).Nodup ∧
    ∀ n, ((Accumulator.collect cx step p a).2.2 = .ok n ∨
      ∃ errors, (Accumulator.collect cx step p a).2.2 =
        .error (.error (.partialCollection n errors))) →
      n = (handed (collected cx step p a)).length := by
  rcases collect_cases cx step p a with ⟨hc, hds⟩ | ⟨hc, hds⟩ | ⟨new, hds, hlog, hc⟩
  · rw [hc, hds]
    exact ⟨List.nodup_nil, by simp [MetricsError.poisoned]⟩
  · rw [hc, hds, handed_calledAll]
    exact ⟨List.nodup_nil, by simp⟩
  · have hcalled := h.callObservers cx (List.range a.observers.length)
    generalize (Accumulator.callObservers cx (List.range a.observers.length) a).1 = b
      at hcalled hlog hc
    obtain ⟨accs, hh, hsub, hn⟩ := checkpointAll_handed step (b.series.filter (·.isPending)) p []
      b.ageIdle
    have hnew : handed new = accs ∧
        ∀ n, (Accumulator.sweep step p b).2.2 = .ok n → n = accs.length := by
      have hl := hlog []
      rw [Accumulator.sweep] at hl
      rcases hr : Accumulator.checkpointAll (logged step) (b.series.filter (·.isPending)) (p, [])
        b.ageIdle with ⟨b', p', cause | n⟩
      all_goals
        rw [hr] at hh hn
        simp only [hr, List.nil_append] at hl hh
      · rw [Prod.mk.injEq, Prod.mk.injEq] at hl
        refine ⟨?_, fun n hx => ?_⟩
        · rw [hl.2.1] at hh
          exact hh
        · rw [hx] at hl
          cases hl.2.2
      · rw [Prod.mk.injEq, Prod.mk.injEq] at hl
        refine ⟨?_, fun m hx => ?_⟩
        · rw [hl.2.1] at hh
          exact hh
        · rw [hx] at hl
          obtain rfl := Except.ok.inj hl.2.2
          exact hn _ rfl
    rw [hds, handed_append, handed_calledAll, List.nil_append, hnew.1]
    refine ⟨(distinct_filter hcalled.distinct _).sublist hsub, fun n hx => hnew.2 n ?_⟩
    rcases hc with ⟨m, errors, hs, -, hc⟩ | ⟨cause, -, hc⟩
    · rw [hc] at hx
      simp only at hx
      split at hx <;> simp_all
    · rw [hc] at hx
      simp at hx

end
end
end Metering.Accumulator
