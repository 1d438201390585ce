import Metering.Proofs.Accumulator.Rejected

/-!
# Runs without rejected measurements

A run is compared with that of the sifted program, which makes the same calls but for the rejected
measurements. All that the rejected measurements do is to be counted and reported, once each.
-/

namespace Metering

/-- Two pasts that are the same, except that some measurements were dropped in the first one. Each
of these was logged and reported to the error handler, once and with the same reason. -/
inductive DropsRemoved : List MetricsError → List Event → List Event → Prop where
  | nil : DropsRemoved [] [] []
  | drop {reasons : List MetricsError} {events events' : List Event}
    (h : DropsRemoved reasons events events') (reason : MetricsError) :
    DropsRemoved (reasons ++ [reason])
      (events ++ [.logged (.measurementDropped reason), .reported (.metric reason)]) events'
  | other {reasons : List MetricsError} {events events' : List Event}
    (h : DropsRemoved reasons events events') {e : Event} (he : e.isDrop = false) :
    DropsRemoved reasons (events ++ [e]) (events' ++ [e])

theorem DropsRemoved.append {reasons : List MetricsError} {events events' new : List Event}
    (h : DropsRemoved reasons events events') (hnew : ∀ e ∈ new, e.isDrop = false) :
    DropsRemoved reasons (events ++ new) (events' ++ new) := by
  induction new generalizing events events' with
  | nil => simpa using h
  | cons e new ih =>
    obtain ⟨he, hnew⟩ := List.forall_mem_cons.mp hnew
    simpa using ih (h.other he) hnew

namespace Accumulator

/-- An accumulator to which some deeds were done, and one to which the same was done without the
rejected measurements. -/
structure Sifting (ds : List Deed) (a b : Accumulator) : Prop where
  same : b = a.outfitted (a.observers.map Observer.sifted) 0 b.events
  dropped : a.dropped = (ds.filterMap (·.rejection?)).length
  events : DropsRemoved (ds.filterMap (·.rejection?)) a.events b.events

variable {ds : List Deed} {a b : Accumulator}

theorem sifting_new (selector : Selector) (resource : Resource) (idleCycles : Nat) (now : Time) :
    Sifting [] (new selector resource idleCycles now) (new selector resource idleCycles now) :=
  ⟨rfl, rfl, .nil⟩

theorem Sifting.exists_events (h : Sifting ds a b) :
    ∃ events, b = a.outfitted (a.observers.map Observer.sifted) 0 events ∧
      DropsRemoved (ds.filterMap (·.rejection?)) a.events events := ⟨b.events, h.same, h.events⟩

theorem Sifting.agree {α : Type} (h : Sifting ds a b) {f : Accumulator → α}
    (hf : ∀ c observers dropped events, f (c.outfitted observers dropped events) = f c) :
    f b = f a := by rw [h.same, hf]

theorem Sifting.isCancelled (h : Sifting ds a b) (cx : Context) :
    b.isCancelled cx = a.isCancelled cx := h.agree (f := (·.isCancelled cx)) fun _ _ _ _ => rfl

theorem Sifting.isPoisoned (h : Sifting ds a b) : b.isPoisoned = a.isPoisoned :=
  h.agree fun _ _ _ _ => rfl

theorem Sifting.blind (h : Sifting ds a b) {f : Accumulator → Accumulator}
    (hf : ∀ c observers dropped events,
      f (c.outfitted observers dropped events) = (f c).outfitted observers dropped events) :
    Sifting ds (f a) (f b) := by
  obtain ⟨events, rfl, hevents⟩ := h.exists_events
  -- the first accumulator is itself one with its own callbacks and its own past
  have ha : f a = (f a).outfitted a.observers a.dropped a.events := hf a _ _ _
  rw [hf, ha]
  exact ⟨rfl, h.dropped, hevents⟩

theorem Sifting.emit (h : Sifting ds a b) {e : Event} (he : e.isDrop = false) :
    Sifting ds (a.emit e) (b.emit e) := by
  obtain ⟨events, rfl, hevents⟩ := h.exists_events
  exact ⟨rfl, h.dropped, hevents.other he⟩

/-! ## Measurements -/

/-- A rejected measurement is counted and reported, and it is as if it had not been made. -/
theorem Sifting.reject (h : Sifting ds a b) {deed : Deed} {reason : MetricsError}
    (hdeed : deed.rejection? = some reason) : Sifting (ds ++ [deed]) (a.drop reason) b := by
  obtain ⟨events, rfl, hevents⟩ := h.exists_events
  have hreasons : (ds ++ [deed]).filterMap (·.rejection?) =
      ds.filterMap (·.rejection?) ++ [reason] := by simp [hdeed]
  rw [drop_eq]
  refine ⟨rfl, ?_, ?_⟩
  · rw [hreasons, List.length_append, ← h.dropped]
    rfl
  · rw [hreasons]
    exact hevents.drop reason

theorem Sifting.take (h : Sifting ds a b) {deed : Deed} (hdeed : deed.isAccepted = true)
    {d : Descriptor} {n : Number} (hn : d.rangeTest n = .ok ()) (labels : LabelSet)
    (isObserved : Bool) :
    Sifting (ds ++ [deed]) (a.update d n labels isObserved) (b.update d n labels isObserved) := by
  obtain ⟨events, rfl, hevents⟩ := h.exists_events
  have hreasons : (ds ++ [deed]).filterMap (·.rejection?) = ds.filterMap (·.rejection?) := by
    simp [Option.isNone_iff_eq_none.mp hdeed]
  obtain ⟨new, hnew, hupdate⟩ := update_outfitted a hn labels isObserved
  have ha : a.update d n labels isObserved = _ := hupdate a.observers a.dropped a.events
  rw [hupdate, ha]
  refine ⟨rfl, ?_, ?_⟩
  · rw [hreasons]
    exact h.dropped
  · rw [hreasons]
    exact hevents.append hnew

theorem Sifting.measure (h : Sifting ds a b) {deed : Deed} {d : Descriptor} {n : Number}
    (hd : d.faults n <:+ deed.faults) (labels : LabelSet) (isObserved : Bool) :
    let made (c : Accumulator) := deed.rejection?.elim (c.update d n labels isObserved) c.drop
    Sifting (ds ++ [deed]) (made a) (if deed.isAccepted then made b else b) := by
  intro made
  cases hdeed : deed.rejection? with
  | some reason =>
    have hmade : made a = a.drop reason := by simp only [made, hdeed, Option.elim_some]
    rw [hmade, if_neg (by simp [Deed.isAccepted, hdeed])]
    exact h.reject hdeed
  | none =>
    have haccepted : deed.isAccepted = true := by simp [Deed.isAccepted, hdeed]
    have hmade (c : Accumulator) : made c = c.update d n labels isObserved := by
      simp only [made, hdeed, Option.elim_none]
    rw [if_pos haccepted, hmade, hmade]
    exact h.take haccepted (rangeTest_of_isAccepted haccepted hd) labels isObserved

theorem Sifting.record (h : Sifting ds a b) (m : Measurement) :
    Sifting (ds ++ [.recorded m]) (a.record m) (if m.isAccepted then b.record m else b) := by
  rw [← Deed.isAccepted_recorded, record_eq_elim, record_eq_elim]
  exact h.measure (List.suffix_append _ _) m.labels false

theorem Sifting.observe (h : Sifting ds a b) (registered : List Descriptor) (d : Descriptor)
    (n : Number) (labels : LabelSet) :
    let deed : Deed := .observed registered d n labels
    Sifting (ds ++ [deed]) (a.observe registered d n labels)
      (if deed.isAccepted then b.observe registered d n labels else b) := by
  intro deed
  rw [observe_eq_elim, observe_eq_elim]
  exact h.measure (List.suffix_append _ _) labels true

theorem Sifting.recordAll (h : Sifting ds a b) (ms : List Measurement) :
    Sifting (ds ++ ms.map .recorded) (ms.foldl Accumulator.record a)
      ((ms.filter (·.isAccepted)).foldl Accumulator.record b) := by
  induction ms generalizing ds a b with
  | nil => simpa using h
  | cons m ms ih =>
    have hrest := ih (h.record m)
    rw [List.append_assoc, List.singleton_append] at hrest
    rw [List.filter_cons, List.map_cons, List.foldl_cons]
    split at hrest
    next hm => rwa [if_pos hm, List.foldl_cons]
    next hm => rwa [if_neg hm]

/-! ## Callbacks -/

theorem Sifting.register (h : Sifting ds a b) (descriptors : List Descriptor)
    (calls : List (List CallbackAction)) :
    let calls' := CallbackAction.siftedCalls descriptors calls
    (b.register descriptors calls').2 = (a.register descriptors calls).2 ∧
      Sifting ds (a.register descriptors calls).1 (b.register descriptors calls').1 := by
  intro calls'
  obtain ⟨events, rfl, hevents⟩ := h.exists_events
  rw [Accumulator.register, Accumulator.register]
  cases descriptors.find? (·.kind.isSynchronous) with
  | some d => exact ⟨rfl, h⟩
  | none =>
    refine ⟨rfl, ?_, h.dropped, hevents⟩
    simp only [outfitted, List.map_append, List.map_cons, List.map_nil]
    rfl

theorem Sifting.cancel (h : Sifting ds a b) (cx : Context) :
    Sifting ds (a.cancel cx) (b.cancel cx) := by
  refine h.blind (f := (·.cancel cx)) fun c observers dropped events => ?_
  simp only [Accumulator.cancel]
  cases cx.flag <;> rfl

theorem Sifting.perform (cx : Context) (registered : List Descriptor)
    (actions : List CallbackAction) (h : Sifting ds a b) :
    let actions' := CallbackAction.siftedCall registered actions
    (perform cx registered actions' b).2 = (perform cx registered actions a).2 ∧
      Sifting (ds ++ performed registered actions) (perform cx registered actions a).1
        (perform cx registered actions' b).1 := by
  induction actions generalizing ds a b with
  | nil => exact ⟨rfl, by rwa [performed, List.append_nil]⟩
  | cons action rest ih =>
    rw [CallbackAction.siftedCall]
    cases action with
    | observe d n labels =>
      have hrest := ih (h.observe registered d n labels)
      rw [List.append_assoc, List.singleton_append] at hrest
      rw [CallbackAction.sifted]
      split at hrest
      next hd => rwa [if_pos hd]
      next hd => rwa [if_neg hd]
    | record m =>
      have hrest := ih (h.record m)
      rw [List.append_assoc, List.singleton_append] at hrest
      rw [CallbackAction.sifted]
      split at hrest
      next hm => rwa [if_pos hm]
      next hm => rwa [if_neg hm]
    | register descriptors calls =>
      obtain ⟨hresult, hregister⟩ := h.register descriptors calls
      rw [CallbackAction.sifted, List.singleton_append]
      simp only [Accumulator.perform, hresult]
      exact ih (hregister.emit rfl)
    | cancel => exact ih (h.cancel cx)
    | note text => exact ih (h.emit rfl)
    | fail error => exact ⟨rfl, by rwa [performed, List.append_nil]⟩
    | panic cause => exact ⟨rfl, by rwa [performed, List.append_nil]⟩

theorem Sifting.callObserver (cx : Context) (i : Nat) (h : Sifting ds a b) :
    (callObserver cx i b).2 = (callObserver cx i a).2 ∧
      called i b = (called i a).filter (·.isAccepted) ∧
      Sifting (ds ++ called i a) (callObserver cx i a).1 (callObserver cx i b).1 := by
  have hobservers : b.observers[i]? = a.observers[i]?.map Observer.sifted := by
    rw [h.same, outfitted, List.getElem?_map]
  simp only [Accumulator.callObserver, called, hobservers]
  cases a.observers[i]? with
  | none => exact ⟨rfl, rfl, by rwa [Option.elim_none, List.append_nil]⟩
  | some o =>
    have hstepped : Sifting ds
        { a with observers := a.observers.set i { o with called := o.called + 1 } }
        { b with
          observers := b.observers.set i { o.sifted with called := o.sifted.called + 1 } } := by
      obtain ⟨events, rfl, hevents⟩ := h.exists_events
      refine ⟨?_, h.dropped, hevents⟩
      simp only [outfitted, List.map_set]
      rfl
    obtain ⟨hresult, hperformed⟩ := hstepped.perform cx o.descriptors o.nextActions
    have hcalled := performed_siftedCall o.descriptors o.nextActions
    have hdescriptors : o.sifted.descriptors = o.descriptors := rfl
    rw [← Observer.nextActions_sifted] at hresult hperformed hcalled
    simp only [Option.map_some, Option.elim_some, hdescriptors] at hresult hperformed ⊢
    generalize Accumulator.perform cx o.descriptors o.nextActions _ = x at hresult hperformed ⊢
    generalize Accumulator.perform cx o.descriptors o.sifted.nextActions _ = y
      at hresult hperformed ⊢
    obtain ⟨a', result⟩ := x
    obtain ⟨b', result'⟩ := y
    obtain rfl : result' = result := hresult
    cases result' with
    | ok _ => exact ⟨rfl, hcalled, hperformed⟩
    | error halt => exact ⟨rfl, hcalled, hperformed.emit rfl⟩

theorem Sifting.callObservers (cx : Context) (is : List Nat) (h : Sifting ds a b) :
    (callObservers cx is b).2 = (callObservers cx is a).2 ∧
      calledAll cx is b = (calledAll cx is a).filter (·.isAccepted) ∧
      Sifting (ds ++ calledAll cx is a) (callObservers cx is a).1 (callObservers cx is b).1 := by
  induction is generalizing ds a b with
  | nil => exact ⟨rfl, rfl, by rwa [calledAll, List.append_nil]⟩
  | cons i is ih =>
    obtain ⟨herror, hcalled, hnext⟩ := h.callObserver cx i
    obtain ⟨hresult, hdeeds, hrest⟩ := ih hnext
    rw [Accumulator.callObservers, Accumulator.callObservers, calledAll, calledAll, h.isCancelled]
    by_cases hcancelled : a.isCancelled cx = true
    · rw [if_pos hcancelled, if_pos hcancelled, if_pos hcancelled, if_pos hcancelled,
        List.append_nil]
      exact ⟨rfl, rfl, h⟩
    · rw [if_neg hcancelled, if_neg hcancelled, if_neg hcancelled, if_neg hcancelled]
      refine ⟨?_, ?_, ?_⟩
      · dsimp only
        rw [hresult, herror]
      · rw [List.filter_append, hcalled, hdeeds]
      · rwa [List.append_assoc] at hrest

/-! ## Sweeps -/

theorem Sifting.process (h : Sifting ds a b) (acc : Accumulation) :
    Sifting (ds ++ [.processed acc]) a b := by
  have hreasons : (ds ++ [Deed.processed acc]).filterMap (·.rejection?) =
      ds.filterMap (·.rejection?) := by
    rw [List.filterMap_append]
    exact List.append_nil _
  exact ⟨h.same, hreasons ▸ h.dropped, hreasons ▸ h.events⟩

theorem filter_processed (log : List Deed) (acc : Accumulation) (ms : List Measurement) :
    (log ++ Deed.processed acc :: ms.map Deed.recorded).filter (·.isAccepted) =
      log.filter (·.isAccepted) ++
        Deed.processed acc :: (ms.filter (·.isAccepted)).map Deed.recorded := by
  rw [List.filter_append, List.filter_cons_of_pos (Deed.isAccepted_processed acc),
    List.filter_map]
  simp only [Function.comp_def, Deed.isAccepted_recorded]

section
variable {σ : Type} (step : ProcessorStep σ)

/-- How parts of two sweeps end that differ by rejected measurements. -/
structure SiftedSweep (ds : List Deed) (r r' : Accumulator × (σ × List Deed) × Except Panic Nat) :
    Prop where
  state : r'.2.1 = (r.2.1.1, r.2.1.2.filter (·.isAccepted))
  result : r'.2.2 = r.2.2
  sifting : Sifting (ds ++ r.2.1.2) r.1 r'.1

theorem Sifting.checkpointSeries (s : LiveSeries) (p : σ) (log : List Deed)
    (h : Sifting (ds ++ log) a b) :
    SiftedSweep ds (checkpointSeries (logged step) s (p, log) a)
      (checkpointSeries (logged step.sifted) s (p, log.filter (·.isAccepted)) b) := by
  simp only [Accumulator.checkpointSeries]
  cases s.current.move s.checkpoint s.descriptor with
  | error cause => exact ⟨rfl, rfl, h.emit rfl⟩
  | ok moved =>
    -- the same is moved, stored and handed over; the processor then records less for the second
    have hresource : b.resource = a.resource := h.agree fun _ _ _ _ => rfl
    have hstore (c : Accumulator) (t : LiveSeries) : (c.store t).resource = c.resource := rfl
    simp only [logged, ProcessorStep.sifted, hstore, hresource]
    generalize ({ s with current := moved.1, checkpoint := moved.2 } : LiveSeries) = t
    generalize (⟨⟨s.descriptor, s.labels, a.resource⟩, moved.2⟩ : Accumulation) = acc
    have hstored : Sifting (ds ++ log) (a.store t) (b.store t) :=
      h.blind (f := (·.store t)) fun _ _ _ _ => rfl
    have hrecorded := (hstored.process acc).recordAll (step p acc).2.records
    rw [List.append_assoc, List.append_assoc, List.singleton_append] at hrecorded
    rw [← filter_processed]
    rcases (step p acc).2.outcome with (cause | cause) | _
    · exact ⟨rfl, rfl, hrecorded.emit rfl⟩
    · exact ⟨rfl, rfl, hrecorded⟩
    · exact ⟨rfl, rfl, hrecorded⟩

theorem Sifting.checkpointAll (found : List LiveSeries) (p : σ) (log : List Deed)
    (h : Sifting (ds ++ log) a b) :
    SiftedSweep ds (checkpointAll (logged step) found (p, log) a)
      (checkpointAll (logged step.sifted) found (p, log.filter (·.isAccepted)) b) := by
  induction found generalizing p log a b with
  | nil => exact ⟨rfl, rfl, h⟩
  | cons f found ih =>
    have hfind : b.find? f.descriptor f.labels = a.find? f.descriptor f.labels :=
      h.agree (f := (·.find? f.descriptor f.labels)) fun _ _ _ _ => rfl
    have hone := h.checkpointSeries step ((a.find? f.descriptor f.labels).getD f) p log
    rw [Accumulator.checkpointAll, Accumulator.checkpointAll, hfind]
    dsimp only
    -- only how the series ends matters from here on, not the series
    generalize Accumulator.checkpointSeries (logged step) _ _ _ = r at hone ⊢
    generalize Accumulator.checkpointSeries (logged step.sifted) _ _ _ = r' at hone ⊢
    obtain ⟨a', ⟨p', log'⟩, result⟩ := r
    obtain ⟨b', state', result'⟩ := r'
    obtain ⟨hstate, hresult, hsifting⟩ := hone
    obtain rfl : state' = (p', log'.filter (·.isAccepted)) := hstate
    obtain rfl : result' = result := hresult
    cases result' with
    | error cause => exact ⟨rfl, rfl, hsifting⟩
    | ok n =>
      have hrest := ih p' log' (hsifting.blind (f := markCollected f) fun _ _ _ _ => rfl)
      exact ⟨hrest.state, congrArg (Except.map (n + ·)) hrest.result, hrest.sifting⟩

theorem Sifting.evictIdle (h : Sifting ds a b) : Sifting ds a.evictIdle b.evictIdle := by
  have hlog (evicted : List LiveSeries) : ∀ {a b}, Sifting ds a b →
      Sifting ds (evicted.foldl (fun a s => a.log (.seriesEvicted s.descriptor.name)) a)
        (evicted.foldl (fun a s => a.log (.seriesEvicted s.descriptor.name)) b) := by
    induction evicted with
    | nil => exact id
    | cons s evicted ih => exact fun h => ih (h.emit rfl)
  have hevicted : b.series.filter b.isEvictable = a.series.filter a.isEvictable :=
    h.agree (f := fun c => c.series.filter c.isEvictable) fun _ _ _ _ => rfl
  rw [Accumulator.evictIdle, Accumulator.evictIdle, hevicted]
  exact hlog _ (h.blind
    (f := fun c => { c with series := c.series.filter fun s => !c.isEvictable s })
    fun _ _ _ _ => rfl)

theorem Sifting.sweep (p : σ) (h : Sifting ds a b) :
    SiftedSweep ds (sweep (logged step) (p, []) a) (sweep (logged step.sifted) (p, []) b) := by
  have hpending : b.series.filter (·.isPending) = a.series.filter (·.isPending) :=
    h.agree (f := (·.series.filter (·.isPending))) fun _ _ _ _ => rfl
  have haged : Sifting (ds ++ []) a.ageIdle b.ageIdle := by
    rw [List.append_nil]
    exact h.blind fun _ _ _ _ => rfl
  have hall : SiftedSweep ds _
      (Accumulator.checkpointAll (logged step.sifted) (a.series.filter (·.isPending)) (p, [])
        b.ageIdle) := haged.checkpointAll step _ p
  rw [Accumulator.sweep, Accumulator.sweep, hpending]
  generalize Accumulator.checkpointAll (logged step) _ _ _ = r at hall ⊢
  generalize Accumulator.checkpointAll (logged step.sifted) _ _ _ = r' at hall ⊢
  obtain ⟨a', state, result⟩ := r
  obtain ⟨b', state', result'⟩ := r'
  obtain ⟨hstate, hresult, hsifting⟩ := hall
  obtain rfl : result' = result := hresult
  cases result' with
  | error cause => exact ⟨hstate, rfl, hsifting⟩
  | ok n => exact ⟨hstate, rfl, hsifting.evictIdle⟩

/-! ## Collections -/

theorem Sifting.afterCallbacks (cx : Context) (h : Sifting ds a b) :
    (Accumulator.callObservers cx (List.range b.observers.length) b).2 =
        (Accumulator.callObservers cx (List.range a.observers.length) a).2 ∧
      calledAll cx (List.range b.observers.length) b =
        (calledAll cx (List.range a.observers.length) a).filter (·.isAccepted) ∧
      Sifting (ds ++ calledAll cx (List.range a.observers.length) a) (a.afterCallbacks cx)
        (b.afterCallbacks cx) := by
  have hlength : b.observers.length = a.observers.length := by
    rw [h.same]
    exact List.length_map _
  rw [Accumulator.afterCallbacks, Accumulator.afterCallbacks, hlength]
  exact h.callObservers cx _

theorem Sifting.proceeds {cx : Context} {errors : List MetricsError} (h : Sifting ds a b) :
    Proceeds cx b errors ↔ Proceeds cx a errors := by
  obtain ⟨hcalled, -, hafter⟩ := h.afterCallbacks cx
  constructor
  · intro hp
    exact ⟨h.isPoisoned ▸ hp.intact, hcalled ▸ hp.called, hafter.isCancelled cx ▸ hp.goesOn⟩
  · intro hp
    exact ⟨h.isPoisoned.trans hp.intact, hcalled.trans hp.called,
      (hafter.isCancelled cx).trans hp.goesOn⟩

/-- A collection ends in the same way and hands over the same without the rejected measurements. -/
theorem Sifting.collect (p : σ) (cx : Context) (h : Sifting ds a b) :
    (collect cx step.sifted p b).2 = (collect cx step p a).2 ∧
      collected cx step.sifted p b = (collected cx step p a).filter (·.isAccepted) ∧
      Sifting (ds ++ collected cx step p a) (collect cx step p a).1
        (collect cx step.sifted p b).1 := by
  obtain ⟨-, hdeeds, hafter⟩ := h.afterCallbacks cx
  cases ha : a.isPoisoned with
  | true =>
    have hb : b.isPoisoned = true := h.isPoisoned.trans ha
    rw [Accumulator.collect, Accumulator.collect, collected, collected, if_pos ha, if_pos hb,
      if_pos ha, if_pos hb, List.append_nil]
    exact ⟨rfl, rfl, h⟩
  | false =>
    have hb : b.isPoisoned = false := h.isPoisoned.trans ha
    by_cases hgo : ∃ errors, Proceeds cx a errors
    · obtain ⟨errors, hp⟩ := hgo
      have hp' := h.proceeds.mpr hp
      -- both sweeps write down what is done, to compare it
      obtain ⟨new, hnew⟩ := sweep_logged step p (a.afterCallbacks cx)
      obtain ⟨new', hnew'⟩ := sweep_logged step.sifted p (b.afterCallbacks cx)
      obtain ⟨hstate, hresult, hsifting⟩ := hafter.sweep step p
      rw [hnew, hnew'] at hstate hresult hsifting
      obtain ⟨hq, hlog⟩ := Prod.mk.inj hstate
      have hcollected : collected cx step.sifted p b =
          (collected cx step p a).filter (·.isAccepted) := by
        rw [hp.collected_eq, hp'.collected_eq, hnew, hnew', List.filter_append, hdeeds]
        exact congrArg _ hlog
      rw [List.append_assoc] at hsifting
      cases hs : (Accumulator.sweep step p (a.afterCallbacks cx)).2.2 with
      | ok n =>
        rw [hp.collect_of_ok hs, hp'.collect_of_ok (hresult.trans hs), hcollected,
          hp.collected_eq, hnew]
        exact ⟨by rw [hq], rfl, hsifting.blind (f := fun c => { c with epoch := c.epoch + 1 })
          fun _ _ _ _ => rfl⟩
      | error cause =>
        rw [hp.collect_of_panic hs, hp'.collect_of_panic (hresult.trans hs), hcollected,
          hp.collected_eq, hnew]
        exact ⟨by rw [hq], rfl, hsifting.blind (f := fun c => { c with isPoisoned := true })
          fun _ _ _ _ => rfl⟩
    · have hgo' : ∀ errors, ¬Proceeds cx b errors := fun errors hp =>
        hgo ⟨errors, h.proceeds.mp hp⟩
      have hgo := not_exists.mp hgo
      rw [collect_of_not_proceeds ha hgo, collect_of_not_proceeds hb hgo',
        collected_of_not_proceeds ha hgo, collected_of_not_proceeds hb hgo']
      exact ⟨rfl, hdeeds, hafter⟩

end

/-! ## Runs -/

section
variable {σ : Type}

theorem Sifting.serve (request : Request σ) (h : Sifting ds a b) :
    deedsAll request.sifted b = (deeds request a).filter (·.isAccepted) ∧
      Sifting (ds ++ deeds request a) (serve request a) (serveAll request.sifted b) := by
  cases request with
  | record m =>
    have hrecord := h.record m
    rw [Request.sifted]
    by_cases hm : m.isAccepted = true
    · rw [if_pos hm] at hrecord ⊢
      exact ⟨by simp [deedsAll, deeds, hm], hrecord⟩
    · rw [if_neg hm] at hrecord ⊢
      exact ⟨by simp [deedsAll, deeds, hm], hrecord⟩
  | register descriptors calls =>
    obtain ⟨-, hregister⟩ := h.register descriptors calls
    exact ⟨rfl, by rwa [deeds, List.append_nil]⟩
  | await now flags =>
    rw [deeds, List.append_nil]
    exact ⟨rfl, h.blind (f := fun c => { c with now, flags }) fun _ _ _ _ => rfl⟩
  | collect cx step p =>
    obtain ⟨-, hdeeds, hcollect⟩ := h.collect step p cx
    exact ⟨by rw [Request.sifted, deedsAll, deedsAll, List.append_nil]; exact hdeeds, hcollect⟩

theorem Sifting.serveAll (requests : List (Request σ)) (h : Sifting ds a b) :
    deedsAll (requests.flatMap Request.sifted) b =
        (deedsAll requests a).filter (·.isAccepted) ∧
      Sifting (ds ++ deedsAll requests a) (serveAll requests a)
        (serveAll (requests.flatMap Request.sifted) b) := by
  induction requests generalizing ds a b with
  | nil => exact ⟨rfl, by rwa [deedsAll, List.append_nil]⟩
  | cons request requests ih =>
    obtain ⟨hdeeds, hserve⟩ := h.serve request
    obtain ⟨hrest, hall⟩ := ih hserve
    rw [List.flatMap_cons, deedsAll_append, serveAll_append, deedsAll, List.filter_append, hdeeds,
      hrest]
    exact ⟨rfl, by rwa [List.append_assoc] at hall⟩

theorem handed_filter (ds : List Deed) : handed (ds.filter (·.isAccepted)) = handed ds := by
  rw [handed, handed, List.filterMap_filter]
  refine List.filterMap_congr fun deed _ => ?_
  cases deed with
  | processed acc => rfl
  | recorded m => exact ite_self none
  | observed registered d n labels => exact ite_self none

/-- A rejected measurement changes nothing but the count of those and what happened: one log entry
and one report, both with the first of its faults. Along a run these are all its traces: the
measurements counted are those rejected, and without them the run goes on in the same way. The
series are the same, whatever the selector chooses, and every collection ends in the same way and
hands over the same. -/
theorem rejected_only_counted (selector : Selector) (resource : Resource) (idleCycles : Nat)
    (now : Time) (requests : List (Request σ)) :
    let start := new selector resource idleCycles now
    let requests' := requests.flatMap Request.sifted
    let a := serveAll requests start
    let b := serveAll requests' start
    let reasons := (deedsAll requests start).filterMap (·.rejection?)
    (∀ (c : Accumulator) (m : Measurement),
      c.record m = (Deed.recorded m).rejection?.elim (c.update m.descriptor m.number m.labels false)
        fun reason => { c with
          dropped := c.dropped + 1,
          events := c.events ++
            [.logged (.measurementDropped reason), .reported (.metric reason)] }) ∧
    (∀ (c : Accumulator) (registered : List Descriptor) (d : Descriptor) (n : Number)
      (labels : LabelSet),
      c.observe registered d n labels =
        (Deed.observed registered d n labels).rejection?.elim (c.update d n labels true)
          fun reason => { c with
            dropped := c.dropped + 1,
            events := c.events ++
              [.logged (.measurementDropped reason), .reported (.metric reason)] }) ∧
    a.dropped = reasons.length ∧
    DropsRemoved reasons a.events b.events ∧
    b = a.outfitted (a.observers.map Observer.sifted) 0 b.events ∧
    deedsAll requests' start = (deedsAll requests start).filter (·.isAccepted) ∧
    handed (deedsAll requests' start) = handed (deedsAll requests start) ∧
    ∀ (cx : Context) (step : ProcessorStep σ) (p : σ),
      (collect cx step.sifted p b).2 = (collect cx step p a).2 ∧
        handed (collected cx step.sifted p b) = handed (collected cx step p a) := by
  intro start requests' a b reasons
  obtain ⟨hdeeds, hsifting⟩ := (sifting_new selector resource idleCycles now).serveAll requests
  rw [List.nil_append] at hsifting
  refine ⟨fun c m => ?_, fun c registered d n labels => ?_, hsifting.dropped, hsifting.events,
    hsifting.same, hdeeds, ?_, fun cx step p => ?_⟩
  · rw [record_eq_elim]
    exact congrArg _ (funext c.drop_eq)
  · rw [observe_eq_elim]
    exact congrArg _ (funext c.drop_eq)
  · rw [hdeeds, handed_filter]
  · obtain ⟨hresult, hcollected, -⟩ := hsifting.collect step p cx
    exact ⟨hresult, by rw [hcollected, handed_filter]⟩

/-- Four measurements are rejected, some of them for two reasons, and one although its instrument
is disabled. -/
theorem rejected_only_counted_requests :
    let requests : Descriptor := { name := "requests", kind := .counter, numberKind := .i64 }
    let latency : Descriptor := { name := "latency", kind := .histogram, numberKind := .f64 }
    let temperature : Descriptor :=
      { name := "temperature", kind := .gaugeObserver, numberKind := .i64 }
    let negative : Number := .ofInt64 (-1)
    let step : ProcessorStep Nat := fun count _ => (count + 1, {})
    let run : List (Request Nat) :=
      [.register [temperature] [[.observe temperature ⟨20⟩ .empty,
        .observe requests negative .empty]], .record ⟨requests, ⟨3⟩, .i64, .empty⟩,
        .record ⟨latency, ⟨0x7ff8000000000000⟩, .f64, .empty⟩,
        .record ⟨requests, negative, .i64, .empty⟩, .record ⟨requests, negative, .u64, .empty⟩,
        .collect .unlimited step 0]
    let start := new (SimpleSelector.inexpensive.toSelector.disabling ["latency"]) .empty 1 0
    ((deedsAll run start).filterMap (·.rejection?)).map (·.variant) =
        ["NaNInput", "NegativeInput", "NumberKindMismatch", "UnregisteredInstrument"] ∧
      (serveAll run start).dropped = 4 ∧ (handed (deedsAll run start)).length = 2 ∧
      (handed (deedsAll (run.flatMap Request.sifted) start)).length = 2 := by
  intro requests latency temperature negative step run start
  obtain ⟨-, -, hdropped, -, -, -, hhanded, -⟩ :=
    rejected_only_counted (SimpleSelector.inexpensive.toSelector.disabling ["latency"]) .empty 1 0
      run
  have hlength : (handed (deedsAll run start)).length = 2 := by decide +kernel
  refine ⟨by decide +kernel, ?_, hlength, ?_⟩
  · rw [hdropped]
    decide +kernel
  · rw [hhanded]
    exact hlength

end

end Accumulator
end Metering
