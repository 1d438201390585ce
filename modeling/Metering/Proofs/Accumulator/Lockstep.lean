import Metering.Proofs.Accumulator.Upkeep

/-!
# Two accumulators in lockstep

What callbacks do does not depend on the series. Accumulators with the same callbacks, flags and
clock make the same calls and measurements, and stay related if the measurements keep them so.
-/

namespace Metering.Accumulator

/-- Accumulators between which callbacks see no difference. -/
structure SameControl (a b : Accumulator) : Prop where
  observers : b.observers = a.observers
  flags : b.flags = a.flags
  stamp : b.stamp = a.stamp
  isPoisoned : b.isPoisoned = a.isPoisoned

theorem SameControl.now {a b : Accumulator} (h : SameControl a b) : b.now = a.now :=
  congrArg Stamp.time h.stamp

theorem SameControl.measured {a b a' b' : Accumulator} {k : SeriesKey} (h : SameControl a b)
    (ha : Measured k a a') (hb : Measured k b b') {x? : Option (SeriesKey × Number)}
    (hca : Counted x? a a') (hcb : Counted x? b b') : SameControl a' b' where
  observers := hb.observers.trans (h.observers.trans ha.observers.symm)
  flags := hb.flags.trans (h.flags.trans ha.flags.symm)
  stamp := by rw [hcb.stamp, hca.stamp, h.stamp]
  isPoisoned := hb.setup.isPoisoned.trans (h.isPoisoned.trans ha.setup.isPoisoned.symm)

theorem SameControl.cleared {a b a' b' : Accumulator} (h : SameControl a b) (ha : Cleared a a')
    (hb : Cleared b b') (events events' : List Event) :
    SameControl { a' with epoch := a'.epoch + 1, now := a'.now + 1, events }
      { b' with epoch := b'.epoch + 1, now := b'.now + 1, events := events' } where
  observers := hb.observers.trans (h.observers.trans ha.observers.symm)
  flags := hb.flags.trans (h.flags.trans ha.flags.symm)
  stamp := congrArg Stamp.tick (hb.stamp.trans (h.stamp.trans ha.stamp.symm))
  isPoisoned := hb.setup.isPoisoned.trans (h.isPoisoned.trans ha.setup.isPoisoned.symm)

/-- Relations between two accumulators, after the same deeds, that depend on the series, the setup
and what callbacks see, and that measurements keep. -/
structure Lockstep (R : List Deed → Accumulator → Accumulator → Prop) : Prop where
  control : ∀ {ds a b}, R ds a b → SameControl a b
  same : ∀ {ds a b a' b'}, R ds a b → SameSetup a a' → SameSetup b b' →
    a'.series = a.series → b'.series = b.series → SameControl a' b' → R ds a' b'
  record : ∀ {ds a b}, R ds a b → ∀ m, R (ds ++ [.recorded m]) (a.record m) (b.record m)
  observe : ∀ {ds a b}, R ds a b → ∀ registered d n labels,
    R (ds ++ [.observed registered d n labels]) (a.observe registered d n labels)
      (b.observe registered d n labels)

/-- Relations in lockstep between accumulators with series made for their instruments, which
completed sweeps keep, while the batches that they hand over are related. -/
structure Synchronized (choose : Descriptor → Option Aggregator)
    (D : List Accumulation → List Accumulation → Prop)
    (R : List Deed → Accumulator → Accumulator → Prop) : Prop extends Lockstep R where
  left : ∀ {ds a b}, R ds a b → Upkept choose ds a
  right : ∀ {ds a b}, R ds a b → Upkept choose ds b
  contents : ∀ {ds a b}, R ds a b → D a.contents b.contents
  sweep : ∀ {ds a b a' b'}, R ds a b → Cleared a a' → Cleared b b' → ∀ events events',
    R [] { a' with epoch := a'.epoch + 1, now := a'.now + 1, events }
      { b' with epoch := b'.epoch + 1, now := b'.now + 1, events := events' }

variable {R : List Deed → Accumulator → Accumulator → Prop} {ds : List Deed} {a b : Accumulator}

theorem Lockstep.emit (hR : Lockstep R) (h : R ds a b) (e e' : Event) :
    R ds (a.emit e) (b.emit e') := by
  have hc := hR.control h
  exact hR.same h ⟨rfl, rfl, rfl, rfl, rfl⟩ ⟨rfl, rfl, rfl, rfl, rfl⟩ rfl rfl
    ⟨hc.observers, hc.flags, hc.stamp, hc.isPoisoned⟩

theorem Lockstep.tick (hR : Lockstep R) (h : R ds a b) : R ds a.tick b.tick := by
  have hc := hR.control h
  exact hR.same h ⟨rfl, rfl, rfl, rfl, rfl⟩ ⟨rfl, rfl, rfl, rfl, rfl⟩ rfl rfl
    ⟨hc.observers, hc.flags, congrArg Stamp.tick hc.stamp, hc.isPoisoned⟩

theorem Lockstep.await (hR : Lockstep R) (h : R ds a b) (elapsed : Nat)
    (flags : CancellationFlags) :
    R ds { a with now := a.now + elapsed, flags } { b with now := b.now + elapsed, flags } := by
  have hc := hR.control h
  exact hR.same h ⟨rfl, rfl, rfl, rfl, rfl⟩ ⟨rfl, rfl, rfl, rfl, rfl⟩ rfl rfl
    ⟨hc.observers, rfl, congrArg (fun s : Stamp => { s with time := s.time + elapsed }) hc.stamp,
      hc.isPoisoned⟩

theorem Lockstep.register (hR : Lockstep R) (h : R ds a b) (descriptors : List Descriptor)
    (calls : List (List CallbackAction)) :
    R ds (a.register descriptors calls).1 (b.register descriptors calls).1 := by
  have hc := hR.control h
  rw [Accumulator.register, Accumulator.register]
  cases descriptors.find? (·.kind.isSynchronous) with
  | some d => exact h
  | none =>
    exact hR.same h ⟨rfl, rfl, rfl, rfl, rfl⟩ ⟨rfl, rfl, rfl, rfl, rfl⟩ rfl rfl
      ⟨congrArg (· ++ _) hc.observers, hc.flags, hc.stamp, hc.isPoisoned⟩

theorem Lockstep.cancel (hR : Lockstep R) (h : R ds a b) (cx : Context) :
    R ds (a.cancel cx) (b.cancel cx) := by
  have hc := hR.control h
  rw [Accumulator.cancel, Accumulator.cancel]
  cases cx.flag with
  | none => exact h
  | some flag =>
    exact hR.same h ⟨rfl, rfl, rfl, rfl, rfl⟩ ⟨rfl, rfl, rfl, rfl, rfl⟩ rfl rfl
      ⟨hc.observers, congrArg (CancellationHandle.cancel ⟨flag⟩) hc.flags, hc.stamp, hc.isPoisoned⟩

theorem Lockstep.perform (hR : Lockstep R) (cx : Context) (registered : List Descriptor)
    (actions : List CallbackAction) (h : R ds a b) :
    (perform cx registered actions b).2 = (perform cx registered actions a).2 ∧
      R (ds ++ performed registered actions) (perform cx registered actions a).1
        (perform cx registered actions b).1 := by
  induction actions generalizing ds a b with
  | nil => exact ⟨rfl, by simpa [performed, Accumulator.perform] using h⟩
  | cons action rest ih =>
    cases action with
    | observe d n labels =>
      simpa [performed, Accumulator.perform] using ih (hR.observe h registered d n labels)
    | record m => simpa [performed, Accumulator.perform] using ih (hR.record h m)
    | register descriptors calls =>
      exact ih (hR.emit (hR.register h descriptors calls) _ _)
    | cancel => exact ih (hR.cancel h cx)
    | note text => exact ih (hR.emit h _ _)
    | fail error => exact ⟨rfl, by simpa [performed, Accumulator.perform] using h⟩
    | panic cause => exact ⟨rfl, by simpa [performed, Accumulator.perform] using h⟩

theorem Lockstep.callObserver (hR : Lockstep R) (cx : Context) (i : Nat) (h : R ds a b) :
    (callObserver cx i b).2 = (callObserver cx i a).2 ∧
      R (ds ++ called i a) (callObserver cx i a).1 (callObserver cx i b).1 := by
  have hc := hR.control h
  simp only [Accumulator.callObserver, called, hc.observers]
  cases ho : a.observers[i]? with
  | none => exact ⟨rfl, by simpa using h⟩
  | some o =>
    have hcalled : R ds
        { a with observers := a.observers.set i { o with called := o.called + 1 } }
        { b with observers := a.observers.set i { o with called := o.called + 1 } } :=
      hR.same h ⟨rfl, rfl, rfl, rfl, rfl⟩ ⟨rfl, rfl, rfl, rfl, rfl⟩ rfl rfl
        ⟨rfl, hc.flags, hc.stamp, hc.isPoisoned⟩
    obtain ⟨hr, hperformed⟩ := hR.perform cx o.descriptors o.nextActions hcalled
    simp only [Option.elim_some]
    generalize Accumulator.perform cx o.descriptors o.nextActions _ = x at hr hperformed ⊢
    generalize Accumulator.perform cx o.descriptors o.nextActions _ = y at hr hperformed ⊢
    obtain ⟨b', rb⟩ := x
    obtain ⟨a', ra⟩ := y
    obtain rfl : rb = ra := hr
    cases rb with
    | ok _ => exact ⟨rfl, hperformed⟩
    | error halt => exact ⟨rfl, hR.emit hperformed _ _⟩

theorem Lockstep.isCancelled (hR : Lockstep R) (h : R ds a b) (cx : Context) :
    b.isCancelled cx = a.isCancelled cx := by
  rw [Accumulator.isCancelled, Accumulator.isCancelled, (hR.control h).flags, (hR.control h).now]

theorem Lockstep.callObservers (hR : Lockstep R) (cx : Context) (is : List Nat) (h : R ds a b) :
    (callObservers cx is b).2 = (callObservers cx is a).2 ∧
      R (ds ++ calledAll cx is a) (callObservers cx is a).1 (callObservers cx is b).1 := by
  induction is generalizing ds a b with
  | nil => exact ⟨rfl, by simpa [calledAll, Accumulator.callObservers] using h⟩
  | cons i is ih =>
    rw [Accumulator.callObservers, Accumulator.callObservers, calledAll, hR.isCancelled h]
    split
    · exact ⟨rfl, by simpa using h⟩
    · obtain ⟨hr, hone⟩ := hR.callObserver cx i h
      obtain ⟨hr', hrest⟩ := ih hone
      refine ⟨?_, by simpa using hrest⟩
      simp only [hr, hr']

theorem Lockstep.calledAll_eq (hR : Lockstep R) (cx : Context) (is : List Nat) (h : R ds a b) :
    calledAll cx is b = calledAll cx is a := by
  induction is generalizing ds a b with
  | nil => rfl
  | cons i is ih =>
    have hcalled : called i b = called i a := by rw [called, called, (hR.control h).observers]
    rw [calledAll, calledAll, hR.isCancelled h, hcalled, ih (hR.callObserver cx i h).2]

theorem Lockstep.afterCallbacks (hR : Lockstep R) (cx : Context) (h : R ds a b) :
    R (ds ++ calledAll cx (List.range a.observers.length) a) (a.afterCallbacks cx)
      (b.afterCallbacks cx) := by
  rw [Accumulator.afterCallbacks, Accumulator.afterCallbacks, (hR.control h).observers]
  exact (hR.callObservers cx _ h).2

/-- Both get to their sweeps, with the same errors, or neither does. -/
theorem Lockstep.proceeds_iff (hR : Lockstep R) (h : R ds a b) {cx : Context}
    {errors : List MetricsError} : Proceeds cx b errors ↔ Proceeds cx a errors := by
  have hc := hR.control h
  have hresult := (hR.callObservers cx (List.range a.observers.length) h).1
  have hcancelled := hR.isCancelled (hR.afterCallbacks cx h) cx
  constructor
  · rintro ⟨hintact, hok, hgo⟩
    rw [hc.observers, hresult] at hok
    exact ⟨hc.isPoisoned.symm.trans hintact, hok, hcancelled.symm.trans hgo⟩
  · rintro ⟨hintact, hok, hgo⟩
    refine ⟨hc.isPoisoned.trans hintact, ?_, hcancelled.trans hgo⟩
    rw [hc.observers, hresult]
    exact hok

/-! ## The same series -/

variable {choose : Descriptor → Option Aggregator} {resource : Resource}

theorem filterMap_seek {ss : List LiveSeries} (hd : Distinct ss) :
    (ss.map (·.key)).filterMap (seek · ss) = ss := by
  rw [List.filterMap_map]
  exact (List.filterMap_congr fun s hs => seek_of_mem hd hs).trans List.filterMap_some

theorem Upkept.series_eq {ds' : List Deed} (ha : Upkept choose ds a) (hb : Upkept choose ds' b)
    (hkeys : keys b = keys a)
    (h : ∀ k g, choose k.1 = some g → seek k b.series = seek k a.series) :
    b.series = a.series := by
  have hseek : ∀ k, seek k b.series = seek k a.series := by
    intro k
    cases hg : choose k.1 with
    | none => rw [ha.disabled k hg, hb.disabled k hg]
    | some g => exact h k g hg
  rw [← filterMap_seek ha.distinct, ← filterMap_seek hb.distinct]
  show (keys b).filterMap _ = (keys a).filterMap _
  rw [hkeys]
  exact List.filterMap_congr fun k _ => hseek k

/-- Accumulators with the same series, set up alike, after the same deeds. -/
structure Coincide (choose : Descriptor → Option Aggregator) (resource : Resource)
    (ds : List Deed) (a b : Accumulator) : Prop where
  upkept : Upkept choose ds a
  resource : a.resource = resource
  setup : SameSetup a b
  series : b.series = a.series
  control : SameControl a b

theorem Coincide.right (h : Coincide choose resource ds a b) : Upkept choose ds b :=
  h.upkept.same h.setup h.series

private theorem Coincide.measured {ds' : List Deed} {a' b' : Accumulator} {k : SeriesKey}
    {x? : Option (SeriesKey × Number)} (h : Coincide choose resource ds a b) (ha : Measured k a a')
    (hb : Measured k b b') (hca : Counted x? a a') (hcb : Counted x? b b')
    (hleft : Upkept choose ds' a') (hright : Upkept choose ds' b')
    (hseek : ∀ k g, choose k.1 = some g → seek k b'.series = seek k a'.series) :
    Coincide choose resource ds' a' b' := by
  refine ⟨hleft, ha.setup.resource.trans h.resource, ha.setup.symm.trans (h.setup.trans hb.setup),
    hleft.series_eq hright ?_ hseek, h.control.measured ha hb hca hcb⟩
  rw [hca.keys, hcb.keys, keys, keys, h.series]

theorem synchronized_coincide (hnew : ∀ d g, choose d = some g → Aggregator.IsNew d g) :
    Synchronized choose Eq (Coincide choose resource) where
  control h := h.control
  same h ha hb hs hs' hc := ⟨h.upkept.same ha hs, ha.resource.trans h.resource,
    ha.symm.trans (h.setup.trans hb), hs'.trans (h.series.trans hs.symm), hc⟩
  record h m := by
    refine h.measured (measured_record h.upkept.selector m) (measured_record h.right.selector m)
      (h.upkept.allMade.counted_record h.upkept.selector m)
      (h.right.allMade.counted_record h.right.selector m) (h.upkept.record hnew m)
      (h.right.record hnew m) fun k g hg => ?_
    rw [seek_record_given h.upkept.selector hg, seek_record_given h.right.selector hg, h.series,
      h.control.stamp]
  observe h registered d n labels := by
    refine h.measured (measured_observe h.upkept.selector ..)
      (measured_observe h.right.selector ..)
      (h.upkept.allMade.counted_observe h.upkept.selector hnew registered d n labels)
      (h.right.allMade.counted_observe h.right.selector hnew registered d n labels)
      (h.upkept.observe hnew registered d n labels) (h.right.observe hnew registered d n labels)
      fun k g hg => ?_
    rw [seek_observe_given h.upkept.selector hg (hnew _ g hg) fun s hs =>
        (h.upkept.tended k g hg).made hs,
      seek_observe_given h.right.selector hg (hnew _ g hg) fun s hs =>
        (h.right.tended k g hg).made hs, h.series, h.control.stamp, h.setup.epoch]
  left h := h.upkept
  right h := h.right
  contents h := by rw [Accumulator.contents, Accumulator.contents, h.series, h.setup.resource]
  sweep {ds a b a' b'} h ha hb events events' := by
    have hleft := h.upkept.sweep hnew ha (a'.now + 1) events
    have hright := h.right.sweep hnew hb (b'.now + 1) events'
    have hsetup : SameSetup a' b' := ha.setup.symm.trans (h.setup.trans hb.setup)
    have hseeks : ∀ k, seek k b'.series = seek k a'.series := by
      intro k
      rw [ha.seeks, hb.seeks, h.series]
      simp only [isEvictable, h.setup.idleCycles]
    refine ⟨hleft, ha.setup.resource.trans h.resource,
      ⟨hsetup.1, hsetup.2, hsetup.3, congrArg (· + 1) hsetup.4, hsetup.5⟩,
      hleft.series_eq hright ?_ fun k g _ => hseeks k, h.control.cleared ha hb events events'⟩
    show keys b' = keys a'
    rw [ha.keys, hb.keys, keys, keys, h.series]
    simp only [hseeks]

end Metering.Accumulator
