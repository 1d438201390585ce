import Metering.Proofs.Accumulator.Samples

/-!
# Measuring under other labels

Two accumulators that are given the same measurements, one of them under changed labels, go on
alike: the second holds the samples of the first under the changed labels.
-/

namespace Metering

/-- A change of labels, which may depend on the instrument. -/
abbrev Relabelling := Descriptor → LabelSet → LabelSet

def Relabelling.key (r : Relabelling) (k : SeriesKey) : SeriesKey := (k.1, r k.1 k.2)

def Measurement.relabel (r : Relabelling) (m : Measurement) : Measurement :=
  { m with labels := r m.descriptor m.labels }

def Accumulation.relabel (r : Relabelling) (acc : Accumulation) : Accumulation :=
  { acc with
    series := { acc.series with labels := r acc.series.descriptor acc.series.labels } }

namespace CallbackAction

mutual

/-- An action with changed labels, also in the callbacks that it registers. -/
def relabel (r : Relabelling) : CallbackAction → CallbackAction
  | .observe d n labels => .observe d n (r d labels)
  | .record m => .record (m.relabel r)
  | .register descriptors calls => .register descriptors (relabelCalls r calls)
  | .cancel => .cancel
  | .note text => .note text
  | .fail error => .fail error
  | .panic cause => .panic cause

def relabelCall (r : Relabelling) : List CallbackAction → List CallbackAction
  | [] => []
  | action :: actions => relabel r action :: relabelCall r actions

def relabelCalls (r : Relabelling) : List (List CallbackAction) → List (List CallbackAction)
  | [] => []
  | call :: calls => relabelCall r call :: relabelCalls r calls

end

theorem relabelCall_eq (r : Relabelling) (actions : List CallbackAction) :
    relabelCall r actions = actions.map (relabel r) := by
  induction actions with
  | nil => rfl
  | cons action actions ih => rw [relabelCall, ih, List.map_cons]

theorem relabelCalls_eq (r : Relabelling) (calls : List (List CallbackAction)) :
    relabelCalls r calls = calls.map (relabelCall r) := by
  induction calls with
  | nil => rfl
  | cons call calls ih => rw [relabelCalls, ih, List.map_cons]

/-- Whether an action measures suitable instruments only, as do the callbacks that it
registers. -/
inductive Suits (choose : Descriptor → Option Aggregator) : CallbackAction → Prop where
  | observe {d : Descriptor} {n : Number} {labels : LabelSet}
    (h : Accumulator.Observable choose d) : Suits choose (.observe d n labels)
  | record {m : Measurement} (h : Accumulator.Recordable choose m.descriptor) :
    Suits choose (.record m)
  | register {descriptors : List Descriptor} {calls : List (List CallbackAction)}
    (h : ∀ call ∈ calls, ∀ action ∈ call, Suits choose action) :
    Suits choose (.register descriptors calls)
  | cancel : Suits choose .cancel
  | note {text : String} : Suits choose (.note text)
  | fail {error : MetricsError} : Suits choose (.fail error)
  | panic {cause : Panic} : Suits choose (.panic cause)

end CallbackAction

def Observer.relabel (r : Relabelling) (o : Observer) : Observer :=
  { o with calls := CallbackAction.relabelCalls r o.calls }

theorem Observer.relabel_descriptors (r : Relabelling) (o : Observer) :
    (o.relabel r).descriptors = o.descriptors := rfl

theorem Observer.nextActions_relabel (r : Relabelling) (o : Observer) :
    (o.relabel r).nextActions = o.nextActions.map (CallbackAction.relabel r) := by
  simp only [nextActions, relabel, CallbackAction.relabelCalls_eq, List.length_map,
    List.getD_eq_getElem?_getD, List.getElem?_map]
  cases o.calls[min o.called (o.calls.length - 1)]? with
  | none => rfl
  | some call => exact CallbackAction.relabelCall_eq r call

namespace Accumulator

def Deed.relabel (r : Relabelling) : Deed → Deed
  | .recorded m => .recorded (m.relabel r)
  | .observed registered d n labels => .observed registered d n (r d labels)
  | .processed acc => .processed (acc.relabel r)

def Sample.relabel (r : Relabelling) (u : Sample) : Sample := { u with key := r.key u.key }

section
variable {choose : Descriptor → Option Aggregator} (r : Relabelling)

theorem taken_relabel (deed : Deed) :
    taken choose (deed.relabel r) = (taken choose deed).map fun x => (r.key x.1, x.2) := by
  cases deed with
  | recorded m =>
    have ha : (m.relabel r).isAccepted = m.isAccepted := rfl
    have hd : (m.relabel r).descriptor = m.descriptor := rfl
    simp only [Deed.relabel, taken, ha, hd]
    split <;> rfl
  | observed registered d n labels =>
    simp only [Deed.relabel, taken]
    split <;> rfl
  | processed acc => rfl

theorem sampled_relabel (stamp : Stamp) (deed : Deed) :
    sampled choose stamp (deed.relabel r) = (sampled choose stamp deed).map (Sample.relabel r) := by
  rw [sampled, taken_relabel, sampled]
  cases taken choose deed <;> rfl

end

/-! ## Two accumulators -/

theorem SameSetup.symm {a b : Accumulator} (h : SameSetup a b) : SameSetup b a :=
  ⟨h.selector.symm, h.resource.symm, h.idleCycles.symm, h.epoch.symm, h.isPoisoned.symm⟩

/-- Accumulators that were given the same measurements, the second one under changed labels. -/
structure Twins (choose : Descriptor → Option Aggregator) (r : Relabelling) (ds : List Deed)
    (us : List Sample) (a b : Accumulator) : Prop where
  holds : Holds choose us a
  holds' : Holds choose (us.map (Sample.relabel r)) b
  samples : (us.map fun u => (u.key, u.reading.value)) = ds.filterMap (taken choose)
  selector : a.selector = .ofFunction choose
  intact : a.isPoisoned = false
  setup : SameSetup a b
  observers : b.observers = a.observers.map (Observer.relabel r)
  suits : ∀ o ∈ a.observers, ∀ call ∈ o.calls, ∀ action ∈ call,
    CallbackAction.Suits choose action
  flags : b.flags = a.flags
  stamp : b.stamp = a.stamp

variable {choose : Descriptor → Option Aggregator} {r : Relabelling} {ds : List Deed}
  {us : List Sample} {a b : Accumulator}

theorem Twins.now (h : Twins choose r ds us a b) : b.now = a.now := congrArg Stamp.time h.stamp

theorem Twins.writes (h : Twins choose r ds us a b) : b.writes = a.writes :=
  congrArg Stamp.sequence h.stamp

theorem Twins.selector' (h : Twins choose r ds us a b) : b.selector = .ofFunction choose :=
  h.setup.selector.trans h.selector

private theorem sampled_taken (stamp : Stamp) (deed : Deed) :
    ((sampled choose stamp deed).map fun u => (u.key, u.reading.value)) =
      (taken choose deed).toList := by
  rw [sampled]
  cases taken choose deed <;> rfl

theorem Twins.measure (h : Twins choose r ds us a b) {deed : Deed} {k k' : SeriesKey}
    {a' b' : Accumulator} (ha : Measured k a a') (hb : Measured k' b b')
    (hs : Holds choose (us ++ sampled choose a.stamp deed) a' ∧
      a'.stamp = a.stamp.after (sampled choose a.stamp deed).length)
    (hs' : Holds choose (us.map (Sample.relabel r) ++ sampled choose b.stamp (deed.relabel r)) b' ∧
      b'.stamp = b.stamp.after (sampled choose b.stamp (deed.relabel r)).length) :
    Twins choose r (ds ++ [deed]) (us ++ sampled choose a.stamp deed) a' b' := by
  rw [h.stamp, sampled_relabel] at hs'
  refine ⟨hs.1, ?_, ?_, ha.setup.selector.trans h.selector, ha.setup.isPoisoned.trans h.intact,
    (ha.setup.symm.trans h.setup).trans hb.setup, ?_, ?_, ?_, ?_⟩
  · rw [List.map_append]
    exact hs'.1
  · rw [List.map_append, h.samples, sampled_taken, List.filterMap_append]
    cases hx : taken choose deed <;> simp [hx]
  · rw [hb.observers, ha.observers, h.observers]
  · rw [ha.observers]
    exact h.suits
  · rw [hb.flags, ha.flags, h.flags]
  · rw [hs'.2, hs.2, List.length_map]

theorem Twins.record (h : Twins choose r ds us a b) {m : Measurement}
    (hm : Recordable choose m.descriptor) :
    Twins choose r (ds ++ [.recorded m]) (us ++ sampled choose a.stamp (.recorded m)) (a.record m)
      (b.record (m.relabel r)) :=
  h.measure (measured_record h.selector m) (measured_record h.selector' (m.relabel r))
    (h.holds.record h.selector hm) (h.holds'.record h.selector' (m := m.relabel r) hm)

theorem Twins.observe (h : Twins choose r ds us a b) (registered : List Descriptor)
    {d : Descriptor} (hd : Observable choose d) (n : Number) (labels : LabelSet) :
    Twins choose r (ds ++ [.observed registered d n labels])
      (us ++ sampled choose a.stamp (.observed registered d n labels))
      (a.observe registered d n labels) (b.observe registered d n (r d labels)) :=
  h.measure (measured_observe h.selector ..) (measured_observe h.selector' ..)
    (h.holds.observe h.selector registered hd n labels)
    (h.holds'.observe h.selector' registered hd n (r d labels))

theorem Twins.same (h : Twins choose r ds us a b) {a' b' : Accumulator}
    (ha : SameSetup a a') (hb : SameSetup b b') (has : a'.series = a.series)
    (hbs : b'.series = b.series)
    (hobservers : b'.observers = a'.observers.map (Observer.relabel r))
    (hsuits : ∀ o ∈ a'.observers, ∀ call ∈ o.calls, ∀ action ∈ call,
      CallbackAction.Suits choose action)
    (hflags : b'.flags = a'.flags) (hle : a.writes ≤ a'.writes)
    (hstamp : b'.stamp = a'.stamp) :
    Twins choose r ds us a' b' :=
  have hwrites : b'.writes = a'.writes := congrArg Stamp.sequence hstamp
  ⟨h.holds.same has hle, h.holds'.same hbs (hwrites ▸ h.writes ▸ hle), h.samples,
    ha.selector.trans h.selector, ha.isPoisoned.trans h.intact, (ha.symm.trans h.setup).trans hb,
    hobservers, hsuits, hflags, hstamp⟩

theorem Twins.emit (h : Twins choose r ds us a b) (e e' : Event) :
    Twins choose r ds us (a.emit e) (b.emit e') :=
  h.same ⟨rfl, rfl, rfl, rfl, rfl⟩ ⟨rfl, rfl, rfl, rfl, rfl⟩ rfl rfl h.observers h.suits h.flags
    (le_refl _) h.stamp

theorem Twins.tick (h : Twins choose r ds us a b) : Twins choose r ds us a.tick b.tick :=
  h.same ⟨rfl, rfl, rfl, rfl, rfl⟩ ⟨rfl, rfl, rfl, rfl, rfl⟩ rfl rfl h.observers h.suits h.flags
    (le_refl _) (congrArg Stamp.tick h.stamp)

theorem Twins.register (h : Twins choose r ds us a b) (descriptors : List Descriptor)
    {calls : List (List CallbackAction)}
    (hc : ∀ call ∈ calls, ∀ action ∈ call, CallbackAction.Suits choose action) :
    (a.register descriptors calls).2 =
        (b.register descriptors (CallbackAction.relabelCalls r calls)).2 ∧
      Twins choose r ds us (a.register descriptors calls).1
        (b.register descriptors (CallbackAction.relabelCalls r calls)).1 := by
  rw [Accumulator.register, Accumulator.register]
  cases descriptors.find? (·.kind.isSynchronous) with
  | some d => exact ⟨rfl, h⟩
  | none =>
    refine ⟨rfl, h.same ⟨rfl, rfl, rfl, rfl, rfl⟩ ⟨rfl, rfl, rfl, rfl, rfl⟩ rfl rfl ?_ ?_ h.flags
      (le_refl _) h.stamp⟩
    · simp [h.observers, Observer.relabel]
    · intro o ho
      rcases List.mem_append.mp ho with ho | ho
      · exact h.suits o ho
      · rw [List.mem_singleton.mp ho]
        exact hc

theorem Twins.perform (cx : Context) (registered : List Descriptor)
    {actions : List CallbackAction} (hs : ∀ action ∈ actions, CallbackAction.Suits choose action)
    (h : Twins choose r ds us a b) :
    (perform cx registered actions a).2 =
        (perform cx registered (actions.map (CallbackAction.relabel r)) b).2 ∧
      ∃ us', Twins choose r (ds ++ performed registered actions) us'
        (perform cx registered actions a).1
        (perform cx registered (actions.map (CallbackAction.relabel r)) b).1 := by
  induction actions generalizing ds us a b with
  | nil => exact ⟨rfl, us, by simpa [performed, Accumulator.perform] using h⟩
  | cons action rest ih =>
    obtain ⟨haction, hrest⟩ := List.forall_mem_cons.mp hs
    rw [List.map_cons]
    cases haction with
    | @observe d n labels hd =>
      have := ih hrest (h.observe registered hd n labels)
      simpa [performed, Accumulator.perform, CallbackAction.relabel] using this
    | record hm =>
      have := ih hrest (h.record hm)
      simpa [performed, Accumulator.perform, CallbackAction.relabel] using this
    | @register descriptors calls hc =>
      obtain ⟨hr, ht⟩ := h.register descriptors hc
      have := ih hrest (ht.emit (.registered (a.register descriptors calls).2)
        (.registered (a.register descriptors calls).2))
      simpa [performed, Accumulator.perform, CallbackAction.relabel, hr] using this
    | cancel =>
      have hc : Twins choose r ds us (a.cancel cx) (b.cancel cx) := by
        rw [Accumulator.cancel, Accumulator.cancel]
        cases cx.flag with
        | none => exact h
        | some flag =>
          exact h.same ⟨rfl, rfl, rfl, rfl, rfl⟩ ⟨rfl, rfl, rfl, rfl, rfl⟩ rfl rfl h.observers
            h.suits (by rw [h.flags]) (le_refl _) h.stamp
      exact ih hrest hc
    | @note text =>
      exact ih hrest (h.emit (.noted text) (.noted text))
    | fail =>
      exact ⟨rfl, us, by simpa [performed, Accumulator.perform, CallbackAction.relabel] using h⟩
    | panic =>
      exact ⟨rfl, us, by simpa [performed, Accumulator.perform, CallbackAction.relabel] using h⟩

theorem Observer.mem_nextActions {o : Observer} {action : CallbackAction}
    (h : action ∈ o.nextActions) : ∃ call ∈ o.calls, action ∈ call := by
  rw [Observer.nextActions, List.getD_eq_getElem?_getD] at h
  cases hc : o.calls[min o.called (o.calls.length - 1)]? with
  | none => simp [hc] at h
  | some call =>
    rw [hc] at h
    exact ⟨call, List.mem_of_getElem? hc, h⟩

theorem Twins.callObserver (cx : Context) (i : Nat) (h : Twins choose r ds us a b) :
    (callObserver cx i a).2 = (callObserver cx i b).2 ∧
      ∃ us', Twins choose r (ds ++ called i a) us' (callObserver cx i a).1
        (callObserver cx i b).1 := by
  simp only [Accumulator.callObserver, called, h.observers, List.getElem?_map]
  cases ho : a.observers[i]? with
  | none => exact ⟨rfl, us, by simpa using h⟩
  | some o =>
    have hmem : o ∈ a.observers := List.mem_of_getElem? ho
    have hsuits : ∀ action ∈ o.nextActions, CallbackAction.Suits choose action := by
      intro action haction
      obtain ⟨call, hcall, hc⟩ := Observer.mem_nextActions haction
      exact h.suits o hmem call hcall action hc
    have hcalled : Twins choose r ds us
        { a with observers := a.observers.set i { o with called := o.called + 1 } }
        { b with
          observers := (a.observers.map (Observer.relabel r)).set i
            { o.relabel r with called := (o.relabel r).called + 1 } } := by
      refine h.same ⟨rfl, rfl, rfl, rfl, rfl⟩ ⟨rfl, rfl, rfl, rfl, rfl⟩ rfl rfl ?_ ?_ h.flags
        (le_refl _) h.stamp
      · rw [List.map_set]
        rfl
      · intro o' ho'
        rcases List.mem_or_eq_of_mem_set ho' with ho' | rfl
        · exact h.suits o' ho'
        · exact h.suits o hmem
    obtain ⟨hr, us', ht⟩ := hcalled.perform cx o.descriptors hsuits
    rw [← Observer.nextActions_relabel] at hr ht
    simp only [Option.map_some, Option.elim_some, Observer.relabel_descriptors] at hr ht ⊢
    generalize Accumulator.perform cx o.descriptors o.nextActions _ = x at hr ht ⊢
    generalize Accumulator.perform cx o.descriptors (o.relabel r).nextActions _ = y at hr ht ⊢
    obtain ⟨a', ra⟩ := x
    obtain ⟨b', rb⟩ := y
    obtain rfl : ra = rb := hr
    cases ra with
    | ok _ => exact ⟨rfl, us', ht⟩
    | error halt =>
      exact ⟨rfl, us', ht.emit _ _⟩

theorem Twins.isCancelled (h : Twins choose r ds us a b) (cx : Context) :
    b.isCancelled cx = a.isCancelled cx := by
  rw [Accumulator.isCancelled, Accumulator.isCancelled, h.flags, h.now]

theorem Twins.callObservers (cx : Context) (is : List Nat) (h : Twins choose r ds us a b) :
    (callObservers cx is a).2 = (callObservers cx is b).2 ∧
      ∃ us', Twins choose r (ds ++ calledAll cx is a) us' (callObservers cx is a).1
        (callObservers cx is b).1 := by
  induction is generalizing ds us a b with
  | nil => exact ⟨rfl, us, by simpa [calledAll, Accumulator.callObservers] using h⟩
  | cons i is ih =>
    rw [Accumulator.callObservers, Accumulator.callObservers, calledAll, h.isCancelled]
    split
    · exact ⟨rfl, us, by simpa using h⟩
    · obtain ⟨hr, us', ht⟩ := h.callObserver cx i
      obtain ⟨hr', us'', ht'⟩ := ih ht
      refine ⟨?_, us'', by simpa using ht'⟩
      simp only [hr, hr']

end Accumulator
end Metering
