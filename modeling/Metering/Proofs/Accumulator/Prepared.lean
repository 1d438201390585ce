import Metering.Proofs.Accumulator.Clearing

/-!
# Accumulators with steady callbacks

Steady callbacks, called for collections that are cancelled or not, leave the recorded series as
they are. The observed series always stand in the order of their first reports, and a completed
collection keeps all of them.
-/

namespace Metering.Accumulator

/-- Whether the instrument of a series is observed by callbacks. -/
def isObserved (k : SeriesKey) : Bool := !k.1.kind.isSynchronous

/-- An accumulator with steady callbacks: its observed series stand in the order in which some
first reports enrol them. -/
structure Prepared (choose : Descriptor → Option Aggregator) (a : Accumulator) : Prop where
  sound : Sound choose a
  intact : a.isPoisoned = false
  cycles : 1 ≤ a.idleCycles
  steady : ∀ o ∈ callbacks a, Steady o.calls
  held : AllHeld choose a
  enrolled : ∃ us, us <+: reports choose a ∧ (keys a).filter isObserved = enrolAll [] us

/-- What leaves the recorded series as they are. -/
structure Undisturbed (choose : Descriptor → Option Aggregator) (a b : Accumulator) : Prop where
  prepared : Prepared choose b
  resource : b.resource = a.resource
  idleCycles : b.idleCycles = a.idleCycles
  reports : reports choose b = reports choose a
  recorded : (keys b).filter (!isObserved ·) = (keys a).filter (!isObserved ·)
  series : ∀ k, isObserved k = false → seek k b.series = seek k a.series
  writes : a.writes ≤ b.writes

variable {choose : Descriptor → Option Aggregator} {a b c : Accumulator}
  {us : List (SeriesKey × Number)}

theorem prepared_new (resource : Resource) (idleCycles : Nat) (now : Time) :
    Prepared choose (new (.ofFunction choose) resource idleCycles now) :=
  ⟨sound_new resource idleCycles now, rfl, le_max_left 1 idleCycles, by simp [callbacks, new],
    fun k s hs => by simp [new] at hs, [], List.nil_prefix, rfl⟩

theorem Prepared.same (h : Prepared choose a) (hb : SameSetup a b) (hs : b.series = a.series)
    (ho : b.observers = a.observers) : Prepared choose b := by
  have hcallbacks : callbacks b = callbacks a := congrArg (List.map Observer.fresh) ho
  refine ⟨⟨hb.selector.trans h.sound.selector, hs ▸ h.sound.distinct,
    ho ▸ h.sound.asynchronous⟩, hb.isPoisoned.trans h.intact, ?_, ?_, fun k s => ?_, ?_⟩
  · rw [hb.idleCycles]
    exact h.cycles
  · rw [hcallbacks]
    exact h.steady
  · rw [hs, hb.epoch]
    exact h.held k s
  · rw [reports, hcallbacks, keys, hs]
    exact h.enrolled

theorem Prepared.undisturbed (h : Prepared choose a) (hb : SameSetup a b)
    (hs : b.series = a.series) (ho : b.observers = a.observers) (hn : a.writes ≤ b.writes) :
    Undisturbed choose a b :=
  ⟨h.same hb hs ho, hb.resource, hb.idleCycles,
    congrArg (fun os => (os.map Observer.fresh).flatMap (Observer.reports choose)) ho,
    by rw [keys, keys, hs], fun k _ => by rw [hs], hn⟩

theorem Undisturbed.trans (h : Undisturbed choose a b) (h' : Undisturbed choose b c) :
    Undisturbed choose a c :=
  ⟨h'.prepared, h'.resource.trans h.resource, h'.idleCycles.trans h.idleCycles,
    h'.reports.trans h.reports, h'.recorded.trans h.recorded,
    fun k hk => (h'.series k hk).trans (h.series k hk), h.writes.trans h'.writes⟩

theorem mem_performed_registered {registered : List Descriptor} {actions : List CallbackAction}
    (h : ∀ action ∈ actions, action.isObservation = true ∨ action.isCancel = true)
    {u : SeriesKey × Number} (hu : u ∈ (performed registered actions).filterMap (taken choose)) :
    u.1.1 ∈ registered := by
  induction actions with
  | nil => simp [performed] at hu
  | cons action rest ih =>
    obtain ⟨haction, hrest⟩ := List.forall_mem_cons.mp h
    cases action with
    | observe d n labels =>
      rw [performed, List.filterMap_cons] at hu
      cases ht : taken choose (.observed registered d n labels) with
      | none =>
        rw [ht] at hu
        exact ih hrest hu
      | some x =>
        rw [ht] at hu
        rcases List.mem_cons.mp hu with rfl | hu
        · obtain ⟨rfl, hmem, -⟩ := taken_observed ht
          exact hmem
        · exact ih hrest hu
    | cancel => exact ih hrest hu
    | record | register | note | fail | panic =>
      simp [CallbackAction.isObservation, CallbackAction.isCancel] at haction

theorem Prepared.reports_observed (h : Prepared choose a) :
    ∀ u ∈ reports choose a, isObserved u.1 = true := by
  intro u hu
  obtain ⟨o', ho', hu⟩ := List.mem_flatMap.mp hu
  have hsteady := h.steady o' ho'
  obtain ⟨o, ho, rfl⟩ := List.mem_map.mp ho'
  have hactions : ∀ action ∈ o.fresh.calls.headD [],
      action.isObservation = true ∨ action.isCancel = true := by
    cases hc : o.fresh.calls with
    | nil => simp
    | cons call calls => exact fun action haction => hsteady.action (by simp [hc]) haction
  have hmem : u.1.1 ∈ o.descriptors := mem_performed_registered hactions hu
  simp [isObserved, h.sound.asynchronous o ho u.1.1 hmem]

theorem Took.undisturbed (h : Took choose us a b) (ha : Prepared choose a) (hb : Sound choose b)
    (hcallbacks : callbacks b = callbacks a) (hus : us <+: reports choose a) :
    Undisturbed choose a b := by
  have hreports : reports choose b = reports choose a := by rw [reports, reports, hcallbacks]
  have hobserved : ∀ u ∈ us, isObserved u.1 = true :=
    fun u hu => ha.reports_observed u (hus.subset hu)
  have hall : us.filter (isObserved ·.1) = us := List.filter_eq_self.mpr hobserved
  have hnone : us.filter (!isObserved ·.1) = [] :=
    List.filter_eq_nil_iff.mpr fun u hu => by simp [hobserved u hu]
  refine ⟨⟨hb, h.setup.isPoisoned.trans ha.intact, ?_, ?_, h.allHeld ha.held, ?_⟩,
    h.setup.resource, h.setup.idleCycles, hreports, ?_, fun k hk => ?_, ?_⟩
  · rw [h.setup.idleCycles]
    exact ha.cycles
  · rw [hcallbacks]
    exact ha.steady
  · obtain ⟨vs, hvs, henrolled⟩ := ha.enrolled
    rw [hreports, h.keys, filter_enrolAll, hall, henrolled]
    rcases enrolAll_of_prefix hvs hus with ⟨heq, -⟩ | heq
    · exact ⟨vs, hvs, heq⟩
    · exact ⟨us, hus, heq⟩
  · rw [h.keys, filter_enrolAll, hnone]
    rfl
  · refine h.untouched k (readings_timed_eq_nil.mpr fun u hu huk => ?_)
    rw [← huk, hobserved u hu] at hk
    cases hk
  · exact (Nat.le_add_right ..).trans_eq (congrArg Stamp.sequence h.stamp).symm

/-- The calls of a collection leave the recorded series as they are, whether or not they are cut
short. -/
theorem Prepared.afterCallbacks (hnew : ∀ d g, choose d = some g → Aggregator.IsNew d g)
    (h : Prepared choose a) (cx : Context) :
    Undisturbed choose a (a.afterCallbacks cx) ∧
      ∀ errors, Proceeds cx a errors → Took choose (reports choose a) a (a.afterCallbacks cx) := by
  obtain ⟨hcallbacks, us, hus, htook, hall⟩ :=
    h.held.took_afterCallbacks hnew cx h.sound h.steady
  refine ⟨htook.undisturbed h (h.sound.callObservers cx _) hcallbacks hus, fun errors hp => ?_⟩
  rwa [← hall (by rw [hp.called]; rfl)]

theorem observed_of_took (h : Took choose (reports choose a) a b) (ha : Prepared choose a) :
    (keys b).filter isObserved = enrolAll [] (reports choose a) := by
  have hall : (reports choose a).filter (isObserved ·.1) = reports choose a :=
    List.filter_eq_self.mpr ha.reports_observed
  obtain ⟨us, hus, henrolled⟩ := ha.enrolled
  rw [h.keys, filter_enrolAll, hall, henrolled]
  rcases enrolAll_of_prefix hus List.prefix_rfl with ⟨heq, hle⟩ | heq
  · rw [heq, hus.eq_of_length_le hle.length_le]
  · exact heq

theorem Prepared.record (hnew : ∀ d g, choose d = some g → Aggregator.IsNew d g)
    (h : Prepared choose a) {m : Measurement} (hm : m.descriptor.kind.isSynchronous = true) :
    Prepared choose (a.record m) := by
  have hmeasured := measured_record h.sound.selector m
  have hcounted := h.held.allMade.counted_record h.sound.selector m
  have hcallbacks : callbacks (a.record m) = callbacks a :=
    congrArg (List.map Observer.fresh) hmeasured.observers
  refine ⟨h.sound.measured hmeasured, hmeasured.setup.isPoisoned.trans h.intact, ?_, ?_,
    fun k s hs => ?_, ?_⟩
  · rw [hmeasured.setup.idleCycles]
    exact h.cycles
  · rw [hcallbacks]
    exact h.steady
  · rw [hmeasured.setup.epoch]
    by_cases hk : m.key = k
    swap
    · exact h.held k s (hmeasured.frame k hk ▸ hs)
    subst hk
    cases hg : choose m.key.1 with
    | none =>
      rw [hcounted.unchanged (taken_recorded_of_none hg)] at hs
      exact h.held _ s hs
    | some g =>
      rw [seek_record_given h.sound.selector hg] at hs
      cases hgiven : given? choose m.key (.recorded m) with
      | none =>
        rw [hgiven] at hs
        exact h.held _ s (by simpa using hs)
      | some n =>
        rw [hgiven, Option.map_some, Option.some_or] at hs
        rw [← Option.some.inj hs]
        refine ⟨g, hg, LiveSeries.MadeFrom.add ?_ n a.stamp, fun hx => ?_⟩
        · cases ht : seek m.key a.series with
          | none => exact LiveSeries.madeFrom_opened (hnew _ g hg)
          | some t =>
            obtain ⟨g', hg', ht, -⟩ := h.held _ t ht
            obtain rfl : g = g' := Option.some.inj (hg.symm.trans hg')
            exact ht
        · exact absurd hm (by rw [show m.descriptor = m.key.1 from rfl, hx]; simp)
  · have hreports : reports choose (a.record m) = reports choose a := by
      rw [reports, reports, hcallbacks]
    have hnone : (taken choose (.recorded m)).toList.filter (isObserved ·.1) = [] := by
      rw [taken]
      split <;> simp [isObserved, Measurement.key, hm]
    rw [hreports, hcounted.keys, filter_enrolAll, hnone]
    exact h.enrolled

theorem callbacks_register (descriptors : List Descriptor) (calls : List (List CallbackAction)) :
    ∃ os : List Observer, (∀ o ∈ os, o.calls = calls) ∧ ∀ a : Accumulator,
      callbacks (a.register descriptors calls).1 = callbacks a ++ os ∧
        (a.register descriptors calls).1.series = a.series ∧
        (a.register descriptors calls).1.writes = a.writes := by
  cases hd : descriptors.find? (·.kind.isSynchronous) with
  | some d =>
    refine ⟨[], by simp, fun a => ?_⟩
    simp [Accumulator.register, hd]
  | none =>
    refine ⟨[{ descriptors := descriptors, calls := calls }], by simp, fun a => ?_⟩
    simp [Accumulator.register, hd, callbacks, Observer.fresh]

theorem Prepared.register (h : Prepared choose a) (descriptors : List Descriptor)
    {calls : List (List CallbackAction)} (hs : Steady calls) :
    Prepared choose (a.register descriptors calls).1 := by
  obtain ⟨hsound, hsame, hseries⟩ := h.sound.register descriptors calls
  obtain ⟨os, hos, hall⟩ := callbacks_register descriptors calls
  obtain ⟨us, hus, henrolled⟩ := h.enrolled
  refine ⟨hsound, hsame.isPoisoned.trans h.intact, hsame.idleCycles ▸ h.cycles, fun o ho => ?_,
    fun k s => ?_, us, ?_, ?_⟩
  · rw [(hall a).1] at ho
    rcases List.mem_append.mp ho with ho | ho
    · exact h.steady o ho
    · rw [hos o ho]
      exact hs
  · rw [hseries, hsame.epoch]
    exact h.held k s
  · rw [reports, (hall a).1, List.flatMap_append]
    exact hus.trans (List.prefix_append ..)
  · rw [keys, hseries]
    exact henrolled

theorem Held.swept (hnew : ∀ d g, choose d = some g → Aggregator.IsNew d g) {epoch : Nat}
    {k : SeriesKey} {s : LiveSeries} (h : Held choose epoch k s) :
    Held choose (epoch + 1) k s.swept := by
  obtain ⟨g, hg, hmade, hobserved⟩ := h
  have hcurrent : s.current.cleared s.descriptor = g := by
    rw [hmade.descriptor]
    exact hmade.current
  rw [LiveSeries.swept]
  cases hp : s.isPending with
  | true =>
    rw [if_pos rfl]
    have hemptied : (emptied s).MadeFrom k g := by
      refine ⟨hmade.key, ?_, hmade.current⟩
      rw [emptied, hcurrent]
      exact (hnew _ g hg).cleared
    refine ⟨g, hg, hemptied, fun hk => .inl ⟨hemptied, hcurrent, rfl, ?_⟩⟩
    rcases hobserved hk with hr | ⟨n, stamp, hr⟩
    · exact hr.observed.trans (Nat.le_succ epoch)
    · exact hr.observed.le
  | false =>
    have hmade' := hmade.aged
    rw [aged_of_not_pending hp] at hmade' ⊢
    rw [if_neg Bool.false_ne_true]
    refine ⟨g, hg, hmade', fun hk => .inl ?_⟩
    rcases hobserved hk with hr | ⟨n, stamp, hr⟩
    · exact ⟨hmade', hr.current, hr.collected, hr.observed.trans (Nat.le_succ epoch)⟩
    · simp [LiveSeries.isPending, hr.collected.ne'] at hp

/-- A sweep keeps all observed series, if each of them was observed. -/
theorem Prepared.sweep (hnew : ∀ d g, choose d = some g → Aggregator.IsNew d g)
    (h : Prepared choose a) (hb : Cleared a b)
    (hpending : ∀ k s, isObserved k = true → seek k a.series = some s → s.isPending = true)
    (now : Time) (events : List Event) :
    Prepared choose { b with epoch := b.epoch + 1, now, events } := by
  have hcallbacks : callbacks b = callbacks a := congrArg (List.map Observer.fresh) hb.observers
  refine ⟨⟨hb.setup.selector.trans h.sound.selector, hb.distinct,
    hb.observers ▸ h.sound.asynchronous⟩, hb.setup.isPoisoned.trans h.intact, ?_,
    fun o ho => h.steady o (hcallbacks ▸ ho), fun k s hs => ?_, ?_⟩
  · show 1 ≤ b.idleCycles
    rw [hb.setup.idleCycles]
    exact h.cycles
  · have hs : seek k b.series = some s := hs
    rw [hb.seeks] at hs
    obtain ⟨t, ht, rfl⟩ := Option.map_eq_some_iff.mp (Option.eq_some_of_filter_eq_some hs)
    show Held choose (b.epoch + 1) k t.swept
    rw [hb.setup.epoch]
    exact (h.held k t ht).swept hnew
  · obtain ⟨us, hus, henrolled⟩ := h.enrolled
    have hall : (keys b).filter isObserved = (keys a).filter isObserved := by
      rw [hb.keys, List.filter_comm, List.filter_eq_self]
      intro k hk
      obtain ⟨hk, hobserved⟩ := List.mem_filter.mp hk
      obtain ⟨s, hs, hsk⟩ := List.mem_map.mp hk
      have hseek := seek_of_mem h.sound.distinct hs
      rw [hsk] at hseek
      have hp := hpending k s hobserved hseek
      have hkept : a.isEvictable s.swept = false := by
        have hcycles := h.cycles
        rw [LiveSeries.swept, if_pos hp, isEvictable, emptied]
        simp [Nat.ne_of_gt hcycles]
      rw [hb.seeks, hseek, Option.map_some, Option.filter_some_pos (by simp [hkept])]
      rfl
    refine ⟨us, ?_, hall.trans henrolled⟩
    show us <+: (callbacks b).flatMap (Observer.reports choose)
    rw [hcallbacks]
    exact hus

end Metering.Accumulator
