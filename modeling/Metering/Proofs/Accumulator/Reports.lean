import Metering.Proofs.Accumulator.Observed

/-!
# Callbacks that always observe the same

What calls of such callbacks leave depends on their reports alone: every series that is reported
holds the last report of it, and the series stand in the order of their first reports. Calls that
a cancelled context cuts short leave a part of this, which the next collection completes.
-/

namespace Metering

/-! ## Steady callbacks -/

def CallbackAction.isObservation : CallbackAction → Bool
  | .observe .. => true
  | _ => false

def CallbackAction.isCancel : CallbackAction → Bool
  | .cancel => true
  | _ => false

/-- Whether a callback makes the same observations at each call, and otherwise cancels at most. -/
def Steady (calls : List (List CallbackAction)) : Prop :=
  ∃ observations : List CallbackAction, (∀ action ∈ observations, action.isObservation = true) ∧
    ∀ call ∈ calls, call.filter (!·.isCancel) = observations

theorem Steady.action {calls : List (List CallbackAction)} (h : Steady calls)
    {call : List CallbackAction} (hcall : call ∈ calls) {action : CallbackAction}
    (haction : action ∈ call) : action.isObservation = true ∨ action.isCancel = true := by
  obtain ⟨observations, hobs, hfixed⟩ := h
  cases hc : action.isCancel with
  | true => exact .inr rfl
  | false =>
    have hmem : action ∈ call.filter (!·.isCancel) := List.mem_filter.mpr ⟨haction, by simp [hc]⟩
    exact .inl (hobs action (hfixed call hcall ▸ hmem))

theorem Accumulator.performed_filter (registered : List Descriptor)
    (actions : List CallbackAction) :
    performed registered (actions.filter (!·.isCancel)) = performed registered actions := by
  have hcons : ∀ (action : CallbackAction) rest, action.isCancel = false →
      (action :: rest).filter (!·.isCancel) = action :: rest.filter (!·.isCancel) :=
    fun action rest h => List.filter_cons_of_pos (by simp [h])
  induction actions with
  | nil => rfl
  | cons action rest ih =>
    cases action with
    | cancel => exact ih
    | observe | record | register | note | fail | panic =>
      rw [hcons _ _ rfl]
      simp only [performed, ih]

namespace Observer

/-- What a callback reports at a call. -/
def reports (choose : Descriptor → Option Aggregator) (o : Observer) :
    List (SeriesKey × Number) :=
  (Accumulator.performed o.descriptors (o.calls.headD [])).filterMap (Accumulator.taken choose)

def fresh (o : Observer) : Observer := { o with called := 0 }

theorem nextActions_of_nil {o : Observer} (h : o.calls = []) : o.nextActions = [] := by
  rw [nextActions, h]
  rfl

theorem nextActions_mem {o : Observer} (h : o.calls ≠ []) : o.nextActions ∈ o.calls := by
  have hpos := List.length_pos_iff.mpr h
  have hlt : min o.called (o.calls.length - 1) < o.calls.length := by omega
  rw [nextActions, List.getD_eq_getElem?_getD, List.getElem?_eq_getElem hlt]
  exact List.getElem_mem hlt

theorem action_of_steady {o : Observer} (h : Steady o.calls) :
    ∀ action ∈ o.nextActions, action.isObservation = true ∨ action.isCancel = true := by
  intro action haction
  by_cases hc : o.calls = []
  · rw [nextActions_of_nil hc] at haction
    simp at haction
  · exact h.action (nextActions_mem hc) haction

theorem reports_of_steady (choose : Descriptor → Option Aggregator) {o : Observer}
    (h : Steady o.calls) :
    (Accumulator.performed o.descriptors o.nextActions).filterMap (Accumulator.taken choose) =
      o.reports choose := by
  by_cases hc : o.calls = []
  · rw [reports, nextActions_of_nil hc, hc]
    rfl
  · obtain ⟨observations, -, hfixed⟩ := h
    have hhead : o.calls.headD [] ∈ o.calls := by
      cases hcalls : o.calls with
      | nil => exact absurd hcalls hc
      | cons call calls => simp
    rw [reports, ← Accumulator.performed_filter _ o.nextActions,
      ← Accumulator.performed_filter _ (o.calls.headD []), hfixed _ (nextActions_mem hc),
      hfixed _ hhead]

end Observer

namespace Accumulator

variable {choose : Descriptor → Option Aggregator} {a b c : Accumulator}
  {us vs : List (SeriesKey × Number)}

/-! ## The order of the series -/

def keys (a : Accumulator) : List SeriesKey := a.series.map (·.key)

/-- Some keys with one more at the end, unless it is there. -/
def enrol (ks : List SeriesKey) (k : SeriesKey) : List SeriesKey :=
  if k ∈ ks then ks else ks ++ [k]

def enrolAll (ks : List SeriesKey) (us : List (SeriesKey × Number)) : List SeriesKey :=
  us.foldl (fun ks u => enrol ks u.1) ks

theorem enrolAll_append (ks : List SeriesKey) (us vs : List (SeriesKey × Number)) :
    enrolAll ks (us ++ vs) = enrolAll (enrolAll ks us) vs := List.foldl_append

theorem mem_enrol {ks : List SeriesKey} {k k' : SeriesKey} :
    k ∈ enrol ks k' ↔ k ∈ ks ∨ k' = k := by
  rw [enrol]
  split
  next h =>
    refine ⟨.inl, ?_⟩
    rintro (hk | rfl)
    · exact hk
    · exact h
  next => simp [eq_comm]

theorem mem_enrolAll {ks : List SeriesKey} {k : SeriesKey} :
    k ∈ enrolAll ks us ↔ k ∈ ks ∨ ∃ u ∈ us, u.1 = k := by
  induction us generalizing ks with
  | nil => simp [enrolAll]
  | cons u us ih =>
    rw [enrolAll, List.foldl_cons, ← enrolAll, ih, mem_enrol, or_assoc]
    simp

theorem enrolAll_of_mem {ks : List SeriesKey} (h : ∀ u ∈ us, u.1 ∈ ks) : enrolAll ks us = ks := by
  induction us with
  | nil => rfl
  | cons u us ih =>
    obtain ⟨hu, hus⟩ := List.forall_mem_cons.mp h
    rw [enrolAll, List.foldl_cons, enrol, if_pos hu]
    exact ih hus

theorem enrolAll_of_prefix {ws : List (SeriesKey × Number)} (hu : us <+: ws) (hv : vs <+: ws) :
    enrolAll (enrolAll [] us) vs = enrolAll [] us ∧ vs <+: us ∨
      enrolAll (enrolAll [] us) vs = enrolAll [] vs := by
  rcases List.prefix_or_prefix_of_prefix hv hu with h | h
  · exact .inl ⟨enrolAll_of_mem fun v hv => mem_enrolAll.mpr (.inr ⟨v, h.subset hv, rfl⟩), h⟩
  · obtain ⟨rest, rfl⟩ := h
    right
    rw [enrolAll_append, enrolAll_of_mem fun u hu => mem_enrolAll.mpr (.inr ⟨u, hu, rfl⟩),
      ← enrolAll_append]

theorem filter_enrol (p : SeriesKey → Bool) (ks : List SeriesKey) (k : SeriesKey) :
    (enrol ks k).filter p = if p k then enrol (ks.filter p) k else ks.filter p := by
  rw [enrol, enrol]
  by_cases hk : k ∈ ks
  · rw [if_pos hk]
    split
    next hp => rw [if_pos (List.mem_filter.mpr ⟨hk, hp⟩)]
    next => rfl
  · rw [if_neg hk, List.filter_append]
    have hne : k ∉ ks.filter p := fun h => hk (List.mem_filter.mp h).1
    cases hp : p k <;> simp [hp, hne]

theorem filter_enrolAll {p : SeriesKey → Bool} (ks : List SeriesKey)
    (us : List (SeriesKey × Number)) :
    (enrolAll ks us).filter p = enrolAll (ks.filter p) (us.filter (p ·.1)) := by
  induction us generalizing ks with
  | nil => rfl
  | cons u us ih =>
    rw [enrolAll, List.foldl_cons, ← enrolAll, ih, filter_enrol]
    cases hp : p u.1 <;> simp [hp, enrolAll]

/-! ## Measurements -/

theorem keys_store (a : Accumulator) (s : LiveSeries) : keys (a.store s) = keys a := by
  rw [keys, store, List.map_map]
  exact List.map_congr_left fun t _ => store_key

theorem map_key_opening {k : SeriesKey} {g : Aggregator} (hg : choose k.1 = some g)
    (ss : List LiveSeries) : (opening choose k ss).map (·.key) = enrol (ss.map (·.key)) k := by
  rw [opening, enrol, hg]
  cases hs : seek k ss with
  | none => rw [if_neg (by simp), if_neg (seek_eq_none.mp hs), List.map_append]; rfl
  | some s =>
    rw [if_pos (by simp), if_pos]
    by_contra hne
    rw [seek_eq_none.mpr hne] at hs
    cases hs

/-- Whether a series was made for its instrument, and has at most one observation of it. -/
def Held (choose : Descriptor → Option Aggregator) (epoch : Nat) (k : SeriesKey)
    (s : LiveSeries) : Prop :=
  ∃ g, choose k.1 = some g ∧ s.MadeFrom k g ∧
    (k.1.kind.isSynchronous = false →
      Rested k g epoch s ∨ ∃ n stamp, Reported k g epoch n stamp s)

def AllHeld (choose : Descriptor → Option Aggregator) (a : Accumulator) : Prop :=
  ∀ k s, seek k a.series = some s → Held choose a.epoch k s

/-- Whether the series were made for their instruments. -/
def AllMade (choose : Descriptor → Option Aggregator) (a : Accumulator) : Prop :=
  ∀ k s, seek k a.series = some s → ∃ g, choose k.1 = some g ∧ s.MadeFrom k g

theorem AllHeld.allMade (h : AllHeld choose a) : AllMade choose a := by
  intro k s hs
  obtain ⟨g, hg, hmade, -⟩ := h k s hs
  exact ⟨g, hg, hmade⟩

/-- What a measurement does to the next stamp and to the order of the series. -/
structure Counted (x? : Option (SeriesKey × Number)) (a b : Accumulator) : Prop where
  stamp : b.stamp = a.stamp.after x?.toList.length
  keys : keys b = enrolAll (keys a) x?.toList
  unchanged : x? = none → b.series = a.series

theorem Counted.writes {x? : Option (SeriesKey × Number)} (h : Counted x? a b) :
    b.writes = a.writes + x?.toList.length := congrArg Stamp.sequence h.stamp

theorem counted_addTo {k : SeriesKey} {g : Aggregator} (hg : choose k.1 = some g)
    (s : LiveSeries) (n : Number) :
    Counted (some (k, n)) a ({ a with series := opening choose k a.series }.addTo s n) :=
  ⟨rfl, (keys_store _ _).trans (map_key_opening hg _), fun h => by cases h⟩

theorem AllMade.seek_eq_none (h : AllMade choose a) {k : SeriesKey} (hg : choose k.1 = none) :
    seek k a.series = none := by
  cases hs : seek k a.series with
  | none => rfl
  | some s =>
    obtain ⟨g, hg', -⟩ := h k s hs
    rw [hg] at hg'
    cases hg'

theorem AllMade.update_of_disabled (h : AllMade choose a)
    (hsel : a.selector = .ofFunction choose) {d : Descriptor} {n : Number}
    (hn : d.rangeTest n = .ok ()) (labels : LabelSet) (isObserved : Bool)
    (hg : choose d = none) : a.update d n labels isObserved = a := by
  have hs := h.seek_eq_none (k := (d, labels)) hg
  simp only [update, hn, acquire_eq hsel, slot, opening, hs, hg, Option.map_none]
  simp

theorem taken_recorded_of_none {m : Measurement} (hg : choose m.descriptor = none) :
    taken choose (.recorded m) = none := by
  rw [taken, hg, if_neg (by simp)]

theorem AllMade.counted_record (h : AllMade choose a) (hsel : a.selector = .ofFunction choose)
    (m : Measurement) : Counted (taken choose (.recorded m)) a (a.record m) := by
  simp only [record, taken, Measurement.isAccepted, Bool.and_eq_true, decide_eq_true_eq]
  by_cases hkind : m.descriptor.numberKind = m.kind
  swap
  · rw [if_neg hkind, if_neg (fun h => hkind h.1.1)]
    exact ⟨rfl, rfl, fun _ => rfl⟩
  rw [if_pos hkind]
  cases hr : m.descriptor.rangeTest m.number with
  | error reason =>
    rw [if_neg (by simp [Except.isOk, Except.toBool]), update, hr]
    exact ⟨rfl, rfl, fun _ => rfl⟩
  | ok _ =>
    cases hg : choose m.descriptor with
    | none =>
      rw [h.update_of_disabled hsel hr _ _ hg, if_neg (by simp)]
      exact ⟨rfl, rfl, fun _ => rfl⟩
    | some g =>
      rw [update_recorded hsel hr, if_pos (by simp [Except.isOk, Except.toBool, hkind]),
        slot_eq (k := (m.descriptor, m.labels)) hg]
      exact counted_addTo (k := (m.descriptor, m.labels)) hg _ m.number

theorem AllMade.counted_observe (h : AllMade choose a) (hsel : a.selector = .ofFunction choose)
    (hnew : ∀ d g, choose d = some g → Aggregator.IsNew d g) (registered : List Descriptor)
    (d : Descriptor) (n : Number) (labels : LabelSet) :
    Counted (taken choose (.observed registered d n labels)) a
      (a.observe registered d n labels) := by
  rw [taken]
  by_cases hmem : d ∈ registered
  swap
  · rw [observe, if_neg hmem, if_neg (fun h => hmem h.1)]
    exact ⟨rfl, rfl, fun _ => rfl⟩
  cases hr : d.rangeTest n with
  | error reason =>
    rw [observe, if_pos hmem, if_neg (by simp [Except.isOk, Except.toBool]), update, hr]
    exact ⟨rfl, rfl, fun _ => rfl⟩
  | ok _ =>
    cases hg : choose d with
    | none =>
      rw [observe, if_pos hmem, h.update_of_disabled hsel hr _ _ hg, if_neg (by simp)]
      exact ⟨rfl, rfl, fun _ => rfl⟩
    | some g =>
      have hmade : ∀ s, seek (d, labels) a.series = some s → s.MadeFrom (d, labels) g := by
        intro s hs
        obtain ⟨g', hg', hs⟩ := h _ s hs
        obtain rfl : g = g' := Option.some.inj (hg.symm.trans hg')
        exact hs
      rw [observe_eq hsel hg (hnew d g hg) hmade hmem hr,
        if_pos (by simp [Except.isOk, Except.toBool, hmem])]
      exact counted_addTo (k := (d, labels)) hg _ n

/-! ## Passes -/

/-- Reports that are made one after the other from some stamp on. -/
def timed (stamp : Stamp) : List (SeriesKey × Number) → List Sample
  | [] => []
  | u :: us => ⟨u.1, u.2, stamp⟩ :: timed (stamp.after 1) us

theorem timed_append (stamp : Stamp) (us vs : List (SeriesKey × Number)) :
    timed stamp (us ++ vs) = timed stamp us ++ timed (stamp.after us.length) vs := by
  induction us generalizing stamp with
  | nil => rfl
  | cons u us ih =>
    rw [List.cons_append, timed, ih, timed, List.cons_append, List.length_cons, Stamp.after_after,
      Nat.add_comm]

theorem readings_timed_cons (k : SeriesKey) (stamp : Stamp) (u : SeriesKey × Number)
    (us : List (SeriesKey × Number)) :
    readings k (timed stamp (u :: us)) =
      (if u.1 = k then [⟨u.2, stamp⟩] else []) ++ readings k (timed (stamp.after 1) us) := by
  rw [timed, ← List.singleton_append, readings_append, readings_singleton]

theorem readings_timed_eq_nil {k : SeriesKey} {stamp : Stamp} :
    readings k (timed stamp us) = [] ↔ ∀ u ∈ us, u.1 ≠ k := by
  induction us generalizing stamp with
  | nil => simp [timed]
  | cons u us ih =>
    rw [readings_timed_cons, List.append_eq_nil_iff, ih, List.forall_mem_cons]
    simp

theorem readings_timed_rel {R : Nat → Nat → Prop} (us : List (SeriesKey × Number))
    (stamp stamp' : Stamp)
    (h : ∀ i < us.length, R (stamp.sequence + i) (stamp'.sequence + i)) (k : SeriesKey) :
    List.Forall₂
      (fun r r' : Reading => r.value = r'.value ∧ R r.stamp.sequence r'.stamp.sequence)
      (readings k (timed stamp us)) (readings k (timed stamp' us)) := by
  induction us generalizing stamp stamp' with
  | nil => exact .nil
  | cons u us ih =>
    have hrest := ih (stamp.after 1) (stamp'.after 1) fun i hi => by
      rw [Stamp.after, Stamp.after, Nat.add_right_comm, Nat.add_right_comm stamp'.sequence]
      exact h (i + 1) (Nat.succ_lt_succ hi)
    rw [readings_timed_cons, readings_timed_cons]
    split
    · exact .cons ⟨rfl, h 0 (Nat.succ_pos _)⟩ hrest
    · exact hrest

/-- What reports leave of an accumulator: each series that is reported holds the last report of
it, and no other series changes. -/
structure Took (choose : Descriptor → Option Aggregator) (us : List (SeriesKey × Number))
    (a b : Accumulator) : Prop where
  setup : SameSetup a b
  stamp : b.stamp = a.stamp.after us.length
  keys : keys b = enrolAll (keys a) us
  untouched : ∀ k, readings k (timed a.stamp us) = [] → seek k b.series = seek k a.series
  reported : ∀ k r, (readings k (timed a.stamp us)).getLast? = some r →
    ∃ g s, choose k.1 = some g ∧ seek k b.series = some s ∧
      Reported k g a.epoch r.value r.stamp s

theorem took_nil (hsame : SameSetup a b) (hstamp : b.stamp = a.stamp) (hs : b.series = a.series) :
    Took choose [] a b :=
  ⟨hsame, hstamp, by rw [Accumulator.keys, hs]; rfl, fun k _ => by rw [hs], by simp [timed]⟩

theorem Took.trans (h : Took choose us a b) (h' : Took choose vs b c) :
    Took choose (us ++ vs) a c := by
  have htimed : timed a.stamp (us ++ vs) = timed a.stamp us ++ timed b.stamp vs := by
    rw [timed_append, h.stamp]
  refine ⟨h.setup.trans h'.setup, ?_, ?_, fun k hk => ?_, fun k r hr => ?_⟩
  · rw [h'.stamp, h.stamp, List.length_append, Stamp.after_after]
  · rw [h'.keys, h.keys, enrolAll_append]
  · rw [htimed, readings_append, List.append_eq_nil_iff] at hk
    rw [h'.untouched k hk.2, h.untouched k hk.1]
  · rw [htimed, readings_append, List.getLast?_append] at hr
    cases hlast : (readings k (timed b.stamp vs)).getLast? with
    | none =>
      rw [hlast, Option.none_or] at hr
      rw [h'.untouched k (List.getLast?_eq_none_iff.mp hlast)]
      exact h.reported k r hr
    | some r' =>
      rw [hlast, Option.some_or] at hr
      obtain rfl := Option.some.inj hr
      rw [← h.setup.epoch]
      exact h'.reported k r' hlast

theorem Took.allHeld (h : Took choose us a b) (ha : AllHeld choose a) : AllHeld choose b := by
  intro k s hs
  rw [h.setup.epoch]
  cases hlast : (readings k (timed a.stamp us)).getLast? with
  | none =>
    rw [h.untouched k (List.getLast?_eq_none_iff.mp hlast)] at hs
    exact ha k s hs
  | some r =>
    obtain ⟨g, t, hg, ht, hr⟩ := h.reported k r hlast
    obtain rfl : t = s := Option.some.inj (ht.symm.trans hs)
    exact ⟨g, hg, hr.made, fun _ => .inr ⟨_, _, hr⟩⟩

theorem taken_observed {registered : List Descriptor} {d : Descriptor} {n : Number}
    {labels : LabelSet} {x : SeriesKey × Number}
    (h : taken choose (.observed registered d n labels) = some x) :
    x = ((d, labels), n) ∧ d ∈ registered ∧ ∃ g, choose d = some g := by
  rw [taken] at h
  split at h
  next hx => exact ⟨(Option.some.inj h).symm, hx.1, Option.isSome_iff_exists.mp hx.2.2⟩
  next => cases h

section
variable (hnew : ∀ d g, choose d = some g → Aggregator.IsNew d g)
include hnew

theorem AllHeld.took_observe (h : AllHeld choose a) (ha : a.selector = .ofFunction choose)
    {registered : List Descriptor} (hr : ∀ d ∈ registered, d.kind.isSynchronous = false)
    (d : Descriptor) (n : Number) (labels : LabelSet) :
    Took choose (taken choose (.observed registered d n labels)).toList a
      (a.observe registered d n labels) := by
  have hm := measured_observe ha registered d n labels
  have hc := h.allMade.counted_observe ha hnew registered d n labels
  cases ht : taken choose (.observed registered d n labels) with
  | none =>
    rw [ht] at hc
    exact took_nil hm.setup hc.stamp (hc.unchanged rfl)
  | some x =>
    obtain ⟨rfl, hmem, g, hg⟩ := taken_observed ht
    rw [ht] at hc
    refine ⟨hm.setup, hc.stamp, hc.keys, fun k hk => ?_, fun k r hlast => ?_⟩
    · refine hm.frame k fun hx => ?_
      simp [timed, readings, hx] at hk
    · obtain ⟨rfl, rfl⟩ : (d, labels) = k ∧ (⟨n, a.stamp⟩ : Reading) = r := by
        by_cases hk : (d, labels) = k <;> simp_all [timed, readings]
      have hmade : ∀ s, seek (d, labels) a.series = some s → s.MadeFrom (d, labels) g := by
        intro s hs
        obtain ⟨g', hg', hs, -⟩ := h _ s hs
        obtain rfl : g = g' := Option.some.inj (hg.symm.trans hg')
        exact hs
      have hgiven : given? choose (d, labels) (.observed registered d n labels) = some n := by
        rw [given?, ht]
        simp
      have hseek := seek_observe_given (k := (d, labels)) ha hg (hnew d g hg) hmade registered d n
        labels
      rw [hgiven, Option.map_some, Option.some_or] at hseek
      refine ⟨g, _, hg, hseek, ?_⟩
      cases hs : seek (d, labels) a.series with
      | none => exact (rested_opened (hnew d g hg) a.epoch).report (hnew d g hg) n a.stamp
      | some s =>
        obtain ⟨g', hg', -, hs⟩ := h _ s hs
        obtain rfl : g = g' := Option.some.inj (hg.symm.trans hg')
        rcases hs (hr d hmem) with hs | ⟨m, stamp, hs⟩
        · exact hs.report (hnew d g hg) n a.stamp
        · exact hs.report (hnew d g hg) n a.stamp

theorem AllHeld.took_perform (cx : Context) {registered : List Descriptor}
    (hr : ∀ d ∈ registered, d.kind.isSynchronous = false) {actions : List CallbackAction}
    (hsteady : ∀ action ∈ actions, action.isObservation = true ∨ action.isCancel = true)
    (h : AllHeld choose a) (ha : a.selector = .ofFunction choose) :
    let r := perform cx registered actions a
    r.2 = .ok () ∧ r.1.observers = a.observers ∧
      Took choose ((performed registered actions).filterMap (taken choose)) a r.1 := by
  induction actions generalizing a with
  | nil => exact ⟨rfl, rfl, took_nil (.refl a) rfl rfl⟩
  | cons action rest ih =>
    obtain ⟨haction, hrest⟩ := List.forall_mem_cons.mp hsteady
    cases action with
    | observe d n labels =>
      have hone := h.took_observe hnew ha hr d n labels
      obtain ⟨hok, hobservers, hall⟩ :=
        ih hrest (hone.allHeld h) (hone.setup.selector.trans ha)
      refine ⟨hok, hobservers.trans (measured_observe ha ..).observers, ?_⟩
      have hboth := hone.trans hall
      rw [performed, List.filterMap_cons]
      cases ht : taken choose (.observed registered d n labels) with
      | none =>
        rw [ht] at hboth
        exact hboth
      | some x =>
        rw [ht] at hboth
        exact hboth
    | cancel =>
      have hone : Took choose [] a (a.cancel cx) ∧ (a.cancel cx).observers = a.observers := by
        rw [cancel]
        cases cx.flag <;> exact ⟨took_nil ⟨rfl, rfl, rfl, rfl, rfl⟩ rfl rfl, rfl⟩
      obtain ⟨hok, hobservers, hall⟩ :=
        ih hrest (hone.1.allHeld h) (hone.1.setup.selector.trans ha)
      exact ⟨hok, hobservers.trans hone.2, hone.1.trans hall⟩
    | record | register | note | fail | panic =>
      simp [CallbackAction.isObservation, CallbackAction.isCancel] at haction

end

def callbacks (a : Accumulator) : List Observer := a.observers.map Observer.fresh

/-- What all callbacks report, in order. -/
def reports (choose : Descriptor → Option Aggregator) (a : Accumulator) :
    List (SeriesKey × Number) := (callbacks a).flatMap (Observer.reports choose)

def reportsAt (choose : Descriptor → Option Aggregator) (os : List Observer) (i : Nat) :
    List (SeriesKey × Number) := os[i]?.elim [] (Observer.reports choose)

theorem flatMap_reportsAt (os : List Observer) :
    (List.range os.length).flatMap (reportsAt choose os) =
      os.flatMap (Observer.reports choose) := by
  have hall : (List.range os.length).map (os[·]?) = os.map some := by
    refine List.ext_getElem (by simp) fun i hi hi' => ?_
    have hlt : i < os.length := by simpa using hi
    simp [hlt]
  calc (List.range os.length).flatMap (reportsAt choose os)
      = ((List.range os.length).map (os[·]?)).flatMap
          fun o? => o?.elim [] (Observer.reports choose) := by rw [List.flatMap_map]; rfl
    _ = (os.map some).flatMap fun o? => o?.elim [] (Observer.reports choose) := by rw [hall]
    _ = os.flatMap (Observer.reports choose) := List.flatMap_map ..

section
variable (hnew : ∀ d g, choose d = some g → Aggregator.IsNew d g)
include hnew

theorem AllHeld.took_callObserver (cx : Context) (i : Nat) (h : AllHeld choose a)
    (ha : Sound choose a) (hs : ∀ o ∈ callbacks a, Steady o.calls) :
    let r := callObserver cx i a
    callbacks r.1 = callbacks a ∧ Took choose (reportsAt choose (callbacks a) i) a r.1 := by
  rw [callObserver, reportsAt, callbacks, List.getElem?_map]
  cases ho : a.observers[i]? with
  | none => exact ⟨rfl, took_nil (.refl a) rfl rfl⟩
  | some o =>
    have hmem : o ∈ a.observers := List.mem_of_getElem? ho
    have hsteady : Steady o.calls := hs o.fresh (List.mem_map.mpr ⟨o, hmem, rfl⟩)
    let b : Accumulator :=
      { a with observers := a.observers.set i { o with called := o.called + 1 } }
    obtain ⟨hok, hobservers, htook⟩ := AllHeld.took_perform (a := b) hnew cx
      (ha.asynchronous o hmem) (Observer.action_of_steady hsteady) h ha.selector
    rw [Observer.reports_of_steady choose hsteady] at htook
    have hcallbacks : b.observers.map Observer.fresh = a.observers.map Observer.fresh := by
      refine List.ext_getElem? fun j => ?_
      rw [List.map_set]
      by_cases hj : i = j
      · subst hj
        obtain ⟨hi, -⟩ := List.getElem?_eq_some_iff.mp ho
        rw [List.getElem?_set_self (by simpa using hi), List.getElem?_map, ho]
        rfl
      · rw [List.getElem?_set_ne hj]
    rcases hr : perform cx o.descriptors o.nextActions b with ⟨d, res⟩
    rw [hr] at hok hobservers htook
    obtain rfl : res = .ok () := hok
    simp only [b] at hr
    simp only [hr]
    refine ⟨?_, ?_⟩
    · rw [← hcallbacks, ← hobservers]
      rfl
    · have hb : SameSetup a b := ⟨rfl, rfl, rfl, rfl, rfl⟩
      exact ⟨hb.trans htook.setup, htook.stamp, htook.keys, htook.untouched, htook.reported⟩

theorem AllHeld.took_callObservers (cx : Context) (is : List Nat) (h : AllHeld choose a)
    (ha : Sound choose a) (hs : ∀ o ∈ callbacks a, Steady o.calls) :
    let r := callObservers cx is a
    callbacks r.1 = callbacks a ∧
      ∃ us, us <+: is.flatMap (reportsAt choose (callbacks a)) ∧ Took choose us a r.1 ∧
        (r.2.isOk = true → us = is.flatMap (reportsAt choose (callbacks a))) := by
  induction is generalizing a with
  | nil => exact ⟨rfl, [], List.nil_prefix, took_nil (.refl a) rfl rfl, fun _ => rfl⟩
  | cons i is ih =>
    rw [callObservers]
    split
    · exact ⟨rfl, [], List.nil_prefix, took_nil (.refl a) rfl rfl, fun hx => by cases hx⟩
    · obtain ⟨hcallbacks, hone⟩ := h.took_callObserver hnew cx i ha hs
      have hsound : Sound choose (callObserver cx i a).1 :=
        (@Kept.callObserver _ _ [] _ kept_true cx i ha trivial).1
      obtain ⟨hall, us, hus, htook, hok⟩ :=
        ih (hone.allHeld h) hsound (by rw [hcallbacks]; exact hs)
      rw [hcallbacks] at hall hus hok
      refine ⟨hall, _, (List.prefix_append_right_inj _).mpr hus, hone.trans htook, fun hx => ?_⟩
      rw [List.flatMap_cons, hok]
      cases hr : (callObservers cx is (callObserver cx i a).1).2 with
      | ok errors => rfl
      | error cause => simp [hr, Except.map, Except.isOk, Except.toBool] at hx

/-- The calls of a collection leave some first reports, and all of them if nothing cancels. -/
theorem AllHeld.took_afterCallbacks (cx : Context) (h : AllHeld choose a)
    (ha : Sound choose a) (hs : ∀ o ∈ callbacks a, Steady o.calls) :
    callbacks (a.afterCallbacks cx) = callbacks a ∧
      ∃ us, us <+: reports choose a ∧ Took choose us a (a.afterCallbacks cx) ∧
        ((callObservers cx (List.range a.observers.length) a).2.isOk = true →
          us = reports choose a) := by
  have hlength : a.observers.length = (callbacks a).length := by rw [callbacks, List.length_map]
  have hall := h.took_callObservers hnew cx (List.range a.observers.length) ha hs
  rw [hlength, flatMap_reportsAt, ← hlength] at hall
  exact hall

end

/-! ## Cancellation between the calls -/

/-- What the first callbacks leave, if they are called one after the other. -/
def afterFirst (cx : Context) (j : Nat) (a : Accumulator) : Accumulator :=
  (List.range j).foldl (fun a i => (callObserver cx i a).1) a

theorem callObservers_ok {cx : Context} {is : List Nat} {errors : List MetricsError}
    (h : (callObservers cx is a).2 = .ok errors) :
    (callObservers cx is a).1 = is.foldl (fun a i => (callObserver cx i a).1) a ∧
      ∀ js i rest, is = js ++ i :: rest →
        (js.foldl (fun a i => (callObserver cx i a).1) a).isCancelled cx = false := by
  induction is generalizing a errors with
  | nil => exact ⟨rfl, by simp⟩
  | cons i is ih =>
    rw [callObservers] at h ⊢
    split at h
    · cases h
    next hgo =>
      rw [if_neg hgo]
      cases hr : (callObservers cx is (callObserver cx i a).1).2 with
      | error cause => simp [hr, Except.map] at h
      | ok errors' =>
        obtain ⟨hall, hchecks⟩ := ih hr
        refine ⟨hall, fun js k rest hjs => ?_⟩
        cases js with
        | nil => simpa using hgo
        | cons j js =>
          obtain ⟨rfl, hrest⟩ := List.cons.inj hjs
          exact hchecks js k rest hrest

theorem callObservers_of_not_cancelled {cx : Context} {is : List Nat}
    (h : ∀ js i rest, is = js ++ i :: rest →
      (js.foldl (fun a i => (callObserver cx i a).1) a).isCancelled cx = false) :
    ∃ errors, (callObservers cx is a).2 = .ok errors := by
  induction is generalizing a with
  | nil => exact ⟨[], rfl⟩
  | cons i is ih =>
    have hgo : a.isCancelled cx = false := h [] i is rfl
    obtain ⟨errors, hrest⟩ := ih (a := (callObserver cx i a).1) fun js k rest hjs =>
      h (i :: js) k rest (by rw [hjs]; rfl)
    refine ⟨(callObserver cx i a).2.toList ++ errors, ?_⟩
    rw [callObservers, hgo, if_neg Bool.false_ne_true]
    simp only [hrest, Except.map]

/-- Whether a collection finds its context cancelled: before the first callback, between two of
them, or after the last one. -/
def FindsCancelled (cx : Context) (a : Accumulator) : Prop :=
  ∃ j ≤ a.observers.length, (afterFirst cx j a).isCancelled cx = true

/-- A collection gets to its sweep unless it finds its context cancelled. -/
theorem not_findsCancelled_iff {cx : Context} (ha : a.isPoisoned = false) :
    ¬FindsCancelled cx a ↔ ∃ errors, Proceeds cx a errors := by
  constructor
  · intro h
    have hgo : ∀ j ≤ a.observers.length, (afterFirst cx j a).isCancelled cx = false := by
      intro j hj
      by_contra hcancelled
      exact h ⟨j, hj, by simpa using hcancelled⟩
    obtain ⟨errors, hcalled⟩ : ∃ errors,
        (callObservers cx (List.range a.observers.length) a).2 = .ok errors := by
      refine callObservers_of_not_cancelled fun js i rest hjs => ?_
      have hlt : js.length < a.observers.length := by
        have hlength := congrArg List.length hjs
        simp only [List.length_range, List.length_append, List.length_cons] at hlength
        omega
      have hrange : js = List.range js.length := by
        have htake := congrArg (List.take js.length) hjs
        rw [List.take_range, min_eq_left hlt.le, List.take_left] at htake
        exact htake.symm
      rw [hrange]
      exact hgo js.length hlt.le
    refine ⟨errors, ha, hcalled, ?_⟩
    rw [afterCallbacks, (callObservers_ok hcalled).1]
    exact hgo a.observers.length (le_refl _)
  · rintro ⟨errors, hp⟩ ⟨j, hj, h⟩
    obtain ⟨hall, hchecks⟩ := callObservers_ok hp.called
    have hgo : (afterFirst cx j a).isCancelled cx = false := by
      rcases hj.eq_or_lt with rfl | hlt
      · rw [afterFirst, ← hall]
        exact hp.goesOn
      · obtain ⟨m, hm⟩ := Nat.exists_eq_add_of_le (Nat.succ_le_of_lt hlt)
        refine hchecks (List.range j) j ((List.range m).map (j + 1 + ·)) ?_
        rw [hm, List.range_add, List.range_succ, List.append_assoc]
        rfl
    rw [hgo] at h
    cases h

end Accumulator
end Metering
