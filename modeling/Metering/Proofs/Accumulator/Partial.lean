import Metering.Proofs.Accumulator.Indifference

/-!
# Callbacks that fail

A callback that ends with an error or a panic has done what it did up to there. The collection goes
on as if the callback had ended there by itself, and says at its end which errors there were.
-/

namespace Metering

/-! ## What a callback does until it ends -/

/-- How an action ends the callback, if it does. -/
def CallbackAction.halt? : CallbackAction → Option Halt
  | .fail error => some (.error error)
  | .panic cause => some (.panic cause)
  | _ => none

/-- The actions of a callback that ends by itself where the given one fails. -/
def CallbackAction.mended (actions : List CallbackAction) : List CallbackAction :=
  actions.takeWhile (·.halt?.isNone)

/-- The callback that an action registers. -/
def CallbackAction.enrols? : CallbackAction → Option Observer
  | .register descriptors calls =>
    if descriptors.any (·.kind.isSynchronous) then none else some { descriptors, calls }
  | _ => none

/-- The callbacks that actions register. -/
def CallbackAction.enrolled (actions : List CallbackAction) : List Observer :=
  (mended actions).filterMap enrols?

namespace Observer

/-- A callback that makes the same observations, but never fails. -/
def mended (o : Observer) : Observer := { o with calls := o.calls.map CallbackAction.mended }

/-- The callback after one more call. -/
def stepped (o : Observer) : Observer := { o with called := o.called + 1 }

/-- The error by which the next call of a callback is reported, if it fails. -/
def error? (o : Observer) : Option MetricsError :=
  (o.nextActions.findSome? (·.halt?)).map Accumulator.callbackError

theorem nextActions_mended (o : Observer) :
    o.mended.nextActions = CallbackAction.mended o.nextActions := by
  rw [nextActions, nextActions, mended, List.length_map, List.getD_eq_getElem?_getD,
    List.getD_eq_getElem?_getD, List.getElem?_map]
  cases o.calls[min o.called (o.calls.length - 1)]? <;> rfl

end Observer

namespace Accumulator

/-- The accumulator with callbacks that make the same observations, but never fail. -/
def mended (a : Accumulator) : Accumulator :=
  { a with observers := a.observers.map Observer.mended }

/-- The errors of the callbacks that fail at their next call, in the order of registration. -/
def failures (a : Accumulator) : List MetricsError := a.observers.filterMap Observer.error?

/-- A result to which failures of callbacks are added. -/
def reporting (failures : List MetricsError) : Except Halt Nat → Except Halt Nat
  | .ok n => if failures.isEmpty then .ok n else .error (.error (.partialCollection n failures))
  | .error halt => .error halt

variable {cx : Context} {registered : List Descriptor} {a b : Accumulator}

theorem mended_cons {action : CallbackAction} (h : action.halt? = none)
    (rest : List CallbackAction) :
    CallbackAction.mended (action :: rest) = action :: CallbackAction.mended rest := by
  simp [CallbackAction.mended, h]

theorem performed_mended (registered : List Descriptor) (actions : List CallbackAction) :
    performed registered (CallbackAction.mended actions) = performed registered actions := by
  induction actions with
  | nil => rfl
  | cons action rest ih =>
    cases action with
    | fail error => rfl
    | panic cause => rfl
    | _ =>
      rw [mended_cons rfl]
      simp only [performed, ih]

theorem perform_eq (cx : Context) (registered : List Descriptor) (actions : List CallbackAction)
    (a : Accumulator) :
    perform cx registered actions a =
        ((perform cx registered (CallbackAction.mended actions) a).1,
          (actions.findSome? (·.halt?)).elim (.ok ()) .error) ∧
      (perform cx registered (CallbackAction.mended actions) a).2 = .ok () := by
  induction actions generalizing a with
  | nil => exact ⟨rfl, rfl⟩
  | cons action rest ih =>
    cases action with
    | fail error => exact ⟨rfl, rfl⟩
    | panic cause => exact ⟨rfl, rfl⟩
    | _ =>
      rw [mended_cons rfl]
      exact ih _

theorem findSome?_mended (actions : List CallbackAction) :
    (CallbackAction.mended actions).findSome? (·.halt?) = none := by
  refine List.findSome?_eq_none_iff.mpr fun action haction => ?_
  simpa using List.mem_takeWhile_imp haction

theorem mended_mended (actions : List CallbackAction) :
    CallbackAction.mended (CallbackAction.mended actions) = CallbackAction.mended actions :=
  List.takeWhile_eq_self_iff.mpr fun _ haction =>
    List.mem_takeWhile_imp (p := fun action : CallbackAction => action.halt?.isNone) haction

theorem error?_mended (o : Observer) : o.mended.error? = none := by
  rw [Observer.error?, Observer.nextActions_mended, findSome?_mended]
  rfl

theorem enrolled_cons {action : CallbackAction} (h : action.halt? = none)
    (rest : List CallbackAction) :
    CallbackAction.enrolled (action :: rest) =
      action.enrols?.toList ++ CallbackAction.enrolled rest := by
  rw [CallbackAction.enrolled, mended_cons h, List.filterMap_cons]
  cases action.enrols? <;> rfl

theorem observers_register (a : Accumulator) (descriptors : List Descriptor)
    (calls : List (List CallbackAction)) :
    (a.register descriptors calls).1.observers =
      a.observers ++ (CallbackAction.register descriptors calls).enrols?.toList := by
  rw [register, CallbackAction.enrols?]
  cases hsync : descriptors.find? (·.kind.isSynchronous) with
  | some d =>
    have hany : descriptors.any (·.kind.isSynchronous) = true :=
      List.any_eq_true.mpr ⟨d, List.mem_of_find?_eq_some hsync,
        List.find?_some (p := fun d : Descriptor => d.kind.isSynchronous) hsync⟩
    rw [if_pos hany]
    exact (List.append_nil _).symm
  | none =>
    have hany : ¬descriptors.any (·.kind.isSynchronous) = true := by
      simpa using List.find?_eq_none.mp hsync
    rw [if_neg hany]
    rfl

theorem observers_perform (cx : Context) (registered : List Descriptor)
    (actions : List CallbackAction) (a : Accumulator) :
    (perform cx registered actions a).1.observers =
      a.observers ++ CallbackAction.enrolled actions := by
  induction actions generalizing a with
  | nil => exact (List.append_nil _).symm
  | cons action rest ih =>
    cases action with
    | observe d n labels =>
      rw [perform, ih, observers_observe]
      rfl
    | record m =>
      rw [perform, ih, observers_record]
      rfl
    | register descriptors calls =>
      rw [perform, ih, enrolled_cons rfl, ← List.append_assoc, ← observers_register]
      rfl
    | cancel =>
      rw [perform, ih, cancel]
      cases cx.flag <;> rfl
    | note text =>
      rw [perform, ih]
      rfl
    | fail error => exact (List.append_nil _).symm
    | panic cause => exact (List.append_nil _).symm

theorem callObserver_eq {i : Nat} {o : Observer} (ho : a.observers[i]? = some o) (cx : Context) :
    let b := (perform cx o.descriptors (CallbackAction.mended o.nextActions)
      { a with observers := a.observers.set i o.stepped }).1
    callObserver cx i a =
      (o.error?.elim b fun error => b.log (.observerFailed error), o.error?) := by
  intro b
  obtain ⟨hperform, -⟩ := perform_eq cx o.descriptors o.nextActions
    { a with observers := a.observers.set i o.stepped }
  rw [callObserver, ho]
  simp only [Observer.error?]
  rw [show ({ o with called := o.called + 1 } : Observer) = o.stepped from rfl, hperform]
  cases o.nextActions.findSome? (·.halt?) <;> rfl

/-! ## One run -/

theorem observers_callObserver {i : Nat} {o : Observer} (ho : a.observers[i]? = some o)
    (cx : Context) :
    (callObserver cx i a).1.observers =
      a.observers.set i o.stepped ++ CallbackAction.enrolled o.nextActions := by
  have hperform := observers_perform cx o.descriptors (CallbackAction.mended o.nextActions)
    { a with observers := a.observers.set i o.stepped }
  rw [CallbackAction.enrolled, mended_mended] at hperform
  rw [callObserver_eq ho]
  cases o.error? <;> exact hperform

/-- Unless they are cancelled, the callbacks are called once each and in order. Those that they
register are not called. -/
theorem callObservers_each (cx : Context) (done rest new : List Observer)
    (h : a.observers = done ++ rest ++ new) :
    let is := List.range' done.length rest.length
    let called := callObservers cx is a
    called.2 = .error .cancelled ∨
      called.2 = .ok (rest.filterMap Observer.error?) ∧
        called.1.observers = done ++ rest.map Observer.stepped ++ new ++
          rest.flatMap (fun o => CallbackAction.enrolled o.nextActions) ∧
        calledAll cx is a = rest.flatMap fun o => performed o.descriptors o.nextActions := by
  induction rest generalizing a done new with
  | nil => exact .inr ⟨rfl, by simpa [callObservers] using h, rfl⟩
  | cons o rest ih =>
    have ho : a.observers[done.length]? = some o := by
      rw [h, List.append_assoc, List.getElem?_append_right (le_refl _), Nat.sub_self]
      rfl
    have hnext : (callObserver cx done.length a).1.observers =
        (done ++ [o.stepped]) ++ rest ++ (new ++ CallbackAction.enrolled o.nextActions) := by
      rw [observers_callObserver ho, h, List.append_assoc, List.set_append_right _ _ (le_refl _),
        Nat.sub_self]
      simp
    have hcalled : called done.length a = performed o.descriptors o.nextActions := by
      rw [called, ho]
      rfl
    have herror : (callObserver cx done.length a).2 = o.error? := by rw [callObserver_eq ho]
    have hrest := ih _ _ hnext
    rw [List.length_append, List.length_singleton] at hrest
    dsimp only
    rw [List.length_cons, List.range'_succ, callObservers, calledAll]
    by_cases hcancelled : a.isCancelled cx = true
    · exact .inl (by rw [if_pos hcancelled])
    · rw [if_neg hcancelled, if_neg hcancelled]
      dsimp only
      obtain hstopped | ⟨hresult, hobservers, hdeeds⟩ := hrest
      · exact .inl (by rw [hstopped]; rfl)
      · refine .inr ⟨?_, ?_, ?_⟩
        · rw [hresult, herror, List.filterMap_cons]
          cases o.error? <;> rfl
        · rw [hobservers]
          simp
        · rw [hcalled, hdeeds]
          rfl

/-! ## Two runs -/

/-- Accumulators that differ in what happened, and in that some callbacks of the second, the first
ones, never fail. -/
def Mending (n : Nat) (a b : Accumulator) : Prop :=
  ∃ old new events, old.length = n ∧ a.observers = old ++ new ∧
    b = a.furnished (old.map Observer.mended ++ new) events

section
variable {n : Nat}

theorem mending_mended (a : Accumulator) : Mending a.observers.length a a.mended :=
  ⟨a.observers, [], a.events, rfl, (List.append_nil _).symm, by
    rw [List.append_nil]
    rfl⟩

theorem Mending.emit (h : Mending n a b) (e e' : Event) : Mending n (a.emit e) (b.emit e') := by
  obtain ⟨old, new, events, hn, ha, rfl⟩ := h
  exact ⟨old, new, _, hn, ha, rfl⟩

theorem Mending.log (h : Mending n a b) (entry : LogEntry) : Mending n (a.log entry) b := by
  obtain ⟨old, new, events, hn, ha, rfl⟩ := h
  exact ⟨old, new, events, hn, ha, rfl⟩

theorem Mending.isCancelled (h : Mending n a b) (cx : Context) :
    b.isCancelled cx = a.isCancelled cx := by
  obtain ⟨old, new, events, hn, ha, rfl⟩ := h
  rfl

theorem Mending.record (h : Mending n a b) (m : Measurement) :
    Mending n (a.record m) (b.record m) := by
  obtain ⟨old, new, events, hn, ha, rfl⟩ := h
  obtain ⟨events', hrecord⟩ :=
    record_furnished a (old.map Observer.mended ++ new) events m
  exact ⟨old, new, events', hn, (observers_record a m).trans ha, hrecord⟩

theorem Mending.observe (h : Mending n a b) (registered : List Descriptor) (d : Descriptor)
    (number : Number) (labels : LabelSet) :
    Mending n (a.observe registered d number labels) (b.observe registered d number labels) := by
  obtain ⟨old, new, events, hn, ha, rfl⟩ := h
  obtain ⟨events', hobserve⟩ :=
    observe_furnished a (old.map Observer.mended ++ new) events registered d number labels
  exact ⟨old, new, events', hn, (observers_observe a registered d number labels).trans ha,
    hobserve⟩

theorem Mending.register (h : Mending n a b) (descriptors : List Descriptor)
    (calls : List (List CallbackAction)) :
    Mending n (a.register descriptors calls).1 (b.register descriptors calls).1 := by
  obtain ⟨old, new, events, hn, ha, rfl⟩ := h
  rw [Accumulator.register, Accumulator.register]
  cases descriptors.find? (·.kind.isSynchronous) with
  | some d => exact ⟨old, new, events, hn, ha, rfl⟩
  | none =>
    refine ⟨old, new ++ [({ descriptors, calls } : Observer)], events, hn, ?_, ?_⟩
    · dsimp only
      rw [ha, List.append_assoc]
    · rw [← List.append_assoc]
      rfl

theorem Mending.cancel (h : Mending n a b) (cx : Context) :
    Mending n (a.cancel cx) (b.cancel cx) := by
  obtain ⟨old, new, events, hn, ha, rfl⟩ := h
  rw [Accumulator.cancel, Accumulator.cancel]
  cases cx.flag <;> exact ⟨old, new, events, hn, ha, rfl⟩

theorem Mending.perform (cx : Context) (registered : List Descriptor)
    (actions : List CallbackAction) (h : Mending n a b) :
    Mending n (perform cx registered actions a).1 (perform cx registered actions b).1 := by
  induction actions generalizing a b with
  | nil => exact h
  | cons action rest ih =>
    cases action with
    | observe d number labels => exact ih (h.observe registered d number labels)
    | record m => exact ih (h.record m)
    | register descriptors calls => exact ih ((h.register descriptors calls).emit _ _)
    | cancel => exact ih (h.cancel cx)
    | note text => exact ih (h.emit _ _)
    | fail error => exact h
    | panic cause => exact h

theorem Mending.next (h : Mending n a b) {i : Nat} (hi : i < n) :
    ∃ o, a.observers[i]? = some o ∧ b.observers[i]? = some o.mended ∧
      Mending n { a with observers := a.observers.set i o.stepped }
        { b with observers := b.observers.set i o.mended.stepped } := by
  obtain ⟨old, new, events, hn, ha, rfl⟩ := h
  have hold : i < old.length := hn ▸ hi
  have hmended : i < (old.map Observer.mended).length := by rwa [List.length_map]
  refine ⟨old[i], ?_, ?_, old.set i old[i].stepped, new, events, by rw [List.length_set, hn],
    ?_, ?_⟩
  · rw [ha, List.getElem?_append_left hold, List.getElem?_eq_getElem hold]
  · show (old.map Observer.mended ++ new)[i]? = _
    rw [List.getElem?_append_left hmended, List.getElem?_map, List.getElem?_eq_getElem hold]
    rfl
  · dsimp only
    rw [ha, List.set_append_left _ _ hold]
  · rw [List.map_set]
    show ({ a.furnished _ events with
      observers := (old.map Observer.mended ++ new).set i old[i].mended.stepped } :
        Accumulator) = _
    rw [List.set_append_left _ _ hmended]
    rfl

theorem Mending.callObserver (h : Mending n a b) {i : Nat} (hi : i < n) (cx : Context) :
    (callObserver cx i b).2 = none ∧ called i b = called i a ∧
      Mending n (callObserver cx i a).1 (callObserver cx i b).1 := by
  obtain ⟨o, ho, ho', hnext⟩ := h.next hi
  have hperform := hnext.perform cx o.descriptors (CallbackAction.mended o.nextActions)
  rw [callObserver_eq ho, callObserver_eq ho', error?_mended, Observer.nextActions_mended,
    mended_mended]
  refine ⟨rfl, ?_, ?_⟩
  · rw [called, called, ho, ho']
    show performed o.descriptors o.mended.nextActions = _
    rw [Observer.nextActions_mended, performed_mended]
    rfl
  · cases o.error? with
    | none => exact hperform
    | some error => exact hperform.log _

/-- Callbacks and their mended versions make the same calls, except that only the first may
fail. -/
theorem Mending.callObservers (h : Mending n a b) (is : List Nat) (his : ∀ i ∈ is, i < n)
    (cx : Context) :
    (callObservers cx is b).2 = (callObservers cx is a).2.map (fun _ => []) ∧
      calledAll cx is b = calledAll cx is a ∧
      Mending n (callObservers cx is a).1 (callObservers cx is b).1 := by
  induction is generalizing a b with
  | nil => exact ⟨rfl, rfl, h⟩
  | cons i is ih =>
    obtain ⟨hi, his⟩ := List.forall_mem_cons.mp his
    obtain ⟨hnone, hcalled, hnext⟩ := h.callObserver hi cx
    obtain ⟨hresult, hdeeds, hrest⟩ := ih hnext his
    rw [Accumulator.callObservers, Accumulator.callObservers, calledAll, calledAll, h.isCancelled]
    by_cases hcancelled : a.isCancelled cx = true
    · rw [if_pos hcancelled, if_pos hcancelled, if_pos hcancelled, if_pos hcancelled]
      exact ⟨rfl, rfl, h⟩
    · rw [if_neg hcancelled, if_neg hcancelled, if_neg hcancelled, if_neg hcancelled, hcalled,
        hdeeds]
      refine ⟨?_, rfl, hrest⟩
      dsimp only
      rw [hresult, hnone]
      cases (Accumulator.callObservers cx is (Accumulator.callObserver cx i a).1).2 <;> rfl

end

/-! ## Collections -/

variable {σ : Type} (step : ProcessorStep σ) (p : σ)

theorem afterCallbacks_each (cx : Context) (a : Accumulator) :
    let called := callObservers cx (List.range a.observers.length) a
    called.2 = .error .cancelled ∨
      called.2 = .ok a.failures ∧
        called.1.observers = a.observers.map Observer.stepped ++
          a.observers.flatMap (fun o => CallbackAction.enrolled o.nextActions) ∧
        calledAll cx (List.range a.observers.length) a =
          a.observers.flatMap fun o => performed o.descriptors o.nextActions := by
  have heach := callObservers_each cx [] a.observers [] (show a.observers = _ by simp)
  simpa [List.range_eq_range', failures] using heach

theorem afterCallbacks_mended (cx : Context) (a : Accumulator) :
    (callObservers cx (List.range a.mended.observers.length) a.mended).2 =
        (callObservers cx (List.range a.observers.length) a).2.map (fun _ => []) ∧
      calledAll cx (List.range a.mended.observers.length) a.mended =
        calledAll cx (List.range a.observers.length) a ∧
      ∃ observers events, a.mended.afterCallbacks cx =
        (a.afterCallbacks cx).furnished observers events := by
  have hlength : a.mended.observers.length = a.observers.length := List.length_map _
  obtain ⟨hresult, hdeeds, old, new, events, -, -, hb⟩ :=
    (mending_mended a).callObservers (List.range a.observers.length)
      (fun i hi => List.mem_range.mp hi) cx
  rw [afterCallbacks, hlength]
  exact ⟨hresult, hdeeds, old.map Observer.mended ++ new, events, hb⟩

theorem failures_mended (a : Accumulator) : a.mended.failures = [] := by
  refine List.filterMap_eq_nil_iff.mpr fun o ho => ?_
  obtain ⟨original, -, rfl⟩ := List.mem_map.mp ho
  exact error?_mended original

theorem Proceeds.errors_eq {errors : List MetricsError} (h : Proceeds cx a errors) :
    errors = a.failures := by
  obtain hcancelled | ⟨hcalled, -⟩ := afterCallbacks_each cx a
  · cases h.called.symm.trans hcancelled
  · exact Except.ok.inj (h.called.symm.trans hcalled)

theorem proceeds_mended : Proceeds cx a.mended [] ↔ Proceeds cx a a.failures := by
  obtain ⟨hresult, -, observers, events, hafter⟩ := afterCallbacks_mended cx a
  have hgoesOn : (a.mended.afterCallbacks cx).isCancelled cx =
      (a.afterCallbacks cx).isCancelled cx := by rw [hafter]; rfl
  constructor
  · rintro ⟨hintact, hcalled, hon⟩
    rw [hresult] at hcalled
    obtain hcancelled | ⟨hok, -⟩ := afterCallbacks_each cx a
    · rw [hcancelled] at hcalled
      cases hcalled
    · exact ⟨hintact, hok, hgoesOn ▸ hon⟩
  · rintro ⟨hintact, hcalled, hon⟩
    exact ⟨hintact, by rw [hresult, hcalled]; rfl, hgoesOn ▸ hon⟩

/-- A collection whose callbacks fail ends as if they did not, up to the errors that it reports. -/
theorem collect_mended (cx : Context) (a : Accumulator) :
    let r := collect cx step p a
    let r' := collect cx step p a.mended
    r.2.1 = r'.2.1 ∧ r.2.2 = reporting a.failures r'.2.2 ∧
      ∃ observers events, r'.1 = r.1.furnished observers events := by
  intro r r'
  cases hpoisoned : a.isPoisoned with
  | true =>
    have hr : r = (a, p, .error (.error .poisoned)) := if_pos hpoisoned
    have hr' : r' = (a.mended, p, .error (.error .poisoned)) := if_pos hpoisoned
    rw [hr, hr']
    exact ⟨rfl, rfl, a.observers.map Observer.mended, a.events, rfl⟩
  | false =>
    obtain ⟨-, -, observers, events, hafter⟩ := afterCallbacks_mended cx a
    by_cases hp : Proceeds cx a a.failures
    · have hp' := proceeds_mended.mpr hp
      obtain ⟨events', hsweep⟩ :=
        sweep_furnished (a.afterCallbacks cx) observers events step p
      rw [← hafter] at hsweep
      cases hs : (sweep step p (a.afterCallbacks cx)).2.2 with
      | ok n =>
        have hr : r = _ := hp.collect_of_ok hs
        have hr' : r' = _ := hp'.collect_of_ok (by rw [hsweep]; exact hs)
        rw [hr, hr', hsweep]
        exact ⟨rfl, rfl, observers, events', rfl⟩
      | error cause =>
        have hr : r = _ := hp.collect_of_panic hs
        have hr' : r' = _ := hp'.collect_of_panic (by rw [hsweep]; exact hs)
        rw [hr, hr', hsweep]
        exact ⟨rfl, rfl, observers, events', rfl⟩
    · have hr : r = _ := collect_of_not_proceeds hpoisoned
        (fun errors h => hp (h.errors_eq ▸ h)) step p
      have hr' : r' = _ := collect_of_not_proceeds (a := a.mended) hpoisoned
        (fun errors h => hp (proceeds_mended.mp (failures_mended a ▸ h.errors_eq ▸ h))) step p
      rw [hr, hr', hafter]
      exact ⟨rfl, rfl, observers, events, rfl⟩

theorem collected_mended (cx : Context) (a : Accumulator) :
    collected cx step p a.mended = collected cx step p a := by
  obtain ⟨hlog, -⟩ := collect_mended (logged step) (p, []) cx a
  obtain ⟨-, hdeeds, -⟩ := afterCallbacks_mended cx a
  rw [collected, collected, hlog, hdeeds]
  rfl

theorem collect_mended_halt {cx : Context} {a : Accumulator} {halt : Halt}
    (h : (collect cx step p a.mended).2.2 = .error halt) :
    halt = .error .poisoned ∧ a.isPoisoned = true ∨ halt = .error .cancelled ∨
      ∃ cause, halt = .panic cause := by
  cases hpoisoned : a.isPoisoned with
  | true =>
    rw [show collect cx step p a.mended = (a.mended, p, .error (.error .poisoned)) from
      if_pos hpoisoned] at h
    exact .inl ⟨(Except.error.inj h).symm, rfl⟩
  | false =>
    refine .inr ?_
    by_cases hp : Proceeds cx a.mended []
    · cases hs : (sweep step p (a.mended.afterCallbacks cx)).2.2 with
      | ok n =>
        rw [hp.collect_of_ok hs] at h
        cases h
      | error cause =>
        rw [hp.collect_of_panic hs] at h
        exact .inr ⟨cause, (Except.error.inj h).symm⟩
    · rw [collect_of_not_proceeds (a := a.mended) hpoisoned
        (fun errors h => hp (failures_mended a ▸ h.errors_eq ▸ h)) step p] at h
      exact .inl (Except.error.inj h).symm

/-- A collection that is not cancelled calls every callback once, in order and before the sweep.
Those that are registered meanwhile stay for the next one. -/
theorem collect_each {cx : Context} {a : Accumulator} (hintact : a.isPoisoned = false)
    (h : (collect cx step p a).2.2 ≠ .error (.error .cancelled)) :
    (collect cx step p a).1.observers = a.observers.map Observer.stepped ++
        a.observers.flatMap (fun o => CallbackAction.enrolled o.nextActions) ∧
      collected cx step p a =
        a.observers.flatMap (fun o => performed o.descriptors o.nextActions) ++
          (sweep (logged step) (p, []) (a.afterCallbacks cx)).2.1.2 := by
  have hp : Proceeds cx a a.failures := by
    by_contra hp
    refine h ?_
    rw [collect_of_not_proceeds hintact (fun errors h => hp (h.errors_eq ▸ h)) step p]
  obtain hcancelled | ⟨-, hobservers, hdeeds⟩ := afterCallbacks_each cx a
  · cases hp.called.symm.trans hcancelled
  refine ⟨?_, by rw [hp.collected_eq, hdeeds]⟩
  cases hs : (sweep step p (a.afterCallbacks cx)).2.2 with
  | ok n =>
    rw [hp.collect_of_ok hs]
    exact (observers_sweep _ step p).trans hobservers
  | error cause =>
    rw [hp.collect_of_panic hs]
    exact (observers_sweep _ step p).trans hobservers

theorem failures_observerCallback {a : Accumulator} {error : MetricsError}
    (h : error ∈ a.failures) : ∃ text, error = .observerCallback text := by
  obtain ⟨o, -, ho⟩ := List.mem_filterMap.mp h
  obtain ⟨halt, -, rfl⟩ := Option.map_eq_some_iff.mp ho
  match halt with
  | .error error => exact ⟨_, rfl⟩
  | .panic (.text message) => exact ⟨_, rfl⟩
  | .panic .untyped => exact ⟨_, rfl⟩

/-- A collection is compared with one whose callbacks make the same observations and do not fail.
The same is observed, recorded and handed to the processor, and what is left differs in the
callbacks and in what happened only. If the lock is poisoned, if the collection is cancelled or if
the processor panics, both end by that. Otherwise failing callbacks make the collection partial,
with the count of the other and one error each. All callbacks are called once, in order, and those
that they register wait for the next collection. -/
theorem failing_callbacks_only_reported (cx : Context) (a : Accumulator) :
    let r := collect cx step p a
    let r' := collect cx step p a.mended
    (collected cx step p a.mended = collected cx step p a ∧ r'.2.1 = r.2.1 ∧
      ∃ observers events, r'.1 = r.1.furnished observers events) ∧
    ((a.isPoisoned = true ∧ r'.2.2 = .error (.error .poisoned) ∧ r.2.2 = r'.2.2) ∨
      (r'.2.2 = .error (.error .cancelled) ∧ r.2.2 = r'.2.2) ∨
      (∃ cause, r'.2.2 = .error (.panic cause) ∧ r.2.2 = r'.2.2) ∨
      ∃ n, r'.2.2 = .ok n ∧ r.2.2 =
        if a.failures.isEmpty then .ok n
        else .error (.error (.partialCollection n a.failures))) ∧
    (∀ error ∈ a.failures, ∃ text, error = .observerCallback text) ∧
    (a.isPoisoned = false → r.2.2 ≠ .error (.error .cancelled) →
      r.1.observers = a.observers.map Observer.stepped ++
        a.observers.flatMap (fun o => CallbackAction.enrolled o.nextActions) ∧
      collected cx step p a =
        a.observers.flatMap (fun o => performed o.descriptors o.nextActions) ++
          (sweep (logged step) (p, []) (a.afterCallbacks cx)).2.1.2) := by
  intro r r'
  obtain ⟨hprocessor, hresult, hleft⟩ := collect_mended step p cx a
  refine ⟨⟨collected_mended step p cx a, hprocessor.symm, hleft⟩, ?_,
    fun _ => failures_observerCallback, collect_each step p⟩
  change r.2.2 = reporting a.failures r'.2.2 at hresult
  cases hr' : r'.2.2 with
  | ok n => exact .inr (.inr (.inr ⟨n, rfl, by rw [hresult, hr', reporting]⟩))
  | error halt =>
    have hr : r.2.2 = .error halt := by rw [hresult, hr', reporting]
    obtain ⟨rfl, hpoisoned⟩ | rfl | ⟨cause, rfl⟩ := collect_mended_halt step p hr'
    · exact .inl ⟨hpoisoned, rfl, hr⟩
    · exact .inr (.inl ⟨rfl, hr⟩)
    · exact .inr (.inr (.inl ⟨cause, rfl, hr⟩))

/-- Of two callbacks, the first fails after its observation, and the second registers a third one
and panics. Both observations are handed over, and both errors are reported. -/
theorem failing_callbacks_only_reported_temperature :
    let temperature : Descriptor :=
      { name := "temperature", kind := .gaugeObserver, numberKind := .u64 }
    let path (p : String) : LabelSet := .ofList [⟨"path", .string p⟩]
    let a := (Accumulator.new SimpleSelector.inexpensive.toSelector .empty 1 0)
    let a := (a.register [temperature]
      [[.observe temperature ⟨20⟩ (path "/a"), .fail (.other (.described "no sensor"))]]).1
    let a := (a.register [temperature]
      [[.observe temperature ⟨21⟩ (path "/b"), .register [] [], .panic (.text "lost")]]).1
    let step : ProcessorStep (List Accumulation) := fun accs acc => (accs ++ [acc], {})
    let errors : List MetricsError :=
      [.observerCallback "Metrics error: no sensor", .observerCallback "lost"]
    a.failures = errors ∧
      (collect .unlimited step [] a).2.2 = .error (.error (.partialCollection 2 errors)) ∧
      (collect .unlimited step [] a).1.observers.map (·.called) = [1, 1, 0] := by
  intro temperature path a₀ a₁ a step errors
  obtain ⟨-, hends, -, heach⟩ := failing_callbacks_only_reported step [] .unlimited a
  have hcount : (collect .unlimited step [] a.mended).2.2.toOption = some 2 := by decide +kernel
  have hn : (collect .unlimited step [] a.mended).2.2 = .ok 2 := by
    cases h : (collect .unlimited step [] a.mended).2.2 with
    | ok n => rw [h] at hcount; exact congrArg _ (Option.some.inj hcount)
    | error halt => rw [h] at hcount; cases hcount
  have hresult : (collect .unlimited step [] a).2.2 =
      .error (.error (.partialCollection 2 errors)) := by
    rw [hn] at hends
    obtain ⟨h, -⟩ | ⟨h, -⟩ | ⟨cause, h, -⟩ | ⟨n, h, hr⟩ := hends
    · cases h
    · cases h
    · cases h
    · obtain rfl := Except.ok.inj h
      exact hr
  refine ⟨rfl, hresult, ?_⟩
  rw [(heach rfl (by rw [hresult]; simp)).1]
  rfl

/-- After a panic of the processor, the lock is poisoned: a further collection is refused before it
calls the callback. -/
theorem poisoned_calls_no_callback :
    let requests : Descriptor := { name := "requests", kind := .counter, numberKind := .u64 }
    let step : ProcessorStep Unit := fun _ _ => ((), { outcome := .error (.panic .untyped) })
    let a := Accumulator.new SimpleSelector.inexpensive.toSelector .empty 1 0
    let a := ((a.register [] [[.note "called"]]).1).record ⟨requests, ⟨1⟩, .u64, .empty⟩
    let b := (collect .unlimited step () a).1
    b.isCancelled .unlimited = false ∧ b.observers.length = 1 ∧
      collect .unlimited step () b = (b, (), .error (.error .poisoned)) ∧
      collect .unlimited step () b.mended = (b.mended, (), .error (.error .poisoned)) := by
  intro requests step a₀ a b
  have hpoisoned : b.isPoisoned = true := by decide +kernel
  exact ⟨rfl, by decide +kernel, if_pos hpoisoned, if_pos hpoisoned⟩

end Accumulator
end Metering
