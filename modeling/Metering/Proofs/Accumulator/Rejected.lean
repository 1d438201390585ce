import Metering.Proofs.Accumulator.Indifference

/-!
# Rejected measurements

Why a measurement is rejected can be told from the call alone, without the accumulator. Of a
program that measures, the sifted program is left where the rejected measurements are removed:
those that it makes itself, those of its callbacks and those of its processors.
-/

namespace Metering

/-- Why a number must not be measured with an instrument. -/
def Descriptor.faults (d : Descriptor) (n : Number) : List MetricsError :=
  (if d.numberKind = .f64 ∧ n.isNaN then [.nanInput] else []) ++
    if d.kind.isMonotonic && n.isNegative d.numberKind then [.negativeInput] else []

theorem Descriptor.rangeTest_eq (d : Descriptor) (n : Number) :
    d.rangeTest n = (d.faults n).head?.elim (.ok ()) .error := by
  rw [rangeTest, faults]
  split
  · rfl
  · split <;> rfl

theorem Measurement.isAccepted_eq (m : Measurement) :
    m.isAccepted =
      (m.descriptor.numberKind = m.kind && (m.descriptor.faults m.number).isEmpty) := by
  rw [isAccepted, Descriptor.rangeTest_eq]
  cases m.descriptor.faults m.number <;> rfl

namespace Accumulator

/-! ## Why a measurement is rejected -/

namespace Deed

/-- All that speaks against taking in a measurement, in the order in which it is looked at. -/
def faults : Deed → List MetricsError
  | .recorded m =>
    let d := m.descriptor
    (if d.numberKind = m.kind then []
      else [.numberKindMismatch d.name d.numberKind.name m.kind.name]) ++ d.faults m.number
  | .observed registered d n _ =>
    (if d ∈ registered then [] else [.unregisteredInstrument d.name]) ++ d.faults n
  | .processed _ => []

/-- The error by which a measurement is rejected, if it is. -/
def rejection? (deed : Deed) : Option MetricsError := deed.faults.head?

def isAccepted (deed : Deed) : Bool := deed.rejection?.isNone

@[simp] theorem isAccepted_recorded (m : Measurement) :
    (recorded m).isAccepted = m.isAccepted := by
  rw [isAccepted, rejection?, faults, Measurement.isAccepted_eq]
  by_cases h : m.descriptor.numberKind = m.kind
  · cases m.descriptor.faults m.number <;> simp [h]
  · simp [h]

@[simp] theorem isAccepted_processed (acc : Accumulation) : (processed acc).isAccepted = true := rfl

end Deed

theorem drop_eq (a : Accumulator) (reason : MetricsError) :
    a.drop reason = a.outfitted a.observers (a.dropped + 1)
      (a.events ++ [.logged (.measurementDropped reason), .reported (.metric reason)]) := by
  simp [drop, log, report, emit, outfitted]

theorem update_eq_elim (a : Accumulator) (d : Descriptor) (n : Number) (labels : LabelSet)
    (isObserved : Bool) :
    a.update d n labels isObserved =
      (d.faults n).head?.elim (a.update d n labels isObserved) a.drop := by
  cases h : (d.faults n).head? with
  | none => rfl
  | some reason => rw [update, Descriptor.rangeTest_eq, h]; rfl

/-- A recorded measurement is taken in, or else dropped for the first of its faults. -/
theorem record_eq_elim (a : Accumulator) (m : Measurement) :
    a.record m =
      (Deed.recorded m).rejection?.elim (a.update m.descriptor m.number m.labels false) a.drop := by
  rw [record, Deed.rejection?, Deed.faults]
  by_cases h : m.descriptor.numberKind = m.kind
  · rw [if_pos h, if_pos h, List.nil_append, ← update_eq_elim]
  · rw [if_neg h, if_neg h]
    rfl

theorem observe_eq_elim (a : Accumulator) (registered : List Descriptor) (d : Descriptor)
    (n : Number) (labels : LabelSet) :
    a.observe registered d n labels =
      (Deed.observed registered d n labels).rejection?.elim (a.update d n labels true) a.drop := by
  rw [observe, Deed.rejection?, Deed.faults]
  by_cases h : d ∈ registered
  · rw [if_pos h, if_pos h, List.nil_append, ← update_eq_elim]
  · rw [if_neg h, if_neg h]
    rfl

theorem rangeTest_of_isAccepted {deed : Deed} {d : Descriptor} {n : Number}
    (h : deed.isAccepted = true) (hd : d.faults n <:+ deed.faults) : d.rangeTest n = .ok () := by
  have hnil : deed.faults = [] := by
    simpa [Deed.isAccepted, Deed.rejection?] using h
  rw [hnil, List.suffix_nil] at hd
  rw [Descriptor.rangeTest_eq, hd]
  rfl

end Accumulator

/-! ## The sifted program -/

namespace CallbackAction

mutual

/-- What is left of an action of a callback for some instruments: nothing of a rejected
measurement. -/
def sifted (registered : List Descriptor) : CallbackAction → List CallbackAction
  | .observe d n labels =>
    if (Accumulator.Deed.observed registered d n labels).isAccepted then [.observe d n labels]
    else []
  | .record m => if m.isAccepted then [.record m] else []
  | .register descriptors calls => [.register descriptors (siftedCalls descriptors calls)]
  | .cancel => [.cancel]
  | .note text => [.note text]
  | .fail error => [.fail error]
  | .panic cause => [.panic cause]

def siftedCall (registered : List Descriptor) : List CallbackAction → List CallbackAction
  | [] => []
  | action :: actions => sifted registered action ++ siftedCall registered actions

def siftedCalls (registered : List Descriptor) :
    List (List CallbackAction) → List (List CallbackAction)
  | [] => []
  | call :: calls => siftedCall registered call :: siftedCalls registered calls

end

theorem siftedCalls_eq (registered : List Descriptor) (calls : List (List CallbackAction)) :
    siftedCalls registered calls = calls.map (siftedCall registered) := by
  induction calls with
  | nil => rfl
  | cons call calls ih => rw [siftedCalls, ih, List.map_cons]

end CallbackAction

/-- The callback without its rejected measurements. -/
def Observer.sifted (o : Observer) : Observer :=
  { o with calls := CallbackAction.siftedCalls o.descriptors o.calls }

theorem Observer.nextActions_sifted (o : Observer) :
    o.sifted.nextActions = CallbackAction.siftedCall o.descriptors o.nextActions := by
  simp only [nextActions, sifted, CallbackAction.siftedCalls_eq, List.length_map,
    List.getD_eq_getElem?_getD, List.getElem?_map]
  cases o.calls[min o.called (o.calls.length - 1)]? <;> rfl

/-- The processor without its rejected measurements. -/
def ProcessorStep.sifted {σ : Type} (step : ProcessorStep σ) : ProcessorStep σ := fun p acc =>
  let reply := step p acc
  (reply.1, { reply.2 with records := reply.2.records.filter (·.isAccepted) })

namespace Accumulator

/-- What is left of a request without its rejected measurements. -/
def Request.sifted {σ : Type} : Request σ → List (Request σ)
  | .record m => if m.isAccepted then [.record m] else []
  | .register descriptors calls =>
    [.register descriptors (CallbackAction.siftedCalls descriptors calls)]
  | .await now flags => [.await now flags]
  | .collect cx step p => [.collect cx step.sifted p]

/-- Removing rejected measurements from a callback removes them from what it does. -/
theorem performed_siftedCall (registered : List Descriptor) (actions : List CallbackAction) :
    performed registered (CallbackAction.siftedCall registered actions) =
      (performed registered actions).filter (·.isAccepted) := by
  induction actions with
  | nil => rfl
  | cons action actions ih =>
    rw [CallbackAction.siftedCall]
    cases action with
    | observe d n labels =>
      rw [CallbackAction.sifted, performed, List.filter_cons, ← ih]
      split <;> rfl
    | record m =>
      rw [CallbackAction.sifted, performed, List.filter_cons, ← ih, Deed.isAccepted_recorded]
      split <;> rfl
    | register descriptors calls => exact ih
    | cancel => exact ih
    | note text => exact ih
    | fail error => rfl
    | panic cause => rfl

end Accumulator
end Metering
