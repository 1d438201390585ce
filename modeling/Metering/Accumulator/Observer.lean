import Metering.Event

/-!
# Observers

A callback of the program is a list of what it does at each call: it observes asynchronous
instruments, records other measurements, registers further callbacks, cancels the collection that
runs it, leaves notes, and may end early with an error or a panic.
-/

namespace Metering

/-- A measurement that the program records, with the number kind under which it does so. -/
structure Measurement where
  descriptor : Descriptor
  number : Number
  kind : NumberKind
  labels : LabelSet
  deriving Inhabited

inductive CallbackAction where
  | observe (descriptor : Descriptor) (number : Number) (labels : LabelSet)
  | record (measurement : Measurement)
  /-- registers a callback, given by its actions at each call -/
  | register (descriptors : List Descriptor) (calls : List (List CallbackAction))
  /-- uses the handle of the collection's context, if there is one -/
  | cancel
  | note (text : String)
  | fail (error : MetricsError)
  | panic (cause : Panic)

structure Observer where
  /-- the instruments that the callback may observe -/
  descriptors : List Descriptor
  /-- the actions at the first call, the second one and so on; the last ones are repeated -/
  calls : List (List CallbackAction)
  /-- the number of calls made -/
  called : Nat := 0

namespace Observer

/-- The actions of the next call; a callback without any does nothing. -/
def nextActions (o : Observer) : List CallbackAction :=
  o.calls.getD (min o.called (o.calls.length - 1)) []

/-- The inspection text of what a callback is given. -/
def inspectResult (descriptors : List Descriptor) : String :=
  Text.record "ObserverResult" [("descriptors", Text.listing (descriptors.map (·.inspect)))]

/-- The inspection text of what a callback for a single instrument is given. -/
def inspectObservation (d : Descriptor) : String :=
  Text.record "Observation" [("descriptor", d.inspect)]

end Observer
end Metering
