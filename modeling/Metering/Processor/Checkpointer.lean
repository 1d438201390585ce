import Metering.Event
import Metering.Processor.Reducer
import Metering.Selector

/-!
# Checkpointers

A processor with its selectors and label filters, behind a lock. A panic while the lock is held
leaves the lock poisoned, and from then on every attempt to take it is an error.
-/

namespace Metering

/-- A processor, what it is configured with, and the state of its lock. -/
structure Checkpointer where
  temporality : TemporalitySelector
  /-- the label filters, the outermost first -/
  filters : List LabelFilterSelector := []
  isPoisoned : Bool := false
  processor : Processor

namespace Checkpointer

/-- Processes an accumulation under the lock, after reducing its labels. -/
def process (c : Checkpointer) (acc : Accumulation) : Checkpointer × Except Halt Unit :=
  match LabelFilterSelector.reduceAll c.filters acc with
  | .error cause => (c, .error (.panic cause))
  | .ok acc =>
    match c.processor.process c.temporality acc with
    | .error cause => (c, .error (.error cause))
    | .ok processor => ({ c with processor }, .ok ())

def startCollection (c : Checkpointer) : Checkpointer :=
  { c with processor := c.processor.startCollection }

/-- Forgets the current collection, which is logged. -/
def abortCollection (c : Checkpointer) : Checkpointer × LogEntry :=
  ({ c with processor := c.processor.abortCollection }, .collectionAborted)

def finishCollection (c : Checkpointer) (now : Time) :
    Checkpointer × Except MetricsError CheckpointSet :=
  let (processor, result) := c.processor.finishCollection now
  ({ c with processor }, result)

def locked {α : Type} (c : Checkpointer) (task : Checkpointer → Checkpointer × Except Halt α) :
    Checkpointer × Except Halt α :=
  if c.isPoisoned then (c, .error (.error .poisoned))
  else
    match task c with
    | (c, .error (.panic cause)) => ({ c with isPoisoned := true }, .error (.panic cause))
    | (c, result) => (c, result)

/-- The beginning of the inspection text of a checkpointer without entries, up to its times. -/
def inspectEmpty (c : Checkpointer) : String :=
  c.filters.foldl (fun text _ => "ReducerProcessor \x7b inner: " ++ text)
    "BasicProcessor \x7b state: Mutex \x7b data: BasicProcessorState \x7b values: \x7b\x7d, "

end Checkpointer
end Metering
