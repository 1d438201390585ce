import Metering.Accumulator.Observer
import Metering.Selector

/-!
# The accumulator

The accumulator receives all measurements. It keeps a series for every instrument and label set
in use, and drops what must not be recorded: such a measurement is counted, logged and reported,
and has no other effect.
-/

namespace Metering

/-- A series in use. Measurements go to the current aggregator; a collection moves them to the
checkpoint. The counters do not overflow: sixty-four bits are enough for fewer than 2^64 calls. -/
structure LiveSeries where
  descriptor : Descriptor
  labels : LabelSet
  current : Aggregator
  checkpoint : Aggregator
  /-- the number of measurements recorded -/
  updates : Nat := 0
  /-- the number of measurements at the time of the last collection of the series -/
  collected : Nat := 0
  /-- the number of the collection for which the series was observed last -/
  observedEpoch : Nat := 0
  /-- the number of sweeps since then that found nothing new -/
  idleSweeps : Nat := 0

/-- Whether a series is that of an instrument and a label set. -/
def LiveSeries.isFor (s : LiveSeries) (d : Descriptor) (labels : LabelSet) : Bool :=
  s.descriptor = d && s.labels = labels

/-- Whether measurements were recorded since the last collection of the series. -/
def LiveSeries.isPending (s : LiveSeries) : Bool := s.updates ≠ s.collected

/-- The state of an accumulator, with the clock that it reads and the trace of what happened. As in
a series, the counters hold for fewer than 2^64 calls. -/
structure Accumulator where
  selector : Selector
  resource : Resource := .empty
  /-- the number of idle sweeps after which a series is evicted -/
  idleCycles : Nat := 1
  /-- the series, in the order in which a sweep goes through them -/
  series : List LiveSeries := []
  observers : List Observer := []
  /-- the number of completed collections -/
  epoch : Nat := 0
  /-- the number of counted questions to the selector -/
  asked : Nat := 0
  /-- the number of dropped measurements -/
  dropped : Nat := 0
  /-- whether a panic during a collection left the collection lock poisoned -/
  isPoisoned : Bool := false
  /-- the clock -/
  now : Time
  /-- the number of measurements written so far -/
  writes : Nat := 0
  flags : CancellationFlags := []
  /-- what happened, in order -/
  events : List Event := []

namespace Accumulator

/-- An accumulator that evicts after a number of idle sweeps, at least one. -/
def new (selector : Selector) (resource : Resource) (idleCycles : Nat) (now : Time) :
    Accumulator :=
  { selector, resource, idleCycles := max 1 idleCycles, now }

def emit (a : Accumulator) (e : Event) : Accumulator := { a with events := a.events ++ [e] }

def log (a : Accumulator) (e : LogEntry) : Accumulator := a.emit (.logged e)

/-- Hands an error to the program's error handler. -/
def report (a : Accumulator) (e : MetricsError) : Accumulator := a.emit (.reported (.metric e))

def tick (a : Accumulator) : Accumulator := { a with now := a.now + 1 }

/-- The stamp of the next write. -/
def stamp (a : Accumulator) : Stamp := ⟨a.now, a.writes⟩

def isCancelled (a : Accumulator) (cx : Context) : Bool := cx.isCancelled a.flags a.now

/-- Counts and reports a measurement that is not recorded. -/
def drop (a : Accumulator) (reason : MetricsError) : Accumulator :=
  (({ a with dropped := a.dropped + 1 }).log (.measurementDropped reason)).report reason

/-! ## Series -/

def find? (a : Accumulator) (d : Descriptor) (labels : LabelSet) : Option LiveSeries :=
  a.series.find? (·.isFor d labels)

/-- Puts a series into the place of the one with its instrument and labels. -/
def store (a : Accumulator) (s : LiveSeries) : Accumulator :=
  { a with series := a.series.map fun t => if t.isFor s.descriptor s.labels then s else t }

def ask (a : Accumulator) (d : Descriptor) : Accumulator × Option Aggregator :=
  let (choice, asked) := a.selector.ask a.asked d
  ({ a with asked }, choice)

/-- The series of an instrument and a label set, made if there is none; none is made for an
instrument that the selector disables. -/
def acquire (a : Accumulator) (d : Descriptor) (labels : LabelSet) :
    Accumulator × Option LiveSeries :=
  match a.find? d labels with
  | some s => (a, some s)
  | none =>
    match a.ask d with
    | (a, none) => (a, none)
    | (a, some current) =>
      match a.ask d with
      | (a, none) => (a, none)
      | (a, some checkpoint) =>
        let s : LiveSeries := { descriptor := d, labels, current, checkpoint }
        ({ a with series := a.series ++ [s] }, some s)

/-! ## Measurements -/

/-- Prepares a series for an observation: one that the coming collection already has is
forgotten, so that the last observation of a collection counts. -/
def reobserve (a : Accumulator) (s : LiveSeries) :
    Accumulator × Except MetricsError LiveSeries :=
  let isRepeated := s.observedEpoch = a.epoch + 1
  let s := { s with observedEpoch := a.epoch + 1 }
  if isRepeated then
    match a.ask s.descriptor with
    | (a, none) => (a, .ok s)
    | (a, some scratch) =>
      (a, (s.current.move scratch s.descriptor).map fun (cleared, _) =>
        { s with current := cleared })
  else (a, .ok s)

def addTo (a : Accumulator) (s : LiveSeries) (n : Number) : Accumulator :=
  let current := s.current.update n s.descriptor a.stamp
  { a.store { s with current, updates := s.updates + 1 } with
    now := a.now + 1, writes := a.writes + 1 }

/-- Takes in a measurement, recorded or observed, if it is in the instrument's range. -/
def update (a : Accumulator) (d : Descriptor) (n : Number) (labels : LabelSet)
    (isObserved : Bool) : Accumulator :=
  match d.rangeTest n with
  | .error reason => a.drop reason
  | .ok () =>
    match a.acquire d labels with
    | (a, none) => a
    | (a, some s) =>
      if isObserved then
        match a.reobserve s with
        | (a, .ok s) => a.addTo s n
        | (a, .error cause) => (a.store { s with observedEpoch := a.epoch + 1 }).report cause
      else a.addTo s n

/-- Records a measurement; its number kind must be the instrument's. -/
def record (a : Accumulator) (m : Measurement) : Accumulator :=
  let d := m.descriptor
  if d.numberKind = m.kind then a.update d m.number m.labels false
  else a.drop (.numberKindMismatch d.name d.numberKind.name m.kind.name)

/-- Takes in an observation made by a callback for some instruments. -/
def observe (a : Accumulator) (registered : List Descriptor) (d : Descriptor) (n : Number)
    (labels : LabelSet) : Accumulator :=
  if d ∈ registered then a.update d n labels true
  else a.drop (.unregisteredInstrument d.name)

def register (a : Accumulator) (descriptors : List Descriptor)
    (calls : List (List CallbackAction)) : Accumulator × Except MetricsError Unit :=
  match descriptors.find? (·.kind.isSynchronous) with
  | some d => (a, .error (.config (.synchronousObserved d.name d.kind.name)))
  | none => ({ a with observers := a.observers ++ [{ descriptors, calls }] }, .ok ())

end Accumulator
end Metering
