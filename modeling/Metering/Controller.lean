import Metering.Accumulator.Collect
import Metering.Exporter.Text
import Metering.Meter
import Metering.Processor.Checkpointer
import Metering.Resource.Environment

/-!
# The controller

A controller connects an accumulator, a processor and an exporter. It collects when it is asked,
and can have a worker that collects and exports at regular intervals, at a flush and when it is
stopped. A panic of the processor leaves its lock poisoned, after which nothing is collected any
more; a panic on the worker ends the worker.
-/

namespace Metering

inductive Exporter where
  | text (exporter : TextExporter)
  /-- an exporter of the program: its answer to a request, and its inspection text -/
  | custom (reply : ExportRequest → Except Halt Unit) (description : String)

def Exporter.inspect : Exporter → String
  | text exporter => exporter.inspect
  | custom _ description => description

/-- The state of a worker that was not stopped yet. -/
inductive Worker where
  | running
  | panicked
  deriving DecidableEq

/-- A pipeline from measurements to an exporter, with its settings. -/
structure Controller where
  accumulator : Accumulator
  checkpointer : Checkpointer
  resource : Resource
  exporter : Option Exporter
  worker : Option Worker := none
  /-- the time between two collections by the worker -/
  collectPeriod : Span
  /-- the time allowed for a collection; zero is no limit -/
  collectTimeout : Span
  /-- the time allowed for an export; zero is no limit -/
  pushTimeout : Span

namespace Controller

/-! ## Making a controller -/

/-- What a program may ask of a controller. -/
structure Options where
  resource : Option Resource := none
  exporter : Option Exporter := none
  collectPeriod : Option Span := none
  collectTimeout : Option Span := none
  pushTimeout : Option Span := none
  idleCycles : Option Nat := none

/-- The time between two collections that is asked for; zero does not count. -/
def Options.period? (o : Options) : Option Span := o.collectPeriod.filter (0 < ·)

def Options.inspect (o : Options) : String :=
  let span (d : Option Span) : String := Text.optional (d.map Span.render)
  Text.record "BasicControllerBuilder"
    [("resource", Text.optional (o.resource.map Resource.inspect)),
      ("exporter", Text.optional (o.exporter.map Exporter.inspect)),
      ("collect_period", span o.period?), ("collect_timeout", span o.collectTimeout),
      ("push_timeout", span o.pushTimeout)]

/-- A span given by a variable in milliseconds, or the standard one; a value that is no positive
number is logged. -/
def spanOfVariable (name : String) (value : Option String) (standard : Span) :
    Span × List LogEntry :=
  match value with
  | none => (standard, [])
  | some raw =>
    match Numeral.read 10 (1 <<< 64 - 1) (Text.trim raw) with
    | .ok (n + 1) => (.ofMillis (n + 1), [])
    | _ => (standard, [.invalidEnvironmentValue name raw standard])

/-- Makes a controller with a new processor. What the program does not ask for comes from the
environment, or is a standard. -/
def build (o : Options) (env : Environment) (selector : Selector)
    (temporality : TemporalitySelector) (filters : List LabelFilterSelector) (now : Time) :
    Controller :=
  let resource := o.resource.getD (.ofEnvironment env)
  let (collectPeriod, periodLogs) := match o.period? with
    | some period => (period, [])
    | none => spanOfVariable "OTEL_METRIC_EXPORT_INTERVAL" env.exportInterval (.ofSeconds 60)
  let (pushTimeout, timeoutLogs) := match o.pushTimeout with
    | some timeout => (timeout, [])
    | none => spanOfVariable "OTEL_METRIC_EXPORT_TIMEOUT" env.exportTimeout (.ofSeconds 30)
  let accumulator := Accumulator.new selector resource (o.idleCycles.getD 1) (now + 1)
  { accumulator := (periodLogs ++ timeoutLogs).foldl Accumulator.log accumulator
    checkpointer := { temporality, filters, processor := .new now }
    resource, exporter := o.exporter, collectPeriod, pushTimeout
    collectTimeout := o.collectTimeout.getD (.ofSeconds 10) }

def isRunning (c : Controller) : Bool := c.worker.isSome

def inspect (c : Controller) : String :=
  Text.record "BasicController"
    [("resource", c.resource.inspect),
      ("exporter", Text.optional (c.exporter.map Exporter.inspect)),
      ("collect_period", c.collectPeriod.render), ("collect_timeout", c.collectTimeout.render),
      ("push_timeout", c.pushTimeout.render), ("running", Text.truth c.isRunning)]

def meter (_ : Controller) (name : String) (version : Option String := none) : Meter :=
  { name, version }

/-! ## Collecting -/

def emit (c : Controller) (e : Event) : Controller :=
  { c with accumulator := c.accumulator.emit e }

def log (c : Controller) (e : LogEntry) : Controller := c.emit (.logged e)

def report (c : Controller) (e : MetricsError) : Controller := c.emit (.reported (.metric e))

def tick (c : Controller) : Controller := { c with accumulator := c.accumulator.tick }

/-- A context with a further time limit, unless that is zero. -/
def limited (c : Controller) (cx : Context) (timeout : Span) : Context :=
  if timeout = 0 then cx else cx.withTimeout c.accumulator.now timeout

/-- The processor as the accumulator sees it. -/
def step : ProcessorStep Checkpointer := fun checkpointer acc =>
  let (checkpointer, outcome) := checkpointer.process acc
  (checkpointer, { outcome })

def finish (c : Controller) : Controller × Except Halt CheckpointSet :=
  let (checkpointer, result) := c.checkpointer.finishCollection c.accumulator.now
  ({ c with checkpointer }.tick, result.mapError Halt.error)

/-- Collects under the processor's lock. The errors of a partial collection are reported; after
any other error the collection is aborted. -/
def collectLocked (c : Controller) (cx : Context) : Controller × Except Halt CheckpointSet :=
  match c.accumulator.collect cx step c.checkpointer.startCollection with
  | (accumulator, checkpointer, .ok _) => { c with accumulator, checkpointer }.finish
  | (accumulator, checkpointer, .error (.error (.partialCollection checkpointed errors))) =>
    let entry := LogEntry.partialCollection checkpointed errors.length
    let c := { c with accumulator, checkpointer }.log entry
    (errors.foldl report c).finish
  | (accumulator, checkpointer, .error (.error cause)) =>
    let (checkpointer, entry) := checkpointer.abortCollection
    ({ c with accumulator, checkpointer }.log entry, .error (.error cause))
  | (accumulator, checkpointer, .error (.panic cause)) =>
    ({ c with accumulator, checkpointer := { checkpointer with isPoisoned := true } },
      .error (.panic cause))

/-- Collects all measurements into a checkpoint set. -/
def collect (c : Controller) (cx : Context) : Controller × Except Halt CheckpointSet :=
  let cx := c.limited cx c.collectTimeout
  let c := c.tick
  if c.checkpointer.isPoisoned then (c, .error (.error .poisoned)) else c.collectLocked cx

/-- Hands a checkpoint set to the exporter. -/
def export? (c : Controller) (cx : Context) (set : CheckpointSet) :
    Controller × Except Halt Unit :=
  match c.exporter with
  | none => (c, .ok ())
  | some exporter =>
    let c := if set.isEmpty then c.log .noMetricsCollected else c
    let cx := c.limited cx c.pushTimeout
    let c := c.tick
    match exporter with
    | .text t =>
      let (t, written, result) := t.publish c.resource set
      let c := { c with exporter := some (.text t) }
      (written.elim c fun text => c.emit (.written text), result)
    | .custom reply _ =>
      let request : ExportRequest :=
        { context := cx, cancelled := c.accumulator.isCancelled cx, resource := c.resource, set }
      (c.emit (.exported request), reply request)

def collectAndExport (c : Controller) (cx : Context) : Controller × Except Halt Unit :=
  match c.collect cx with
  | (c, .ok set) => c.export? cx set
  | (c, .error halt) => (c, .error halt)

/-! ## The worker -/

def start (c : Controller) : Controller × Except MetricsError Unit :=
  match c.worker with
  | some _ => (c, .error (.other .workerAlreadyStarted))
  | none => ({ c with worker := some .running }.log (.threadStarted c.collectPeriod), .ok ())

/-- What the worker does when its period is over: it collects and exports, and reports an
error. -/
def expire (c : Controller) : Controller :=
  match c.worker with
  | some .running =>
    match c.collectAndExport .unlimited with
    | (c, .ok ()) => c
    | (c, .error (.error cause)) => c.report cause
    | (c, .error (.panic _)) => { c with worker := some .panicked }
  | _ => c

/-- Collects and exports at once, on the worker if there is one. -/
def flush (c : Controller) : Controller × Except Halt Unit :=
  match c.worker with
  | none => c.collectAndExport .unlimited
  | some .panicked => (c, .error (.error (.other .workerGone)))
  | some .running =>
    match (c.log .exportingDueToFlush).collectAndExport .unlimited with
    | (c, .error (.panic _)) =>
      ({ c with worker := some .panicked }, .error (.error (.other .workerInterrupted)))
    | (c, result) => (c, result)

/-- Stops the worker, if there is one, after a last export. -/
def stop (c : Controller) : Controller × Except MetricsError Unit :=
  match c.worker with
  | none => (c, .ok ())
  | some .panicked => ({ c with worker := none }, .error (.other .workerPanicked))
  | some .running =>
    match (c.log .exportingDueToShutdown).collectAndExport .unlimited with
    | (c, .ok ()) => ({ c with worker := none }.log .threadStopped, .ok ())
    | (c, .error (.error cause)) => ({ c with worker := none }.log .threadStopped, .error cause)
    | (c, .error (.panic _)) => ({ c with worker := none }, .error (.other .workerPanicked))

end Controller
end Metering
