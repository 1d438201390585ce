import Metering.Record

/-!
# Events

What happens on the way of measurements, besides answers: log entries, errors that go to the
program's error handler, and the doings of callbacks and exporters. Events are kept in order.
-/

namespace Metering

/-- How serious a log entry is. -/
inductive LogLevel where
  | debug
  | info
  | warn
  deriving DecidableEq

def LogLevel.name : LogLevel → String
  | debug => "DEBUG"
  | info => "INFO"
  | warn => "WARN"

inductive LogEntry where
  | measurementDropped (reason : MetricsError)
  | observerFailed (error : MetricsError)
  | seriesEvicted (instrument : String)
  | collectionAborted
  | partialCollection (checkpointed failedCallbacks : Nat)
  | noMetricsCollected
  | threadStarted (period : Span)
  | threadStopped
  | exportingDueToFlush
  | exportingDueToShutdown
  | invalidEnvironmentValue (name value : String) (standard : Span)
  | globalProviderSet

namespace LogEntry

def level : LogEntry → LogLevel
  | observerFailed _ | partialCollection .. | invalidEnvironmentValue .. => .warn
  | threadStarted _ | threadStopped | globalProviderSet => .info
  | _ => .debug

def name : LogEntry → String
  | measurementDropped _ => "Accumulator.MeasurementDropped"
  | observerFailed _ => "Accumulator.ObserverFailed"
  | seriesEvicted _ => "Accumulator.SeriesEvicted"
  | collectionAborted => "BasicProcessor.CollectionAborted"
  | partialCollection .. => "BasicController.PartialCollection"
  | noMetricsCollected => "BasicController.NoMetricsCollected"
  | threadStarted _ => "BasicController.ThreadStarted"
  | threadStopped => "BasicController.ThreadStopped"
  | exportingDueToFlush => "BasicController.ExportingDueToFlush"
  | exportingDueToShutdown => "BasicController.ExportingDueToShutdown"
  | invalidEnvironmentValue .. => "BasicController.InvalidEnvValue"
  | globalProviderSet => "MeterProvider.GlobalSet"

/-- The details of an entry as named texts. -/
def fields : LogEntry → List (String × String)
  | measurementDropped reason => [("reason", reason.message)]
  | observerFailed error => [("error", error.message)]
  | seriesEvicted instrument => [("instrument", instrument)]
  | partialCollection checkpointed failed =>
    [("checkpointed", Numeral.ofNat checkpointed), ("failed_callbacks", Numeral.ofNat failed)]
  | threadStarted period => [("period_ms", Numeral.ofNat period.millis)]
  | invalidEnvironmentValue name value standard =>
    [("variable", name), ("value", value), ("default_ms", Numeral.ofNat standard.millis)]
  | _ => []

end LogEntry

/-- What an exporter is given. -/
structure ExportRequest where
  context : Context
  /-- whether the context was cancelled when the exporter was called -/
  cancelled : Bool
  resource : Resource
  set : CheckpointSet

inductive Event where
  | logged (entry : LogEntry)
  /-- an error went to the program's error handler -/
  | reported (error : ReportedError)
  /-- a callback left a note -/
  | noted (text : String)
  /-- a callback tried to register another one -/
  | registered (result : Except MetricsError Unit)
  /-- an exporter was called -/
  | exported (request : ExportRequest)
  /-- an exporter wrote a text -/
  | written (text : String)

end Metering
