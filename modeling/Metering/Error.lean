import Metering.Aggregator.Kind
import Metering.Number
import Metering.Text.Quoted

/-!
# Errors

What can go wrong, by cause. Every error belongs to one of thirteen variants, has a message, and
can be reported to the program's error handler, which also receives messages of other origin.
-/

namespace Metering

inductive Failure where
  /-- an earlier task stopped abruptly while it held the lock -/
  | poisonedLock
  | workerAlreadyStarted
  /-- the worker was gone before it could be asked -/
  | workerGone
  /-- the worker stopped abruptly before it answered -/
  | workerInterrupted
  /-- the worker had stopped abruptly -/
  | workerPanicked
  /-- the writer accepted nothing of a text -/
  | shortWrite
  /-- a failure of the program's own parts -/
  | described (text : String)
  deriving DecidableEq

def Failure.text : Failure → String
  | poisonedLock => "poisoned lock: another task failed inside"
  | workerAlreadyStarted => "controller already started"
  | workerGone => "sending on a closed channel"
  | workerInterrupted => "flush failed: receiving on a closed channel"
  | workerPanicked => "controller thread panicked"
  | shortWrite => "failed to write whole buffer"
  | described text => text

inductive ConfigFault where
  | emptyName
  | longName
  | badFirstCharacter
  | badCharacter
  | longUnit
  | nonAsciiUnit
  deriving DecidableEq

def ConfigFault.text : ConfigFault → String
  | emptyName => "instrument name must be non-empty"
  | longName => "instrument name must be less than 64 characters"
  | badFirstCharacter => "instrument name must start with an alphabetic character"
  | badCharacter =>
    "characters in instrument name must be ASCII and belong to the alphanumeric characters, " ++
      "'_', '.', and '-'"
  | longUnit => "instrument unit must be less than 64 characters"
  | nonAsciiUnit => "characters in instrument unit must be ASCII"

inductive ConfigError where
  | instrument (fault : ConfigFault) (name : String)
  | synchronousObserved (name kind : String)
  | described (text : String)
  deriving DecidableEq

def ConfigError.text : ConfigError → String
  | instrument fault name => fault.text ++ ": " ++ name
  | synchronousObserved name kind =>
    "observer callbacks require asynchronous instruments, " ++ name ++ " is a " ++ kind
  | described text => text

inductive Mismatch where
  | kinds (expected actual : AggregationKind)
  | boundaries (expected actual : List Binary64)
  | described (text : String)
  deriving DecidableEq

def Mismatch.text : Mismatch → String
  | kinds expected actual => "expected " ++ expected.name ++ ", got " ++ actual.name
  | boundaries expected actual =>
    "histogram boundaries differ: " ++ Text.listing (expected.map Decimal.marked) ++ " and " ++
      Text.listing (actual.map Decimal.marked)
  | described text => text

inductive MetricsError where
  | other (cause : Failure)
  | config (cause : ConfigError)
  | exporter (name text : String)
  | inconsistentState
  | noDataCollected
  | nanInput
  | negativeInput
  | inconsistentAggregator (cause : Mismatch)
  | numberKindMismatch (name expected actual : String)
  | unregisteredInstrument (name : String)
  | cancelled
  | observerCallback (text : String)
  | partialCollection (checkpointed : Nat) (errors : List MetricsError)
  deriving Inhabited

namespace MetricsError

/-- The error of a lock that an abrupt stop left behind. -/
def poisoned : MetricsError := other .poisonedLock

def variant : MetricsError → String
  | other _ => "Other"
  | config _ => "Config"
  | exporter .. => "ExportErr"
  | inconsistentState => "InconsistentState"
  | noDataCollected => "NoDataCollected"
  | nanInput => "NaNInput"
  | negativeInput => "NegativeInput"
  | inconsistentAggregator _ => "InconsistentAggregator"
  | numberKindMismatch .. => "NumberKindMismatch"
  | unregisteredInstrument _ => "UnregisteredInstrument"
  | cancelled => "Cancelled"
  | observerCallback _ => "ObserverCallback"
  | partialCollection .. => "PartialCollection"

def message : MetricsError → String
  | other cause => "Metrics error: " ++ cause.text
  | config cause => "Config error " ++ cause.text
  | exporter name text => "Metrics exporter " ++ name ++ " failed with " ++ text
  | inconsistentState => "inconsistent processor state"
  | noDataCollected => "no data collected by this aggregator"
  | nanInput => "NaN value is an invalid input"
  | negativeInput => "negative value is out of range for this instrument"
  | inconsistentAggregator cause => "inconsistent aggregator types: " ++ cause.text
  | numberKindMismatch name expected actual =>
    "instrument " ++ name ++ " expects " ++ expected ++ " measurements, got " ++ actual
  | unregisteredInstrument name => "observation for unregistered instrument " ++ name
  | cancelled => "collection cancelled"
  | observerCallback text => "observer callback failed: " ++ text
  | partialCollection checkpointed errors =>
    "collected " ++ Numeral.ofNat checkpointed ++ " records, " ++ Numeral.ofNat errors.length ++
      " observer callback(s) failed"

end MetricsError

/-- What the program's error handler receives. -/
inductive ReportedError where
  | metric (error : MetricsError)
  | other (text : String)

namespace ReportedError

/-- The report of a lock that an abrupt stop left behind. -/
def poisoned : ReportedError := other Failure.poisonedLock.text

def variant : ReportedError → String
  | metric error => error.variant
  | other _ => "GlobalOther"

def message : ReportedError → String
  | metric error => error.message
  | other text => text

end ReportedError

/-- An abrupt stop of a task: with a text, or with a payload of another type. -/
inductive Panic where
  | text (message : String)
  | untyped
  deriving DecidableEq

/-- How an operation ends early: an error that is returned, or a panic that unwinds. -/
inductive Halt where
  | error (cause : MetricsError)
  | panic (cause : Panic)

end Metering
