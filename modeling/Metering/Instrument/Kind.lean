/-!
# Instrument kinds

Six kinds: synchronous instruments are recorded by the program where something happens,
asynchronous ones are observed when a collection asks for them. Adding instruments report sums,
grouping ones distributions or current values. The sums that asynchronous adding instruments
report are totals already.
-/

namespace Metering

/-- What an instrument measures, and who starts a measurement. -/
inductive InstrumentKind where
  | histogram
  | gaugeObserver
  | counter
  | upDownCounter
  | counterObserver
  | upDownCounterObserver
  deriving DecidableEq, Inhabited

namespace InstrumentKind

def name : InstrumentKind → String
  | histogram => "Histogram"
  | gaugeObserver => "GaugeObserver"
  | counter => "Counter"
  | upDownCounter => "UpDownCounter"
  | counterObserver => "CounterObserver"
  | upDownCounterObserver => "UpDownCounterObserver"

def ofName? : String → Option InstrumentKind
  | "Histogram" => some histogram
  | "GaugeObserver" => some gaugeObserver
  | "Counter" => some counter
  | "UpDownCounter" => some upDownCounter
  | "CounterObserver" => some counterObserver
  | "UpDownCounterObserver" => some upDownCounterObserver
  | _ => none

def index : InstrumentKind → Nat
  | histogram => 0
  | gaugeObserver => 1
  | counter => 2
  | upDownCounter => 3
  | counterObserver => 4
  | upDownCounterObserver => 5

def isSynchronous : InstrumentKind → Bool
  | histogram | counter | upDownCounter => true
  | _ => false

def isAsynchronous (kind : InstrumentKind) : Bool := !kind.isSynchronous

def isAdding : InstrumentKind → Bool
  | histogram | gaugeObserver => false
  | _ => true

def isGrouping (kind : InstrumentKind) : Bool := !kind.isAdding

def isMonotonic : InstrumentKind → Bool
  | counter | counterObserver => true
  | _ => false

/-- Whether measurements are totals already. -/
def isPrecomputedSum (kind : InstrumentKind) : Bool := kind.isAdding && kind.isAsynchronous

end InstrumentKind
end Metering
