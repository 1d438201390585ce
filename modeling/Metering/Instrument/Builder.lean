import Metering.Accumulator.Basic

/-!
# Instruments

Programs make instruments through a meter, by name and type. A name that is not acceptable is an
error; the program may ask for the error, or let it be reported and go on with an instrument that
records nothing.
-/

namespace Metering

/-- A kind of instrument with a kind of number. -/
structure InstrumentType where
  kind : InstrumentKind
  numberKind : NumberKind
  deriving DecidableEq, Inhabited

namespace InstrumentType

/-- The types that a meter offers, by the name under which it does. -/
def offered : List (String × InstrumentType) :=
  [("u64_counter", ⟨.counter, .u64⟩), ("f64_counter", ⟨.counter, .f64⟩),
    ("i64_up_down_counter", ⟨.upDownCounter, .i64⟩),
    ("f64_up_down_counter", ⟨.upDownCounter, .f64⟩),
    ("u64_histogram", ⟨.histogram, .u64⟩), ("i64_histogram", ⟨.histogram, .i64⟩),
    ("f64_histogram", ⟨.histogram, .f64⟩),
    ("u64_observable_counter", ⟨.counterObserver, .u64⟩),
    ("f64_observable_counter", ⟨.counterObserver, .f64⟩),
    ("i64_observable_up_down_counter", ⟨.upDownCounterObserver, .i64⟩),
    ("f64_observable_up_down_counter", ⟨.upDownCounterObserver, .f64⟩),
    ("u64_observable_gauge", ⟨.gaugeObserver, .u64⟩),
    ("i64_observable_gauge", ⟨.gaugeObserver, .i64⟩),
    ("f64_observable_gauge", ⟨.gaugeObserver, .f64⟩)]

/-- The name of the type of such instruments. -/
def typeName (t : InstrumentType) : String :=
  let family := match t.kind with
    | .histogram => "Histogram"
    | .gaugeObserver => "ObservableGauge"
    | .counter => "Counter"
    | .upDownCounter => "UpDownCounter"
    | .counterObserver => "ObservableCounter"
    | .upDownCounterObserver => "ObservableUpDownCounter"
  family ++ "<" ++ t.numberKind.name ++ ">"

end InstrumentType

/-- What a program asks of a meter. -/
structure InstrumentBuilder where
  name : String
  type : InstrumentType
  description : Option String := none
  unit : Option MeasurementUnit := none
  /-- the callbacks that observe the instrument, by their actions at each call -/
  callbacks : List (List (List CallbackAction)) := []

namespace InstrumentBuilder

def isNameCharacter (c : Char) : Bool := c.isAlphanum || c = '_' || c = '.' || c = '-'

/-- The fault of a name, or else of a unit. Lengths are counted in bytes. -/
def fault? (name : String) (unit : Option MeasurementUnit) : Option ConfigFault :=
  match name.toList with
  | [] => some .emptyName
  | c :: cs =>
    if 63 < name.utf8ByteSize then some .longName
    else if !c.isAlpha then some .badFirstCharacter
    else if !(c :: cs).all isNameCharacter then some .badCharacter
    else
      match unit with
      | none => none
      | some u =>
        if 63 < u.symbol.utf8ByteSize then some .longUnit
        else if u.symbol.toList.any (127 < ·.toNat) then some .nonAsciiUnit
        else none

def descriptor (b : InstrumentBuilder) : Descriptor where
  name := b.name
  kind := b.type.kind
  numberKind := b.type.numberKind
  description := b.description
  unit := b.unit

/-- The inspection text; builders of asynchronous instruments show their number of callbacks. -/
def inspect (b : InstrumentBuilder) : String :=
  let fields := [("name", Text.quoted b.name),
    ("description", Text.optional (b.description.map Text.quoted)),
    ("unit", Text.optional (b.unit.map MeasurementUnit.inspect)),
    ("kind", Text.quoted ("telemetry_sdk::metrics::meter::" ++ b.type.typeName))]
  if b.type.kind.isSynchronous then Text.record "InstrumentBuilder" fields
  else
    Text.record "ObservableInstrumentBuilder"
      (fields ++ [("callbacks", Numeral.ofNat b.callbacks.length)])

end InstrumentBuilder

structure Instrument where
  descriptor : Descriptor
  /-- whether its measurements go to an accumulator -/
  isActive : Bool := true
  deriving Inhabited

namespace Instrument

def inspect (i : Instrument) : String :=
  InstrumentType.typeName ⟨i.descriptor.kind, i.descriptor.numberKind⟩ ++ "(" ++
    i.descriptor.name ++ ")"

def record (i : Instrument) (n : Number) (attributes : List KeyValue) (a : Accumulator) :
    Accumulator :=
  if i.isActive then
    a.record ⟨i.descriptor, n, i.descriptor.numberKind, .ofList attributes⟩
  else a

end Instrument
end Metering
