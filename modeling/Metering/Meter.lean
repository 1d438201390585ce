import Metering.Instrument.Builder

/-!
# Meters

A meter belongs to a library that is instrumented, and makes its instruments. A meter without an
accumulator behind it makes instruments that record nothing.
-/

namespace Metering

/-- What makes the instruments of a library. -/
structure Meter where
  name : String
  version : Option String := none
  isNoop : Bool := false
  deriving DecidableEq, Inhabited

namespace Meter

/-- The meter that stands where no provider is known. -/
def noop : Meter := { name := "noop", isNoop := true }

def inspect (m : Meter) : String :=
  Text.record "Meter"
    [("name", Text.quoted m.name), ("version", Text.optional (m.version.map Text.quoted)),
      ("noop", Text.truth m.isNoop)]

def register (m : Meter) (descriptors : List Descriptor) (calls : List (List CallbackAction))
    (a : Accumulator) : Accumulator × Except MetricsError Unit :=
  if m.isNoop then (a, .ok ()) else a.register descriptors calls

/-- Registers callbacks that observe a single instrument, up to the first error. -/
def registerAll (m : Meter) (d : Descriptor) :
    List (List (List CallbackAction)) → Accumulator → Accumulator × Except MetricsError Unit
  | [], a => (a, .ok ())
  | calls :: rest, a =>
    match m.register [d] calls a with
    | (a, .ok ()) => registerAll m d rest a
    | (a, .error cause) => (a, .error cause)

def make (m : Meter) (b : InstrumentBuilder) (a : Accumulator) :
    Accumulator × Except MetricsError Instrument :=
  match InstrumentBuilder.fault? b.name b.unit with
  | some fault => (a, .error (.config (.instrument fault b.name)))
  | none =>
    let callbacks := if b.type.kind.isSynchronous then [] else b.callbacks
    let (a, result) := m.registerAll b.descriptor callbacks a
    (a, result.map fun _ => ⟨b.descriptor, !m.isNoop⟩)

/-- Makes an instrument; an error is reported, and the instrument then records nothing. -/
def makeOrReport (m : Meter) (b : InstrumentBuilder) (a : Accumulator) :
    Accumulator × Instrument :=
  match m.make b a with
  | (a, .ok i) => (a, i)
  | (a, .error cause) => (a.report cause, ⟨b.descriptor, false⟩)

end Meter

/-- The place for a program's provider of meters. -/
structure ProviderSlot (α : Type) where
  current : Option α := none

namespace ProviderSlot

variable {α : Type}

/-- Puts a provider into place: the slot, the provider that was there before, and what is
logged. -/
def put (s : ProviderSlot α) (provider : α) : ProviderSlot α × Option α × LogEntry :=
  (⟨some provider⟩, s.current, .globalProviderSet)

/-- Takes the provider away: the slot, and the provider that was there. -/
def take (s : ProviderSlot α) : ProviderSlot α × Option α := (⟨none⟩, s.current)

/-- The meter that the provider makes, or one that does nothing. -/
def meter (s : ProviderSlot α) (make : α → String → Meter) (name : String) : Meter :=
  s.current.elim .noop (make · name)

end ProviderSlot
end Metering
