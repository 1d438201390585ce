import Metering.Aggregator.Kind
import Metering.Instrument.Descriptor

/-!
# Temporality

Whether exported values are totals since the start or changes since the last export. A processor
has to remember earlier values where the temporality is not the one in which an instrument
reports by itself.
-/

namespace Metering

/-- The time that an exported value covers: all since the start, or all since the last export. -/
inductive Temporality where
  | cumulative
  | delta
  deriving DecidableEq, Inhabited

/-- The choice of a temporality for an instrument under an aggregation. -/
abbrev TemporalitySelector := Descriptor → AggregationKind → Temporality

namespace Temporality

def name : Temporality → String
  | cumulative => "Cumulative"
  | delta => "Delta"

/-- Whether values must be remembered between collections: asynchronous adding instruments
report totals, all others changes. -/
def memoryRequired (t : Temporality) : InstrumentKind → Bool
  | .counterObserver | .upDownCounterObserver => t = delta
  | _ => t = cumulative

def constant (t : Temporality) : TemporalitySelector := fun _ _ => t

/-- Changes for some instruments, by name, and totals for all others. -/
def deltaFor (names : List String) : TemporalitySelector := fun d _ =>
  if d.name ∈ names then delta else cumulative

/-- The temporality in which each instrument reports by itself. -/
def stateless : TemporalitySelector := fun d kind =>
  if kind = .sum ∧ d.kind.isPrecomputedSum then cumulative else delta

end Temporality
end Metering
