import Metering.Aggregator.Basic

/-!
# Aggregator selectors

A selector chooses the aggregation for the series of an instrument, or none, which disables the
instrument. A selector may take into account how often it was asked about instruments of some
class before; most do not.
-/

namespace Metering

/-- The choice of an aggregator for a series of an instrument. -/
structure Selector where
  /-- the choice, given the number of earlier questions about counted instruments -/
  choose : Nat → Descriptor → Option Aggregator
  /-- whether questions about the instrument are counted -/
  isCounted : Descriptor → Bool := fun _ => false

namespace Selector

instance : Inhabited Selector := ⟨{ choose := fun _ _ => none }⟩

/-- The selector that always makes the same choice for an instrument. -/
def ofFunction (choose : Descriptor → Option Aggregator) : Selector where
  choose := fun _ => choose

/-- Asks the selector: its choice, and the number of counted questions from now on. -/
def ask (s : Selector) (asked : Nat) (d : Descriptor) : Option Aggregator × Nat :=
  (s.choose asked d, if s.isCounted d then asked + 1 else asked)

/-- The selector that disables some instruments, by name. -/
def disabling (s : Selector) (names : List String) : Selector where
  choose := fun asked d => if d.name ∈ names then none else s.choose asked d
  isCounted := fun d => d.name ∉ names && s.isCounted d

/-- The selector that counts the questions about some instruments, by name, and answers every
second one with a last value. -/
def alternating (s : Selector) (names : List String) : Selector where
  choose := fun asked d =>
    if d.name ∈ names ∧ asked % 2 = 1 then some .newLastValue else s.choose asked d
  isCounted := fun d => d.name ∈ names

end Selector

/-- The selectors that choose by the kind of the instrument: gauges keep their last value and
adding instruments sum up, unless all instruments are to keep their last value. -/
inductive SimpleSelector where
  /-- extremes, sum and count for histograms -/
  | inexpensive
  /-- buckets for histograms -/
  | histogram (boundaries : List Binary64)
  | lastValue
  deriving DecidableEq, Inhabited

/-- The choice of a simple selector. -/
def SimpleSelector.aggregator (s : SimpleSelector) (d : Descriptor) : Aggregator :=
  match s, d.kind with
  | .lastValue, _ | _, .gaugeObserver => .newLastValue
  | .inexpensive, .histogram => .newMinMaxSumCount d
  | .histogram boundaries, .histogram => .newHistogram d boundaries
  | _, _ => .newSum

/-- A simple selector as a selector, which disables no instrument. -/
def SimpleSelector.toSelector (s : SimpleSelector) : Selector :=
  .ofFunction fun d => some (s.aggregator d)

end Metering
