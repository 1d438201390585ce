import Metering.Aggregator.Histogram
import Metering.Context
import Metering.Instrument.Descriptor

/-!
# Aggregators

An aggregator sums up the measurements of one series. It can be updated with a measurement, moved
into another one (which empties it), merged with another one, and, for sums, reduced by another
one. Operations on two aggregators require the same kind, and equal boundaries of histograms;
otherwise nothing happens to either.
-/

namespace Metering

/-- Whether a measurement may be recorded: a NaN never, and a negative number only for an
instrument whose sum may fall. -/
def Descriptor.rangeTest (d : Descriptor) (n : Number) : Except MetricsError Unit :=
  if d.numberKind = .f64 ∧ n.isNaN then .error .nanInput
  else if d.kind.isMonotonic && n.isNegative d.numberKind then .error .negativeInput
  else .ok ()

/-- When a measurement was written: the time that the clock showed, and the number of the write
among all writes of the program. The clock may stand still or be set back; the numbers rise. -/
structure Stamp where
  time : Time
  sequence : Nat
  deriving DecidableEq

/-- A measurement with the stamp of its write; of two, the one written later is kept. -/
structure Reading where
  value : Number
  stamp : Stamp
  deriving DecidableEq

/-- The extremes, the sum and the count of at least one measurement. -/
structure Extremes where
  count : Count
  sum : Number
  min : Number
  max : Number
  deriving DecidableEq

namespace Extremes

def single (n : Number) : Extremes := ⟨1, n, n, n⟩

def merge (kind : NumberKind) (s t : Extremes) : Extremes where
  count := Count.plus s.count t.count
  sum := s.sum.add kind t.sum
  min := if t.min.compare? kind s.min = some .lt then t.min else s.min
  max := if t.max.compare? kind s.max = some .gt then t.max else s.max

end Extremes

/-- What is known of the measurements of a series. The number kind is that of the descriptor for
which the aggregator was made. -/
inductive Aggregator where
  | sum (total : Number)
  | lastValue (last : Option Reading)
  | minMaxSumCount (kind : NumberKind) (state : Option Extremes)
  | histogram (kind : NumberKind) (boundaries : List Binary64) (state : Distribution)
  deriving DecidableEq

namespace Aggregator

instance : Inhabited Aggregator := ⟨.sum ⟨0⟩⟩

/-! ## New aggregators -/

def newSum : Aggregator := .sum ⟨0⟩

def newLastValue : Aggregator := .lastValue none

def newMinMaxSumCount (d : Descriptor) : Aggregator := .minMaxSumCount d.numberKind none

def newHistogram (d : Descriptor) (boundaries : List Binary64) : Aggregator :=
  let bs := Boundaries.ofList boundaries
  .histogram d.numberKind bs (.empty d.numberKind bs.length)

def new (kind : AggregationKind) (d : Descriptor) (boundaries : List Binary64) : Aggregator :=
  match kind with
  | .sum => newSum
  | .lastValue => newLastValue
  | .minMaxSumCount => newMinMaxSumCount d
  | .histogram => newHistogram d boundaries

/-! ## What an aggregator shows -/

def kind : Aggregator → AggregationKind
  | sum _ => .sum
  | lastValue _ => .lastValue
  | minMaxSumCount .. => .minMaxSumCount
  | histogram .. => .histogram

def sum? : Aggregator → Option Number
  | sum total => some total
  | lastValue _ => none
  | minMaxSumCount kind state => some (state.elim kind.zero (·.sum))
  | histogram _ _ state => some state.sum

/-- The number of measurements, where the aggregator counts them. -/
def count? : Aggregator → Option Count
  | sum _ | lastValue _ => none
  | minMaxSumCount _ state => some (state.elim 0 (·.count))
  | histogram _ _ state => some state.count

def extremes? : Aggregator → Option (Except MetricsError Extremes)
  | minMaxSumCount _ (some state) => some (.ok state)
  | minMaxSumCount _ none => some (.error .noDataCollected)
  | _ => none

def reading? : Aggregator → Option (Except MetricsError Reading)
  | lastValue (some last) => some (.ok last)
  | lastValue none => some (.error .noDataCollected)
  | _ => none

def buckets? : Aggregator → Option (List Binary64 × List Count)
  | histogram _ boundaries state => some (boundaries, state.buckets)
  | _ => none

/-! ## Operations -/

/-- The aggregator with one more measurement, written with the given stamp. -/
def update (a : Aggregator) (n : Number) (d : Descriptor) (stamp : Stamp) : Aggregator :=
  let nk := d.numberKind
  match a with
  | sum total => sum (total.add nk n)
  | lastValue _ => lastValue (some ⟨n, stamp⟩)
  | minMaxSumCount kind none => minMaxSumCount kind (some (.single n))
  | minMaxSumCount kind (some state) => minMaxSumCount kind (some (state.merge nk (.single n)))
  | histogram kind boundaries state =>
    histogram kind boundaries
      (state.record nk (Boundaries.bucket boundaries (n.toBinary64 nk)) n)

/-- The aggregator without measurements, of the same kind and boundaries. -/
def cleared (a : Aggregator) (d : Descriptor) : Aggregator :=
  match a with
  | sum _ => sum d.numberKind.zero
  | lastValue _ => lastValue none
  | minMaxSumCount kind _ => minMaxSumCount kind none
  | histogram kind boundaries _ => histogram kind boundaries (.empty kind boundaries.length)

/-- Why two aggregators cannot be combined, if they cannot. -/
def mismatch? (a b : Aggregator) : Option Mismatch :=
  match a, b with
  | sum _, sum _ | lastValue _, lastValue _ | minMaxSumCount .., minMaxSumCount .. => none
  | histogram _ bs _, histogram _ cs _ =>
    if Boundaries.agree bs cs then none else some (.boundaries bs cs)
  | a, b => some (.kinds a.kind b.kind)

/-- The state of the first aggregator in the place of the second's. -/
def replaceState (a b : Aggregator) : Aggregator :=
  match a, b with
  | minMaxSumCount _ state, minMaxSumCount kind _ => minMaxSumCount kind state
  | histogram _ _ state, histogram kind boundaries _ => histogram kind boundaries state
  | a, _ => a

/-- Moves all measurements of the first aggregator into the second, whose own are lost. -/
def move (a b : Aggregator) (d : Descriptor) : Except MetricsError (Aggregator × Aggregator) :=
  match mismatch? a b with
  | some cause => .error (.inconsistentAggregator cause)
  | none => .ok (a.cleared d, a.replaceState b)

/-- The reading that was written later. -/
def latest : Option Reading → Option Reading → Option Reading
  | ours, none => ours
  | none, theirs => theirs
  | some ours, some theirs =>
    some (if ours.stamp.sequence < theirs.stamp.sequence then theirs else ours)

/-- The first aggregator with the measurements of the second. -/
def merge (a b : Aggregator) (d : Descriptor) : Except MetricsError Aggregator :=
  let nk := d.numberKind
  match mismatch? a b with
  | some cause => .error (.inconsistentAggregator cause)
  | none =>
    .ok <| match a, b with
    | sum x, sum y => sum (x.add nk y)
    | lastValue x, lastValue y => lastValue (latest x y)
    | minMaxSumCount kind x, minMaxSumCount _ y =>
      minMaxSumCount kind (Option.merge (.merge nk) x y)
    | histogram kind boundaries x, histogram _ _ y => histogram kind boundaries (x.merge nk y)
    | a, _ => a

def subtract (a b : Aggregator) (d : Descriptor) : Except MetricsError Aggregator :=
  match a, b with
  | sum x, sum y => .ok (sum (x.sub d.numberKind y))
  | a, b => .error (.inconsistentAggregator (.kinds a.kind b.kind))

end Aggregator
end Metering
