import Metering.Aggregator.Basic
import Metering.Attribute.LabelSet
import Metering.Resource.Basic

/-!
# Accumulations and records

What passes from one stage of a collection to the next: accumulations, which hold the
measurements of a series since the last collection, and checkpoint sets, whose records hold what
is exported of each series for an interval of time.
-/

namespace Metering

/-- What identifies a series: the instrument, the labels, and what produced the measurements. -/
structure SeriesId where
  descriptor : Descriptor
  labels : LabelSet
  resource : Resource
  deriving DecidableEq, Inhabited

def SeriesId.inspect (s : SeriesId) : String :=
  Text.record "Metadata"
    [("descriptor", s.descriptor.inspect), ("labels", s.labels.inspect),
      ("resource", s.resource.inspect)]

/-- The measurements of a series since the last collection. -/
structure Accumulation where
  series : SeriesId
  aggregator : Aggregator
  deriving Inhabited

def Accumulation.inspect (a : Accumulation) : String :=
  Text.record "Accumulation" [("metadata", a.series.inspect)]

/-- What is exported of a series, for the time from start to stop. -/
structure Record where
  series : SeriesId
  aggregator : Aggregator
  start : Time
  stop : Time
  deriving Inhabited

namespace Record

/-- The order of records in a checkpoint set: by name, then by labels, then by resource. -/
def compareKeys (a b : Record) : Ordering :=
  (compare a.series.descriptor.name b.series.descriptor.name).then <|
    (compare a.series.labels.encoded b.series.labels.encoded).then <|
      compare a.series.resource.identity b.series.resource.identity

/-- The inspection text without the times. -/
def inspectUntimed (r : Record) : String :=
  "Record \x7b descriptor: " ++ r.series.descriptor.inspect ++ ", labels: " ++
    r.series.labels.inspect ++ ", aggregation: " ++ r.aggregator.kind.inspect

end Record

structure CheckpointSet where
  records : List Record
  start : Time
  stop : Time
  deriving Inhabited

namespace CheckpointSet

def size (s : CheckpointSet) : Nat := s.records.length

def isEmpty (s : CheckpointSet) : Bool := s.records.isEmpty

/-- Visits the records in order with a state, up to the first failure. -/
def visit {σ ε : Type} (f : σ → Record → σ × Except ε Unit) (state : σ) (s : CheckpointSet) :
    σ × Except ε Unit :=
  go state s.records
where
  go (state : σ) : List Record → σ × Except ε Unit
    | [] => (state, .ok ())
    | r :: rs =>
      match f state r with
      | (state, .ok ()) => go state rs
      | (state, .error e) => (state, .error e)

end CheckpointSet
end Metering
