/-!
# Aggregation kinds

The four ways in which the measurements of a series are summed up.
-/

namespace Metering

/-- How measurements are summed up. -/
inductive AggregationKind where
  | sum
  | lastValue
  | minMaxSumCount
  | histogram
  deriving DecidableEq, Inhabited

namespace AggregationKind

def name : AggregationKind → String
  | sum => "SUM"
  | lastValue => "LAST_VALUE"
  | minMaxSumCount => "MIN_MAX_SUM_COUNT"
  | histogram => "HISTOGRAM"

def ofName? : String → Option AggregationKind
  | "SUM" => some sum
  | "LAST_VALUE" => some lastValue
  | "MIN_MAX_SUM_COUNT" => some minMaxSumCount
  | "HISTOGRAM" => some histogram
  | _ => none

def inspect : AggregationKind → String
  | sum => "Sum"
  | lastValue => "LastValue"
  | minMaxSumCount => "MinMaxSumCount"
  | histogram => "Histogram"

end AggregationKind
end Metering
