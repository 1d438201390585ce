import Metering.Attribute.Merge
import Metering.Record

/-!
# Export lines

What the text exporter shows of a record: a name that carries the labels and the resource, and
the values that the record's aggregation has.
-/

namespace Metering

/-- A record prepared for writing; numbers are texts already. -/
structure ExportLine where
  name : String
  sum : Option String := none
  count : Option Count := none
  min : Option String := none
  max : Option String := none
  buckets : Option (List Count) := none
  lastValue : Option String := none
  time : Option Time := none
  deriving Inhabited

namespace ExportLine

/-- The labels of a line: the record's labels win over the exporter's resource, which wins over
the record's own resource. -/
def labels (r : Record) (resource : Resource) : LabelSet :=
  let merged := r.series.resource.merge resource
  .ofList (mergeAttributes r.series.labels.entries merged.attributes.entries)

/-- The name of a line: the instrument's name, and the labels in braces if they show anything. -/
def nameOf (encoder : LabelEncoder) (r : Record) (resource : Resource) : String :=
  let encoded := (labels r resource).encodedWith encoder
  if encoded.isEmpty then r.series.descriptor.name
  else r.series.descriptor.name ++ "\x7b" ++ encoded ++ "\x7d"

/-- The line of a record. A last value that was never set is an error; extremes that were never
set are left out. -/
def ofRecord (encoder : LabelEncoder) (timestamps : Bool) (resource : Resource) (r : Record) :
    Except MetricsError ExportLine := do
  let show? (n : Number) : String := n.inspect r.series.descriptor.numberKind
  let last ← r.aggregator.reading?.elim (.ok none) fun x => x.map some
  let extremes := r.aggregator.extremes?.bind fun x => x.toOption
  return {
    name := nameOf encoder r resource
    sum := r.aggregator.sum?.map show?
    count := r.aggregator.count?
    min := extremes.map fun x => show? x.min
    max := extremes.map fun x => show? x.max
    buckets := r.aggregator.buckets?.map (·.2)
    lastValue := last.map fun x => show? x.value
    time := if timestamps then last.map (·.stamp.time) else none }

/-- The texts of the values, each marked as present or absent, from the sum to the last value. -/
def valueTexts (l : ExportLine) : List (String × String) :=
  [("sum", Text.optional l.sum), ("count", Text.optional (l.count.map Numeral.ofNat)),
    ("min", Text.optional l.min), ("max", Text.optional l.max),
    ("buckets", Text.optional (l.buckets.map fun cs => Text.listing (cs.map Numeral.ofNat))),
    ("last_value", Text.optional l.lastValue)]

/-- All fields on a line of their own, separated by bars; of the time only its presence. -/
def fieldLine (l : ExportLine) : String :=
  "|".intercalate ([l.name] ++ l.valueTexts.map (·.2) ++ [Text.truth l.time.isSome]) ++ "\n"

def inspect (l : ExportLine) : String :=
  Text.record "ExportLine" <|
    [("name", Text.quoted l.name)] ++ l.valueTexts ++
      [("timestamp", Text.optional (l.time.map (Time.inspect "SystemTime")))]

end ExportLine
end Metering
