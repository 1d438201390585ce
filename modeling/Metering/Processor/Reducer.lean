import Metering.Processor.Basic

/-!
# Label reduction

Filters that take labels away from the accumulations of an instrument before they are processed,
so that series which differ only in those labels become one.
-/

namespace Metering

/-- Whether a label is kept; asking may panic. -/
abbrev LabelFilter := KeyValue → Except Panic Bool

namespace LabelFilter

def ofPredicate (keep : KeyValue → Bool) : LabelFilter := fun kv => .ok (keep kv)

def all : LabelFilter := ofPredicate fun _ => true

def keeping (keys : List Key) : LabelFilter := ofPredicate (·.key ∈ keys)

def dropping (keys : List Key) : LabelFilter := ofPredicate (·.key ∉ keys)

/-- Keeps the labels whose values are of some kinds. -/
def ofKinds (kinds : List String) : LabelFilter := ofPredicate (·.value.kindName ∈ kinds)

/-- Panics at the labels with some keys, and is another filter otherwise. -/
def panickingAt (keys : List Key) (cause : Panic) (f : LabelFilter) : LabelFilter := fun kv =>
  if kv.key ∈ keys then .error cause else f kv

end LabelFilter

/-- The filter for an instrument, if its labels are to be reduced. -/
abbrev LabelFilterSelector := Descriptor → Option LabelFilter

namespace LabelFilterSelector

/-- The filter of the first rule that names the instrument, or that names none and so stands for
all instruments. -/
def ofRules (rules : List (Option (List String) × LabelFilter)) : LabelFilterSelector := fun d =>
  (rules.find? fun (names, _) => names.all (d.name ∈ ·)).map (·.2)

/-- The accumulation with the labels that the instrument's filter keeps. -/
def reduce (select : LabelFilterSelector) (acc : Accumulation) : Except Panic Accumulation :=
  match select acc.series.descriptor with
  | none => .ok acc
  | some keep =>
    (acc.series.labels.filterM keep).map fun labels =>
      { acc with series := { acc.series with labels } }

/-- The accumulation after several reductions, the first of the list first. -/
def reduceAll (selects : List LabelFilterSelector) (acc : Accumulation) :
    Except Panic Accumulation :=
  selects.foldlM (fun acc select => reduce select acc) acc

end LabelFilterSelector
end Metering
