import Metering.Record
import Metering.Temporality

/-!
# The processor

A processor turns the accumulations of a collection into a checkpoint set. A collection is
started, receives accumulations, and is finished or aborted. For every series an entry remembers
the accumulations of the current collection and, where the exported temporality is not the one in
which the series reports, a running total.
-/

namespace Metering

/-- What a processor knows of a series. Collections are numbered; an entry's current aggregator
holds the measurements of the last collection in which it was updated. -/
structure Entry where
  series : SeriesId
  /-- the collection that last updated the entry -/
  updated : Int
  /-- whether no collection was finished since the entry was made -/
  isFresh : Bool
  /-- whether earlier values are remembered -/
  isStateful : Bool
  temporality : Temporality
  current : Aggregator
  total : Option Aggregator := none
  delta : Option Aggregator := none

/-- The state of a processor. The numbers of collections started and finished agree between
collections and differ by one during a collection; they hold for fewer than 2^64 calls. -/
structure Processor where
  /-- the entries, in the order in which the end of a collection goes through them -/
  entries : List Entry := []
  /-- the start of all totals -/
  processStart : Time
  /-- the end of the last checkpoint set -/
  intervalStart : Time
  started : Int := 0
  finished : Int := 0

namespace Processor

def new (now : Time) : Processor := { processStart := now, intervalStart := now }

/-- Whether exactly one collection was started and not yet finished. -/
def isCollecting (p : Processor) : Bool := p.started = p.finished + 1

def startCollection (p : Processor) : Processor := { p with started := p.started + 1 }

/-! ## Accumulations -/

/-- Whether earlier values of a series have to be remembered. -/
def needsMemory (d : Descriptor) (kind : AggregationKind) (t : Temporality) : Bool :=
  t.memoryRequired d.kind && (!d.kind.isPrecomputedSum || kind = .sum)

/-- The entry of a series that is new in a collection. -/
def newEntry (select : TemporalitySelector) (collection : Int) (acc : Accumulation) : Entry :=
  let d := acc.series.descriptor
  let kind := acc.aggregator.kind
  let temporality := select d kind
  { series := acc.series, updated := collection, isFresh := true,
    isStateful := needsMemory d kind temporality, temporality, current := acc.aggregator }

/-- An entry with one more accumulation: the first one in a collection replaces the data of
earlier collections, and further ones are merged. -/
def receive (collection : Int) (acc : Accumulation) (e : Entry) : Except MetricsError Entry :=
  if e.updated = collection then do
    let current ← e.current.merge acc.aggregator e.series.descriptor
    return { e with current }
  else return { e with current := acc.aggregator, updated := collection }

/-- The entries with one more accumulation, which goes to the entry of its series. -/
def insert (select : TemporalitySelector) (collection : Int) (acc : Accumulation) :
    List Entry → Except MetricsError (List Entry)
  | [] => return [newEntry select collection acc]
  | e :: es =>
    if e.series = acc.series then return (← receive collection acc e) :: es
    else return e :: (← insert select collection acc es)

def process (select : TemporalitySelector) (acc : Accumulation) (p : Processor) :
    Except MetricsError Processor :=
  if p.isCollecting then do
    let entries ← insert select p.finished acc p.entries
    return { p with entries }
  else throw .inconsistentState

/-! ## The end of a collection -/

/-- An entry after its collection was aborted: dropped if the collection made it, else as if the
collection had not updated it. -/
def retract (collection : Int) (e : Entry) : Option Entry :=
  if e.updated = collection then
    (if e.isFresh then none else some { e with updated := collection - 1 })
  else some e

def abortCollection (p : Processor) : Processor :=
  { p with entries := p.entries.filterMap (retract p.finished), started := p.finished }

/-- The change of a total since the last collection, which also is remembered. -/
def precomputedDelta (e : Entry) : Except MetricsError Entry := do
  let delta ← match e.total with
    | some previous => e.current.subtract previous e.series.descriptor
    | none => pure e.current
  return { e with delta := some delta, total := some e.current }

/-- The running total with the changes of the current collection. -/
def accumulate (e : Entry) : Except MetricsError Entry := do
  let total ← match e.total with
    | some total => total.merge e.current e.series.descriptor
    | none => pure e.current
  return { e with total := some total }

/-- An entry at the end of a collection: one that remembers nothing and was not updated is
dropped, and one that was updated brings its memory up to date. -/
def settle (collection : Int) (e : Entry) : Except MetricsError (Option Entry) :=
  let e := { e with isFresh := false }
  if !e.isStateful then return (if e.updated = collection then some e else none)
  else if e.updated ≠ collection then return some e
  else if e.series.descriptor.kind.isPrecomputedSum then some <$> precomputedDelta e
  else some <$> accumulate e

/-- Settles the entries in order up to the first error. The entry that fails and those after it
are kept; the former is not fresh any more. -/
def settleAll (collection : Int) : List Entry → List Entry × Except MetricsError Unit
  | [] => ([], .ok ())
  | e :: es =>
    match settle collection e with
    | .ok kept =>
      let (rest, result) := settleAll collection es
      (kept.toList ++ rest, result)
    | .error cause => ({ e with isFresh := false } :: es, .error cause)

/-- What is exported of an entry at the end of a collection: an aggregator, and the start of its
time. -/
def exported? (p : Processor) (collection : Int) (e : Entry) : Option (Aggregator × Time) :=
  match e.temporality, e.isStateful with
  | .cumulative, true => e.total.map fun total => (total, p.processStart)
  | .cumulative, false => some (e.current, p.processStart)
  | .delta, true =>
    if e.updated = collection then e.delta.map fun delta => (delta, p.intervalStart) else none
  | .delta, false => some (e.current, p.intervalStart)

/-- The records of all entries, in their order. -/
def records (p : Processor) (collection : Int) (now : Time) : List Record :=
  let rs := p.entries.filterMap fun e =>
    (exported? p collection e).map fun (aggregator, start) => ⟨e.series, aggregator, start, now⟩
  rs.mergeSort fun a b => (a.compareKeys b).isLE

/-- Finishes the current collection. The collection counts as finished also where an entry
fails; then nothing is exported, and the interval goes on. -/
def finishCollection (now : Time) (p : Processor) :
    Processor × Except MetricsError CheckpointSet :=
  if p.isCollecting then
    let collection := p.finished
    let (entries, result) := settleAll collection p.entries
    let p := { p with entries, finished := collection + 1 }
    match result with
    | .error cause => (p, .error cause)
    | .ok () =>
      ({ p with intervalStart := now }, .ok ⟨p.records collection now, p.intervalStart, now⟩)
  else (p, .error .inconsistentState)

end Processor
end Metering
