import Metering.Accumulator.Basic

/-!
# Collections

A collection calls the callbacks, then sweeps the series: those with new measurements are handed
to a processor, and those without for long enough are evicted. A callback that fails or panics
makes the collection partial; a cancelled context ends it before the sweep, without any trace
but the observations made so far.
-/

namespace Metering

/-- What a processor does with an accumulation: measurements that it records meanwhile, and how it
ends. -/
structure ProcessorReply where
  records : List Measurement := []
  outcome : Except Halt Unit := .ok ()

abbrev ProcessorStep (σ : Type) := σ → Accumulation → σ × ProcessorReply

namespace Accumulator

/-! ## Callbacks -/

def cancel (a : Accumulator) (cx : Context) : Accumulator :=
  match cx.flag with
  | some flag => { a with flags := CancellationHandle.cancel ⟨flag⟩ a.flags }
  | none => a

/-- Performs the actions of a callback up to one that ends it. -/
def perform (cx : Context) (registered : List Descriptor) :
    List CallbackAction → Accumulator → Accumulator × Except Halt Unit
  | [], a => (a, .ok ())
  | action :: rest, a =>
    match action with
    | .observe d n labels => perform cx registered rest (a.observe registered d n labels)
    | .record m => perform cx registered rest (a.record m)
    | .register descriptors calls =>
      let (a, result) := a.register descriptors calls
      perform cx registered rest (a.emit (.registered result))
    | .cancel => perform cx registered rest (a.cancel cx)
    | .note text => perform cx registered rest (a.emit (.noted text))
    | .fail error => (a, .error (.error error))
    | .panic cause => (a, .error (.panic cause))

/-- The error that stands for a callback's early end. -/
def callbackError : Halt → MetricsError
  | .error error => .observerCallback error.message
  | .panic (.text message) => .observerCallback message
  | .panic .untyped => .observerCallback "observer callback panicked"

/-- Calls the callback at a position: its error, if it ends early. -/
def callObserver (cx : Context) (i : Nat) (a : Accumulator) :
    Accumulator × Option MetricsError :=
  match a.observers[i]? with
  | none => (a, none)
  | some o =>
    let a := { a with observers := a.observers.set i { o with called := o.called + 1 } }
    match perform cx o.descriptors o.nextActions a with
    | (a, .ok ()) => (a, none)
    | (a, .error halt) =>
      let error := callbackError halt
      (a.log (.observerFailed error), some error)

/-- Calls the callbacks at some positions in order: their errors, unless the context is found
cancelled before one of them. -/
def callObservers (cx : Context) :
    List Nat → Accumulator → Accumulator × Except MetricsError (List MetricsError)
  | [], a => (a, .ok [])
  | i :: is, a =>
    if a.isCancelled cx then (a, .error .cancelled)
    else
      let (a, error) := callObserver cx i a
      let (a, errors) := callObservers cx is a
      (a, errors.map (error.toList ++ ·))

/-! ## The sweep -/

/-- Hands the measurements of a series to the processor: the number of accumulations handed
over. -/
def checkpointSeries {σ : Type} (step : ProcessorStep σ) (s : LiveSeries) (p : σ)
    (a : Accumulator) : Accumulator × σ × Except Panic Nat :=
  match s.current.move s.checkpoint s.descriptor with
  | .error cause => (a.report cause, p, .ok 0)
  | .ok (current, checkpoint) =>
    let a := a.store { s with current, checkpoint }
    let (p, reply) := step p ⟨⟨s.descriptor, s.labels, a.resource⟩, checkpoint⟩
    let a := reply.records.foldl record a
    match reply.outcome with
    | .ok () => (a, p, .ok 1)
    | .error (.error cause) => (a.report cause, p, .ok 1)
    | .error (.panic cause) => (a, p, .error cause)

/-- Marks a series as collected, up to the number of measurements that the sweep found. -/
def markCollected (found : LiveSeries) (a : Accumulator) : Accumulator :=
  { a with series := a.series.map fun s =>
      if s.isFor found.descriptor found.labels then
        { s with collected := found.updates, idleSweeps := 0 }
      else s }

/-- Hands over the series that the sweep found pending, one after the other. -/
def checkpointAll {σ : Type} (step : ProcessorStep σ) :
    List LiveSeries → σ → Accumulator → Accumulator × σ × Except Panic Nat
  | [], p, a => (a, p, .ok 0)
  | found :: rest, p, a =>
    let s := (a.find? found.descriptor found.labels).getD found
    match checkpointSeries step s p a with
    | (a, p, .error cause) => (a, p, .error cause)
    | (a, p, .ok n) =>
      let (a, p, total) := checkpointAll step rest p (markCollected found a)
      (a, p, total.map (n + ·))

/-- One more idle sweep for the series without new measurements. -/
def ageIdle (a : Accumulator) : Accumulator :=
  { a with series := a.series.map fun s =>
      if s.isPending then s else { s with idleSweeps := s.idleSweeps + 1 } }

/-- Whether a series was idle for long enough and has nothing to lose. -/
def isEvictable (a : Accumulator) (s : LiveSeries) : Bool :=
  a.idleCycles ≤ s.idleSweeps && !s.isPending

/-- Evicts the series that were idle for long enough. -/
def evictIdle (a : Accumulator) : Accumulator :=
  let evicted := a.series.filter a.isEvictable
  let kept := a.series.filter fun s => !a.isEvictable s
  evicted.foldl (fun a s => a.log (.seriesEvicted s.descriptor.name)) { a with series := kept }

/-- Sweeps all series: the number of accumulations handed to the processor. -/
def sweep {σ : Type} (step : ProcessorStep σ) (p : σ) (a : Accumulator) :
    Accumulator × σ × Except Panic Nat :=
  let pending := a.series.filter (·.isPending)
  match checkpointAll step pending p a.ageIdle with
  | (a, p, .error cause) => (a, p, .error cause)
  | (a, p, .ok n) => (a.evictIdle, p, .ok n)

/-! ## The whole -/

/-- Collects: the number of accumulations handed to the processor. -/
def collect {σ : Type} (cx : Context) (step : ProcessorStep σ) (p : σ) (a : Accumulator) :
    Accumulator × σ × Except Halt Nat :=
  if a.isPoisoned then (a, p, .error (.error .poisoned))
  else
    match callObservers cx (List.range a.observers.length) a with
    | (a, .error cause) => (a, p, .error (.error cause))
    | (a, .ok errors) =>
      if a.isCancelled cx then (a, p, .error (.error .cancelled))
      else
        match sweep step p a with
        | (a, p, .error cause) => ({ a with isPoisoned := true }, p, .error (.panic cause))
        | (a, p, .ok n) =>
          let a := { a with epoch := a.epoch + 1 }
          if errors.isEmpty then (a, p, .ok n)
          else (a, p, .error (.error (.partialCollection n errors)))

end Accumulator
end Metering
