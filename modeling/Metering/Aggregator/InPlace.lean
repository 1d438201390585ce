import Metering.Aggregator.Basic

/-!
# Aggregators in place

A program holds aggregators in places, which are known by their positions, and works on them
there: it records measurements, moves and merges them from one place to another, and makes copies.
-/

namespace Metering

/-- Work on aggregators in their places. What it changed before it fails stays changed. -/
abbrev InPlace := ExceptT MetricsError (StateM (List Aggregator))

namespace InPlace

variable {α β : Type}

/-- How the work on some aggregators ends, and the aggregators after it. -/
def on (work : InPlace α) (as : List Aggregator) : Except MetricsError α × List Aggregator :=
  work.run.run as

@[simp] theorem on_bind (work : InPlace α) (next : α → InPlace β) (as : List Aggregator) :
    (work >>= next).on as =
      match work.on as with
      | (.ok x, as) => (next x).on as
      | (.error cause, as) => (.error cause, as) := by
  simp only [on, ExceptT.run_bind, StateT.run_bind]
  rcases work.run.run as with ⟨_ | _, _⟩ <;> rfl

@[simp] theorem on_liftM (result : Except MetricsError α) (as : List Aggregator) :
    on (liftM result) as = (result, as) := rfl

/-- The aggregator in a place; a place that does not exist reads as a new sum. -/
def read (i : Nat) : InPlace Aggregator := return (← get).getD i default

@[simp] theorem on_read (i : Nat) (as : List Aggregator) :
    (read i).on as = (.ok (as.getD i default), as) := rfl

def write (i : Nat) (a : Aggregator) : InPlace Unit := modify (·.set i a)

@[simp] theorem on_write (i : Nat) (a : Aggregator) (as : List Aggregator) :
    (write i a).on as = (.ok (), as.set i a) := rfl

/-- Puts an aggregator into a new place. -/
def add (a : Aggregator) : InPlace Unit := modify (· ++ [a])

def update (i : Nat) (n : Number) (d : Descriptor) (stamp : Stamp) : InPlace Unit := do
  write i ((← read i).update n d stamp)

/-- Moves all measurements of the source to the destination, whose own are lost. -/
def move (source destination : Nat) (d : Descriptor) : InPlace Unit := do
  let (a, b) ← (← read source).move (← read destination) d
  write source a
  write destination b

/-- Puts what an operation makes of an aggregator and an operand into the place of the former. -/
def combine (operation : Aggregator → Aggregator → Except MetricsError Aggregator)
    (target operand : Nat) : InPlace Unit := do
  write target (← operation (← read target) (← read operand))

def merge (target operand : Nat) (d : Descriptor) : InPlace Unit :=
  combine (·.merge · d) target operand

def subtract (target operand : Nat) (d : Descriptor) : InPlace Unit :=
  combine (·.subtract · d) target operand

/-- Puts a copy of an aggregator into a new place. -/
def snapshot (i : Nat) : InPlace Unit := do add (← read i)

end InPlace
end Metering
