import Metering.Text.Structure
import Metering.Text.Span

/-!
# Contexts

A context limits a piece of work: it may be cancelled through a handle, and it may have a
deadline. Contexts are derived from others; a derived context is never allowed more time, and a
cancelled context passes its state on. The state of all handles is one list of flags, to which
contexts and handles refer by position.
-/

namespace Metering

/-- A reading of the clock, in nanoseconds. -/
abbrev Time := Nat

/-- The inspection text of a reading of the named clock, as whole seconds and the rest. -/
def Time.inspect (clock : String) (t : Time) : String :=
  Text.record clock
    [("tv_sec", Numeral.ofNat (t / 1000000000)), ("tv_nsec", Numeral.ofNat (t % 1000000000))]

/-- The first time that no deadline can hold. -/
def Time.limit : Time := 1 <<< 63 * 1000000000

/-- For every cancellation handle, whether it was used. -/
abbrev CancellationFlags := List Bool

/-- A limit on a piece of work. -/
structure Context where
  flag : Option Nat := none
  deadline : Option Time := none
  deriving DecidableEq, Inhabited

/-- What cancels the contexts that share its flag. -/
structure CancellationHandle where
  flag : Nat
  deriving DecidableEq, Inhabited

namespace Context

def unlimited : Context := {}

/-- Whether the work is to stop: the handle was used, or the deadline is reached. -/
def isCancelled (cx : Context) (flags : CancellationFlags) (now : Time) : Bool :=
  cx.flag.any (fun f => flags.getD f false) || cx.deadline.any (· ≤ now)

/-- A context with a handle of its own, cancelled from the start if this one is. -/
def withCancellation (cx : Context) (flags : CancellationFlags) (now : Time) :
    CancellationFlags × Context × CancellationHandle :=
  (flags ++ [cx.isCancelled flags now], { cx with flag := some flags.length }, ⟨flags.length⟩)

/-- A context with a further deadline. One beyond the clock's range does not count, and of two
deadlines the earlier one does. -/
def withTimeout (cx : Context) (now : Time) (timeout : Span) : Context :=
  let requested := if now + timeout < Time.limit then some (now + timeout) else none
  let deadline :=
    match cx.deadline, requested with
    | some current, some new => some (min current new)
    | current, new => current <|> new
  { cx with deadline }

/-- The order of contexts by deadline; one without deadline comes first. -/
def compareDeadline (cx other : Context) : Ordering :=
  match cx.deadline, other.deadline with
  | none, none => .eq
  | none, some _ => .lt
  | some _, none => .gt
  | some a, some b => compare a b

def inspect (cx : Context) (flags : CancellationFlags) (now : Time) : String :=
  Text.record "Context"
    [("cancelled", Text.truth (cx.isCancelled flags now)),
      ("deadline", Text.optional (cx.deadline.map (Time.inspect "Instant")))]

end Context

def CancellationHandle.cancel (h : CancellationHandle) (flags : CancellationFlags) :
    CancellationFlags :=
  flags.set h.flag true

end Metering
