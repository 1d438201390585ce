import Metering.Trace.SpanContext

/-!
# The binary form of span contexts

A version byte, then tagged fields in a fixed order: the trace identifier, the span identifier
and the flags. A reader ignores the version, requires both identifiers, and takes a message that
ends after them as one without flags. An invalid context is written as zeros alone.
-/

namespace Metering.Wire

def size : Nat := 29

def encode (c : SpanContext) : List UInt8 :=
  if c.isValid then
    [0, 0] ++ c.traceId.toBytes ++ [1] ++ c.spanId.toBytes ++ [2, c.flags]
  else List.replicate size 0

/-- Takes a field of a given length after its tag, and the rest. -/
def field? (tag : UInt8) (length : Nat) : List UInt8 → Option (List UInt8 × List UInt8)
  | [] => none
  | found :: rest =>
    if found = tag ∧ length ≤ rest.length then some (rest.splitAt length) else none

/-- The flags of a message, none of which is set where the message ends early. -/
def flags? : List UInt8 → Option UInt8
  | [] => some 0
  | rest => do
    let (flags, _) ← field? 2 1 rest
    flags.head?

/-- The valid context that a message holds, marked as coming from elsewhere. -/
def decode? (bytes : List UInt8) : Option SpanContext := do
  let _ :: rest := bytes | none
  let (traceId, rest) ← field? 0 16 rest
  let (spanId, rest) ← field? 1 8 rest
  let flags ← flags? rest
  let c : SpanContext := ⟨.ofBytes traceId, .ofBytes spanId, flags, true⟩
  if c.isValid then some c else none

/-- The context of a message, or the empty context for any other bytes. -/
def decode (bytes : List UInt8) : SpanContext := (decode? bytes).getD .empty

end Metering.Wire
