import Metering.Text.Structure
import Metering.Trace.Identifier

/-!
# Span contexts

What identifies a span across processes. A context is valid if both its identifiers are.
-/

namespace Metering

/-- What is known of a span: its trace, itself, flags, and whether another process made it. -/
structure SpanContext where
  traceId : TraceId
  spanId : SpanId
  flags : UInt8
  isRemote : Bool
  deriving DecidableEq, Inhabited

namespace SpanContext

def empty : SpanContext := ⟨.invalid, .invalid, 0, false⟩

def isValid (c : SpanContext) : Bool := c.traceId ≠ .invalid && c.spanId ≠ .invalid

/-- The lowest flag marks a sampled span. -/
def isSampled (c : SpanContext) : Bool := c.flags &&& 1 = 1

def inspect (c : SpanContext) : String :=
  Text.record "SpanContext"
    [("trace_id", c.traceId.render), ("span_id", c.spanId.render),
      ("trace_flags", Text.applied "TraceFlags" [Numeral.ofNat c.flags.toNat]),
      ("is_remote", Text.truth c.isRemote)]

end SpanContext
end Metering
