import Metering.Text.Numeral
import Metering.Trace.Octets

/-!
# Trace and span identifiers

An identifier is a number of fixed width, written in hexadecimal with all its zeros. Reading is
more liberal than writing: either case, any number of digits, and a plus sign in front.
-/

namespace Metering

/-- A number of 128 bits; zero identifies no trace. -/
structure TraceId where
  value : BitVec 128
  deriving DecidableEq, Inhabited

/-- A number of 64 bits; zero identifies no span. -/
structure SpanId where
  value : BitVec 64
  deriving DecidableEq, Inhabited

namespace TraceId

def invalid : TraceId := ⟨0⟩

/-- Thirty-two hexadecimal digits. -/
def render (id : TraceId) : String := Numeral.paddedHex 32 id.value.toNat

def read (s : String) : Except Numeral.Fault TraceId :=
  (Numeral.read 16 (1 <<< 128 - 1) s).map fun n => ⟨BitVec.ofNat 128 n⟩

/-- The sixteen bytes, the most significant first. -/
def toBytes (id : TraceId) : List UInt8 := Octets.ofNat 16 id.value.toNat

def ofBytes (bytes : List UInt8) : TraceId := ⟨BitVec.ofNat 128 (Octets.value bytes)⟩

end TraceId

namespace SpanId

def invalid : SpanId := ⟨0⟩

/-- Sixteen hexadecimal digits. -/
def render (id : SpanId) : String := Numeral.paddedHex 16 id.value.toNat

def read (s : String) : Except Numeral.Fault SpanId :=
  (Numeral.read 16 (1 <<< 64 - 1) s).map fun n => ⟨BitVec.ofNat 64 n⟩

/-- The eight bytes, the most significant first. -/
def toBytes (id : SpanId) : List UInt8 := Octets.ofNat 8 id.value.toNat

def ofBytes (bytes : List UInt8) : SpanId := ⟨BitVec.ofNat 64 (Octets.value bytes)⟩

end SpanId
end Metering
