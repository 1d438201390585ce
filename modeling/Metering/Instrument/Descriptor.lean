import Metering.Instrument.Kind
import Metering.Number
import Metering.Text.Quoted
import Metering.Text.Structure

/-!
# Descriptors

What is known of an instrument: its name, its kinds, and optional texts. Descriptors are equal if
all of that is; a fingerprint of it serves as hash.
-/

namespace Metering

structure MeasurementUnit where
  symbol : String := ""
  deriving DecidableEq, Inhabited

def MeasurementUnit.inspect (u : MeasurementUnit) : String :=
  Text.applied "Unit" [Text.quoted u.symbol]

structure Descriptor where
  name : String
  kind : InstrumentKind
  numberKind : NumberKind
  description : Option String := none
  unit : Option MeasurementUnit := none
  deriving DecidableEq, Inhabited

/-! ## Fingerprints -/

namespace Fingerprint

/-- One step of 64-bit FNV-1a. -/
def step (hash : UInt64) (byte : UInt8) : UInt64 := (hash ^^^ byte.toUInt64) * 0x100000001b3

def ofBytes (bytes : List UInt8) : UInt64 := bytes.foldl step 0xcbf29ce484222325

/-- A text with an end mark, which no text contains. -/
def text (s : String) : List UInt8 := s.toUTF8.toList ++ [0xff]

/-- A small number as eight bytes, the least significant first. -/
def index (n : Nat) : List UInt8 := UInt8.ofNat n :: List.replicate 7 0

end Fingerprint

namespace Descriptor

/-- The hash of all that makes up a descriptor. Absent texts leave no trace in it. -/
def fingerprint (d : Descriptor) : UInt64 :=
  Fingerprint.ofBytes <|
    Fingerprint.text d.name ++ Fingerprint.index d.kind.index ++
      Fingerprint.index d.numberKind.index ++ (d.description.map Fingerprint.text).getD [] ++
      (d.unit.map fun u => Fingerprint.text u.symbol).getD []

def inspect (d : Descriptor) : String :=
  Text.applied "Descriptor"
    [Text.record "DescriptorInner"
      [("name", Text.quoted d.name), ("instrument_kind", d.kind.name),
        ("number_kind", d.numberKind.inspect),
        ("description", Text.optional (d.description.map Text.quoted)),
        ("unit", Text.optional (d.unit.map MeasurementUnit.inspect)),
        ("attribute_hash", Numeral.ofNat d.fingerprint.toNat)]]

end Descriptor
end Metering
