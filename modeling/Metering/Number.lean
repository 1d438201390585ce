import Metering.Decimal.Notation
import Metering.Text.Structure

/-!
# Measured numbers

A measured number is 64 raw bits, which gain a meaning with a number kind. Integer arithmetic
stops at the ends of the range instead of wrapping.
-/

namespace Metering

/-- How the bits of a number are read. -/
inductive NumberKind where
  | i64
  | f64
  | u64
  deriving DecidableEq, Inhabited

/-- Sixty-four bits of a measurement. -/
structure Number where
  bits : UInt64
  deriving DecidableEq, Inhabited

def signedLowest : Int := -0x8000000000000000

def signedHighest : Int := 0x7fffffffffffffff

def unsignedHighest : Int := 0xffffffffffffffff

/-- The integer of an interval that is nearest to the given one. -/
def clamp (lo hi i : Int) : Int := Max.max lo (Min.min hi i)

namespace Number

def ofInt64 (i : Int64) : Number := ⟨i.toUInt64⟩

def ofBinary64 (x : Binary64) : Number := ⟨x.bits⟩

def signed (n : Number) : Int := n.bits.toInt64.toInt

def unsigned (n : Number) : Nat := n.bits.toNat

def float (n : Number) : Binary64 := ⟨n.bits⟩

def isNaN (n : Number) : Bool := n.float.isNaN

end Number

namespace NumberKind

def name : NumberKind → String
  | i64 => "i64"
  | f64 => "f64"
  | u64 => "u64"

def ofName? : String → Option NumberKind
  | "i64" => some i64
  | "f64" => some f64
  | "u64" => some u64
  | _ => none

def inspect : NumberKind → String
  | i64 => "I64"
  | f64 => "F64"
  | u64 => "U64"

def index : NumberKind → Nat
  | i64 => 0
  | f64 => 1
  | u64 => 2

/-- The number nearest to an integer, within the range of an integer kind. -/
def ofInt (kind : NumberKind) (i : Int) : Number :=
  match kind with
  | i64 => .ofInt64 (Int64.ofInt (clamp signedLowest signedHighest i))
  | u64 => ⟨UInt64.ofNat (clamp 0 unsignedHighest i).toNat⟩
  | f64 => .ofBinary64 (.ofInt i)

/-- The integer that the bits are in an integer kind. -/
def toInt (kind : NumberKind) (n : Number) : Int :=
  match kind with
  | i64 => n.signed
  | u64 => n.unsigned
  | f64 => n.float.truncate

/-- All three kinds have zero bits as zero. -/
def zero (_ : NumberKind) : Number := ⟨0⟩

def max : NumberKind → Number
  | i64 => ofInt i64 signedHighest
  | f64 => .ofBinary64 (.largest false)
  | u64 => ofInt u64 unsignedHighest

/-- The lowest number; of the doubles the most negative finite one. -/
def min : NumberKind → Number
  | i64 => ofInt i64 signedLowest
  | f64 => .ofBinary64 (.largest true)
  | u64 => ofInt u64 0

end NumberKind

namespace Number

/-- The sum, which stays within an integer kind's range. -/
def add (kind : NumberKind) (a b : Number) : Number :=
  match kind with
  | .f64 => .ofBinary64 (a.float.add b.float)
  | _ => kind.ofInt (kind.toInt a + kind.toInt b)

/-- The difference, which stays within an integer kind's range. -/
def sub (kind : NumberKind) (a b : Number) : Number :=
  match kind with
  | .f64 => .ofBinary64 (a.float.sub b.float)
  | _ => kind.ofInt (kind.toInt a - kind.toInt b)

/-- The order of two numbers; a NaN is unordered. -/
def compare? (kind : NumberKind) (a b : Number) : Option Ordering :=
  match kind with
  | .f64 => a.float.compare? b.float
  | _ => some (compare (kind.toInt a) (kind.toInt b))

/-- Whether a number is below zero; of the doubles, also a NaN with a sign. -/
def isNegative (kind : NumberKind) (n : Number) : Bool :=
  match kind with
  | .i64 => n.signed < 0
  | .u64 => false
  | .f64 => n.float.isNegative && !n.float.numericEq .zero

def toBinary64 (kind : NumberKind) (n : Number) : Binary64 :=
  match kind with
  | .f64 => n.float
  | _ => .ofInt (kind.toInt n)

/-- The bits as an unsigned integer; doubles are truncated into its range. -/
def toUnsigned (kind : NumberKind) (n : Number) : Nat :=
  match kind with
  | .f64 => (n.float.clampTo 0 unsignedHighest).toNat
  | _ => n.unsigned

/-- The bits as a signed integer; doubles are truncated into its range. -/
def toSigned (kind : NumberKind) (n : Number) : Int :=
  match kind with
  | .f64 => n.float.clampTo signedLowest signedHighest
  | _ => n.signed

def inspect (kind : NumberKind) (n : Number) : String :=
  match kind with
  | .f64 => Decimal.marked n.float
  | _ => Numeral.ofInt (kind.toInt n)

/-- The inspection text of a shared cell that holds the number, which shows the raw bits. -/
def inspectCell (n : Number) : String :=
  Text.applied "AtomicNumber" [Text.applied "Number" [Numeral.ofNat n.unsigned]]

end Number
end Metering
