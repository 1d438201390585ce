/-!
# Octets

Natural numbers as big-endian lists of bytes of a fixed length.
-/

namespace Metering.Octets

/-- The value of a list of bytes, the most significant first. -/
def value (bytes : List UInt8) : Nat := bytes.foldl (fun n b => n * 256 + b.toNat) 0

/-- The lowest bytes of a number, the most significant first. -/
def ofNat : Nat → Nat → List UInt8
  | 0, _ => []
  | count + 1, n => ofNat count (n / 256) ++ [UInt8.ofNat n]

end Metering.Octets
