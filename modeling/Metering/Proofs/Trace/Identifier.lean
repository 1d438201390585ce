import Mathlib
import Metering.Trace.Identifier

/-!
# Identifiers as bytes

A number below the bound of a length has one list of bytes of that length, so that an identifier
and its bytes determine each other.
-/

namespace Metering

namespace Octets

@[simp] theorem value_nil : value [] = 0 := rfl

theorem value_snoc (bytes : List UInt8) (b : UInt8) :
    value (bytes ++ [b]) = value bytes * 256 + b.toNat := by
  simp [value]

@[simp] theorem length_ofNat (count n : Nat) : (ofNat count n).length = count := by
  induction count generalizing n with
  | zero => rfl
  | succ count ih => simp [ofNat, ih]

theorem value_lt (bytes : List UInt8) : value bytes < 256 ^ bytes.length := by
  induction bytes using List.reverseRecOn with
  | nil => simp
  | append_singleton bytes b ih =>
    rw [value_snoc, List.length_append, List.length_singleton, Nat.pow_succ]
    have hb := b.toNat_lt
    omega

theorem value_ofNat (count n : Nat) : value (ofNat count n) = n % 256 ^ count := by
  induction count generalizing n with
  | zero => simp [ofNat, Nat.mod_one]
  | succ count ih =>
    have hlast : (UInt8.ofNat n).toNat = n % 256 := UInt8.toNat_ofNat'
    rw [ofNat, value_snoc, ih, hlast, Nat.pow_succ, Nat.mul_comm (256 ^ count), Nat.mod_mul]
    omega

theorem ofNat_value (bytes : List UInt8) : ofNat bytes.length (value bytes) = bytes := by
  induction bytes using List.reverseRecOn with
  | nil => rfl
  | append_singleton bytes b ih =>
    have hb := b.toNat_lt
    have hquot : value (bytes ++ [b]) / 256 = value bytes := by
      rw [value_snoc]
      omega
    have hlast : UInt8.ofNat (value (bytes ++ [b])) = b := by
      apply UInt8.toNat_inj.mp
      rw [value_snoc, UInt8.toNat_ofNat']
      omega
    rw [List.length_append, List.length_singleton, ofNat, hquot, hlast, ih]

theorem value_eq_zero_iff (bytes : List UInt8) : value bytes = 0 ↔ ∀ b ∈ bytes, b = 0 := by
  induction bytes using List.reverseRecOn with
  | nil => simp
  | append_singleton bytes b ih =>
    have hb : b.toNat = 0 ↔ b = 0 := UInt8.toNat_inj (b := 0)
    have hsum : value bytes * 256 + b.toNat = 0 ↔ value bytes = 0 ∧ b.toNat = 0 := by omega
    rw [value_snoc, hsum, ih, hb]
    simp [or_imp, forall_and]

theorem toNat_bits {width : Nat} {bytes : List UInt8} (h : width = 8 * bytes.length) :
    (BitVec.ofNat width (value bytes)).toNat = value bytes := by
  have hlt := value_lt bytes
  rw [BitVec.toNat_ofNat, h, Nat.pow_mul]
  exact Nat.mod_eq_of_lt hlt

theorem bits_ofNat {width count : Nat} (h : width = 8 * count) (bits : BitVec width) :
    BitVec.ofNat width (value (ofNat count bits.toNat)) = bits := by
  have hbound : 2 ^ width = 256 ^ count := by
    rw [h, Nat.pow_mul]
  have hlt : bits.toNat < 256 ^ count := hbound ▸ bits.isLt
  rw [value_ofNat, Nat.mod_eq_of_lt hlt, BitVec.ofNat_toNat, BitVec.setWidth_eq]

theorem bits_eq_zero_iff {width : Nat} {bytes : List UInt8} (h : width = 8 * bytes.length) :
    BitVec.ofNat width (value bytes) = 0 ↔ ∀ b ∈ bytes, b = 0 := by
  rw [← value_eq_zero_iff, ← toNat_bits h]
  exact BitVec.toNat_eq.trans (by simp)

end Octets

namespace TraceId

@[simp] theorem length_toBytes (id : TraceId) : id.toBytes.length = 16 := Octets.length_ofNat 16 _

theorem toNat_ofBytes {bytes : List UInt8} (h : bytes.length = 16) :
    (ofBytes bytes).value.toNat = Octets.value bytes :=
  Octets.toNat_bits (by rw [h])

@[simp] theorem ofBytes_toBytes (id : TraceId) : ofBytes id.toBytes = id :=
  congrArg mk (Octets.bits_ofNat (show 128 = 8 * 16 from rfl) id.value)

theorem toBytes_ofBytes {bytes : List UInt8} (h : bytes.length = 16) :
    (ofBytes bytes).toBytes = bytes := by
  rw [toBytes, toNat_ofBytes h, ← h, Octets.ofNat_value]

theorem ofBytes_eq_invalid_iff {bytes : List UInt8} (h : bytes.length = 16) :
    ofBytes bytes = invalid ↔ ∀ b ∈ bytes, b = 0 := by
  have hbits : 128 = 8 * bytes.length := by rw [h]
  rw [← Octets.bits_eq_zero_iff hbits, invalid, ofBytes, TraceId.mk.injEq]

end TraceId

namespace SpanId

@[simp] theorem length_toBytes (id : SpanId) : id.toBytes.length = 8 := Octets.length_ofNat 8 _

theorem toNat_ofBytes {bytes : List UInt8} (h : bytes.length = 8) :
    (ofBytes bytes).value.toNat = Octets.value bytes :=
  Octets.toNat_bits (by rw [h])

@[simp] theorem ofBytes_toBytes (id : SpanId) : ofBytes id.toBytes = id :=
  congrArg mk (Octets.bits_ofNat (show 64 = 8 * 8 from rfl) id.value)

theorem toBytes_ofBytes {bytes : List UInt8} (h : bytes.length = 8) :
    (ofBytes bytes).toBytes = bytes := by
  rw [toBytes, toNat_ofBytes h, ← h, Octets.ofNat_value]

theorem ofBytes_eq_invalid_iff {bytes : List UInt8} (h : bytes.length = 8) :
    ofBytes bytes = invalid ↔ ∀ b ∈ bytes, b = 0 := by
  have hbits : 64 = 8 * bytes.length := by rw [h]
  rw [← Octets.bits_eq_zero_iff hbits, invalid, ofBytes, SpanId.mk.injEq]

end SpanId
end Metering
