import Mathlib
import Metering.Proofs.Text.Hexadecimal
import Metering.Proofs.Trace.Identifier

/-!
# The forms of identifiers

An identifier has one form as bytes and one as text, and comes back from both. Other texts are read
as well: an identifier is read from every hexadecimal numeral of its number.
-/

namespace Metering

open Numeral (IsHexNumeral)

/-- How identifiers of a number of bytes are written as texts and read from them: with two digits
for a byte, and from every numeral of a number that the bytes can hold. -/
structure HasTextForm {Id : Type} (count : Nat) (number : Id → Nat) (render : Id → String)
    (read : String → Except Numeral.Fault Id) : Prop where
  read_render : ∀ id, read (render id) = .ok id
  length_render : ∀ id, (render id).length = 2 * count
  digits_render : ∀ id, ∀ c ∈ (render id).toList, c ∈ "0123456789abcdef".toList
  read_iff : ∀ s id, read s = .ok id ↔ IsHexNumeral s (number id)
  readable_iff : ∀ s, (∃ id, read s = .ok id) ↔ ∃ n < 2 ^ (8 * count), IsHexNumeral s n

section Numbers

variable {Id : Type} {count : Nat} {number : Id → Nat} {ofNumber : Nat → Id}

theorem read_map_eq_ok_iff (hnumber : ∀ n < 2 ^ (8 * count), number (ofNumber n) = n)
    (hid : ∀ id, number id < 2 ^ (8 * count) ∧ ofNumber (number id) = id) {s : String} {id : Id} :
    (Numeral.read 16 (1 <<< (8 * count) - 1) s).map ofNumber = .ok id ↔
      IsHexNumeral s (number id) := by
  have hlimit (n : Nat) : n ≤ 1 <<< (8 * count) - 1 ↔ n < 2 ^ (8 * count) := by
    rw [Nat.one_shiftLeft]
    exact Nat.le_sub_one_iff_lt (Nat.two_pow_pos _)
  constructor
  · intro h
    cases hread : Numeral.read 16 (1 <<< (8 * count) - 1) s with
    | error fault =>
      rw [hread] at h
      cases h
    | ok n =>
      rw [hread] at h
      obtain ⟨hs, hn⟩ := Numeral.read_eq_ok_iff.mp hread
      obtain rfl := Except.ok.inj h
      rwa [hnumber n ((hlimit n).mp hn)]
  · intro hs
    obtain ⟨hlt, hback⟩ := hid id
    rw [Numeral.read_eq_ok_iff.mpr ⟨hs, (hlimit _).mpr hlt⟩]
    exact congrArg Except.ok hback

/-- Identifiers that are the numbers below a bound have text forms. -/
theorem HasTextForm.of_number (hcount : 0 < count)
    (hnumber : ∀ n < 2 ^ (8 * count), number (ofNumber n) = n)
    (hid : ∀ id, number id < 2 ^ (8 * count) ∧ ofNumber (number id) = id) :
    HasTextForm count number (fun id => Numeral.paddedHex (2 * count) (number id))
      fun s => (Numeral.read 16 (1 <<< (8 * count) - 1) s).map ofNumber where
  read_render id :=
    (read_map_eq_ok_iff hnumber hid).mpr (Numeral.isHexNumeral_paddedHex _ (number id))
  length_render id := by
    obtain ⟨k, hk⟩ : ∃ k, 2 * count = k + 1 := ⟨2 * count - 1, by omega⟩
    have hlt : number id < 1 <<< (4 * (k + 1)) := by
      rw [← hk, ← Nat.mul_assoc, Nat.one_shiftLeft]
      exact (hid id).1
    rw [hk]
    exact Numeral.length_paddedHex hlt
  digits_render id c hc := Numeral.mem_hexDigits_of_mem_paddedHex hc
  read_iff s id := read_map_eq_ok_iff hnumber hid
  readable_iff s := by
    constructor
    · rintro ⟨id, h⟩
      exact ⟨number id, (hid id).1, (read_map_eq_ok_iff hnumber hid).mp h⟩
    · rintro ⟨n, hn, hs⟩
      exact ⟨ofNumber n, (read_map_eq_ok_iff hnumber hid).mpr (by rwa [hnumber n hn])⟩

end Numbers

theorem TraceId.hasTextForm : HasTextForm 16 (fun id : TraceId => id.value.toNat) render read := by
  refine .of_number (by decide) (fun n hn => ?_) fun id => ⟨id.value.isLt, congrArg mk ?_⟩
  · exact (BitVec.toNat_ofNat n 128).trans (Nat.mod_eq_of_lt hn)
  · rw [BitVec.ofNat_toNat, BitVec.setWidth_eq]

theorem SpanId.hasTextForm : HasTextForm 8 (fun id : SpanId => id.value.toNat) render read := by
  refine .of_number (by decide) (fun n hn => ?_) fun id => ⟨id.value.isLt, congrArg mk ?_⟩
  · exact (BitVec.toNat_ofNat n 64).trans (Nat.mod_eq_of_lt hn)
  · rw [BitVec.ofNat_toNat, BitVec.setWidth_eq]

/-- The identifiers of traces and of spans come back from their texts and from their bytes, and
bytes of the right number come back from the identifier that they are read as. A text is read if and
only if it is a hexadecimal numeral, of either case and with any zeros in front, of a number that
fits, and it is then read as that number. -/
theorem identifier_forms_agree :
    HasTextForm 16 (fun id : TraceId => id.value.toNat) TraceId.render TraceId.read ∧
      (∀ id : TraceId, id.toBytes.length = 16 ∧ TraceId.ofBytes id.toBytes = id) ∧
      (∀ bytes : List UInt8, bytes.length = 16 → (TraceId.ofBytes bytes).toBytes = bytes) ∧
      HasTextForm 8 (fun id : SpanId => id.value.toNat) SpanId.render SpanId.read ∧
      (∀ id : SpanId, id.toBytes.length = 8 ∧ SpanId.ofBytes id.toBytes = id) ∧
      ∀ bytes : List UInt8, bytes.length = 8 → (SpanId.ofBytes bytes).toBytes = bytes :=
  ⟨TraceId.hasTextForm, fun id => ⟨id.length_toBytes, id.ofBytes_toBytes⟩,
    fun _ => TraceId.toBytes_ofBytes, SpanId.hasTextForm,
    fun id => ⟨id.length_toBytes, id.ofBytes_toBytes⟩, fun _ => SpanId.toBytes_ofBytes⟩

/-- A span identifier in eight bytes, and in digits of both cases with zeros behind a sign. -/
theorem identifier_forms_of_span :
    let bytes := [0x00, 0xf0, 0x67, 0xaa, 0x0b, 0xa9, 0x02, 0xb7]
    (SpanId.ofBytes bytes).toBytes = bytes ∧
      SpanId.read "+0000F067aa0bA902b7" = .ok (SpanId.ofBytes bytes) := by
  intro bytes
  obtain ⟨-, -, -, htext, -, hbytes⟩ := identifier_forms_agree
  refine ⟨hbytes bytes rfl, (htext.read_iff _ _).mpr ?_⟩
  exact ⟨"0000F067aa0bA902b7".toList, by decide, List.forall_iff_forall_mem.mp (by decide),
    .inr rfl, by decide⟩

-- The largest number that fits, with a zero in front, and the next one.
example : SpanId.read "0ffffffffffffffff" = .ok ⟨BitVec.allOnes 64⟩ := by rfl

example : SpanId.read "10000000000000000" = .error .overflow := by rfl

end Metering
