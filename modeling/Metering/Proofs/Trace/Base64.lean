import Mathlib
import Metering.Proofs.Text.Numeral
import Metering.Proofs.Trace.Wire
import Metering.Trace.Base64

/-!
# The text form round trips

The characters of the alphabet and the numbers below sixty-four determine each other, and so do a
group of characters and its bytes, the last group with its padding included. So reading accepts
what writing produces and nothing else, and the text form of a context has just the faults of its
binary form.
-/

namespace Metering.Base64

open Octets (value)

/-! ## The alphabet -/

theorem sextet?_sextetChar : ∀ n < 64, sextet? (sextetChar n) = some n := by decide

theorem sextetChar_ne_pad : ∀ n < 64, sextetChar n ≠ '=' := by decide

theorem toNat_lt_of_sextet? {c : Char} {n : Nat} (h : sextet? c = some n) : c.toNat < 128 := by
  apply Nat.lt_of_not_le
  intro hge
  have hlarge {d : Char} (hd : d.toNat < 128) : ¬c ≤ d :=
    Numeral.not_le_of_toNat_lt (Nat.lt_of_lt_of_le hd hge)
  have hne {d : Char} (hd : d.toNat < 128) : c ≠ d := by
    rintro rfl
    omega
  simp [sextet?, hlarge, hne] at h

theorem sextetChar_of_sextet? : ∀ c : Char, c.toNat < 128 →
    ∀ n ∈ sextet? c, n < 64 ∧ sextetChar n = c :=
  Numeral.forall_char_of_toNat_lt (by decide)

theorem sextet?_eq_some_iff {c : Char} {n : Nat} :
    sextet? c = some n ↔ n < 64 ∧ sextetChar n = c := by
  constructor
  · exact fun h => sextetChar_of_sextet? c (toNat_lt_of_sextet? h) n h
  · rintro ⟨hn, rfl⟩
    exact sextet?_sextetChar n hn

/-! ## Groups -/

/-- Characters and bytes of which each is the form of the other. -/
structure Spells (cs : List Char) (bytes : List UInt8) : Prop where
  written : encodeChars bytes = cs
  read : decodeChars? cs = some bytes

variable {w x y z : Nat} {cs : List Char} {bytes rest : List UInt8}

theorem group_joined (hw : w < 64) (hx : x < 64) (hy : y < 64) (hz : z < 64) :
    group (((w * 64 + x) * 64 + y) * 64 + z) =
      [sextetChar w, sextetChar x, sextetChar y, sextetChar z] := by
  have h₁ : (((w * 64 + x) * 64 + y) * 64 + z) / 262144 % 64 = w := by omega
  have h₂ : (((w * 64 + x) * 64 + y) * 64 + z) / 4096 % 64 = x := by omega
  have h₃ : (((w * 64 + x) * 64 + y) * 64 + z) / 64 % 64 = y := by omega
  have h₄ : (((w * 64 + x) * 64 + y) * 64 + z) % 64 = z := by omega
  simp only [group, h₁, h₂, h₃, h₄, List.map_cons, List.map_nil]

theorem spells_one (h : bytes.length = 1) (hw : w < 64) (hx : x < 64)
    (hvalue : value bytes * 16 = w * 64 + x) :
    Spells [sextetChar w, sextetChar x, '=', '='] bytes := by
  constructor
  · obtain ⟨a, rfl⟩ := List.length_eq_one_iff.mp h
    have hnumber : a.toNat * 65536 = ((w * 64 + x) * 64 + 0) * 64 + 0 := by
      simp only [value, List.foldl_cons, List.foldl_nil] at hvalue
      omega
    rw [encodeChars, hnumber, group_joined hw hx (by decide) (by decide)]
    rfl
  · have hread : decodeChars? [sextetChar w, sextetChar x, '=', '='] =
        if (w * 64 + x) % 16 = 0 then some (Octets.ofNat 1 ((w * 64 + x) / 16)) else none := by
      simp [decodeChars?, sextet?_sextetChar, hw, hx]
    rw [hread, ← hvalue, if_pos (by omega), Nat.mul_div_cancel _ (by decide), ← h,
      Octets.ofNat_value]

theorem spells_two (h : bytes.length = 2) (hw : w < 64) (hx : x < 64) (hy : y < 64)
    (hvalue : value bytes * 4 = (w * 64 + x) * 64 + y) :
    Spells [sextetChar w, sextetChar x, sextetChar y, '='] bytes := by
  constructor
  · obtain ⟨a, b, rfl⟩ := List.length_eq_two.mp h
    have hnumber : a.toNat * 65536 + b.toNat * 256 = ((w * 64 + x) * 64 + y) * 64 + 0 := by
      simp only [value, List.foldl_cons, List.foldl_nil] at hvalue
      omega
    rw [encodeChars, hnumber, group_joined hw hx hy (by decide)]
    rfl
  · have hread : decodeChars? [sextetChar w, sextetChar x, sextetChar y, '='] =
        if ((w * 64 + x) * 64 + y) % 4 = 0 then
          some (Octets.ofNat 2 (((w * 64 + x) * 64 + y) / 4))
        else none := by
      simp [decodeChars?, sextet?_sextetChar, sextetChar_ne_pad, hw, hx, hy]
    rw [hread, ← hvalue, if_pos (by omega), Nat.mul_div_cancel _ (by decide), ← h,
      Octets.ofNat_value]

/-- Three bytes fill their characters. The last of these is no padding, so that more may follow. -/
theorem Spells.group (hrest : Spells cs rest) (h : bytes.length = 3) (hw : w < 64) (hx : x < 64)
    (hy : y < 64) (hz : z < 64) (hvalue : value bytes = ((w * 64 + x) * 64 + y) * 64 + z) :
    Spells (sextetChar w :: sextetChar x :: sextetChar y :: sextetChar z :: cs)
      (bytes ++ rest) := by
  constructor
  · obtain ⟨a, b, c, rfl⟩ := List.length_eq_three.mp h
    have hnumber : a.toNat * 65536 + b.toNat * 256 + c.toNat =
        ((w * 64 + x) * 64 + y) * 64 + z := by
      rw [← hvalue]
      simp only [value, List.foldl_cons, List.foldl_nil]
      omega
    simp only [List.cons_append, List.nil_append, encodeChars, hnumber, group_joined hw hx hy hz,
      hrest.written]
  · have hpad : sextetChar z ≠ '=' := sextetChar_ne_pad z hz
    have hbytes : Octets.ofNat 3 (value bytes) = bytes := h ▸ Octets.ofNat_value bytes
    rw [decodeChars?]
    · simp only [sextet?_sextetChar, hw, hx, hy, hz, Option.bind_eq_bind, Option.bind_some,
        hrest.read]
      rw [← hvalue, hbytes]
    · exact fun _ hlast _ => hpad hlast
    · exact fun hlast _ => hpad hlast

/-! ## Reading and writing -/

theorem exists_pair {m : Nat} (h : m < 4096) : ∃ w < 64, ∃ x < 64, m = w * 64 + x :=
  ⟨m / 64, by omega, m % 64, by omega, by omega⟩

theorem exists_triple {m : Nat} (h : m < 262144) :
    ∃ w < 64, ∃ x < 64, ∃ y < 64, m = (w * 64 + x) * 64 + y := by
  obtain ⟨w, hw, x, hx, hwx⟩ := exists_pair (m := m / 64) (by omega)
  exact ⟨w, hw, x, hx, m % 64, by omega, by omega⟩

theorem exists_quadruple {m : Nat} (h : m < 16777216) :
    ∃ w < 64, ∃ x < 64, ∃ y < 64, ∃ z < 64, m = ((w * 64 + x) * 64 + y) * 64 + z := by
  obtain ⟨w, hw, x, hx, y, hy, hwxy⟩ := exists_triple (m := m / 64) (by omega)
  exact ⟨w, hw, x, hx, y, hy, m % 64, by omega, by omega⟩

theorem exists_spells (bytes : List UInt8) : ∃ cs, Spells cs bytes := by
  induction bytes using encodeChars.induct with
  | case1 => exact ⟨[], rfl, rfl⟩
  | case2 a =>
    have hlt : value [a] < 256 := by simpa using Octets.value_lt [a]
    obtain ⟨w, hw, x, hx, hvalue⟩ := exists_pair (m := value [a] * 16) (by omega)
    exact ⟨_, spells_one rfl hw hx hvalue⟩
  | case3 a b =>
    have hlt : value [a, b] < 65536 := by simpa using Octets.value_lt [a, b]
    obtain ⟨w, hw, x, hx, y, hy, hvalue⟩ := exists_triple (m := value [a, b] * 4) (by omega)
    exact ⟨_, spells_two rfl hw hx hy hvalue⟩
  | case4 a b c rest ih =>
    obtain ⟨cs, hrest⟩ := ih
    have hlt : value [a, b, c] < 16777216 := by simpa using Octets.value_lt [a, b, c]
    obtain ⟨w, hw, x, hx, y, hy, z, hz, hvalue⟩ := exists_quadruple hlt
    exact ⟨_, hrest.group rfl hw hx hy hz hvalue⟩

theorem spells_of_decodeChars? (h : decodeChars? cs = some bytes) : Spells cs bytes := by
  fun_induction decodeChars? cs generalizing bytes with
  | case1 =>
    cases h
    exact ⟨rfl, rfl⟩
  | case2 a b =>
    simp only [Option.bind_eq_bind, Option.bind_eq_some_iff, sextet?_eq_some_iff,
      Option.ite_none_right_eq_some] at h
    obtain ⟨w, ⟨hw, rfl⟩, x, ⟨hx, rfl⟩, hzero, h⟩ := h
    obtain rfl := Option.some.inj h
    refine spells_one (Octets.length_ofNat 1 _) hw hx ?_
    rw [Octets.value_ofNat, Nat.mod_eq_of_lt (by omega)]
    omega
  | case3 a b c =>
    simp only [Option.bind_eq_bind, Option.bind_eq_some_iff, sextet?_eq_some_iff,
      Option.ite_none_right_eq_some] at h
    obtain ⟨w, ⟨hw, rfl⟩, x, ⟨hx, rfl⟩, y, ⟨hy, rfl⟩, hzero, h⟩ := h
    obtain rfl := Option.some.inj h
    refine spells_two (Octets.length_ofNat 2 _) hw hx hy ?_
    rw [Octets.value_ofNat, Nat.mod_eq_of_lt (by omega)]
    omega
  | case4 a b c d rest _ _ ih =>
    simp only [Option.bind_eq_bind, Option.bind_eq_some_iff, sextet?_eq_some_iff] at h
    obtain ⟨w, ⟨hw, rfl⟩, x, ⟨hx, rfl⟩, y, ⟨hy, rfl⟩, z, ⟨hz, rfl⟩, bytes', hrest, h⟩ := h
    obtain rfl := Option.some.inj h
    refine (ih hrest).group (Octets.length_ofNat 3 _) hw hx hy hz ?_
    rw [Octets.value_ofNat, Nat.mod_eq_of_lt (by omega)]
  | case5 => cases h

theorem decode?_eq_some_iff {s : String} : decode? s = some bytes ↔ encode bytes = s := by
  constructor
  · intro h
    rw [encode, (spells_of_decodeChars? h).written, String.ofList_toList]
  · rintro rfl
    obtain ⟨cs, hcs⟩ := exists_spells bytes
    rw [decode?, encode, String.toList_ofList, hcs.written, hcs.read]

theorem decode?_encode (bytes : List UInt8) : decode? (encode bytes) = some bytes :=
  decode?_eq_some_iff.mpr rfl

theorem ofBase64_encode (bytes : List UInt8) :
    SpanContext.ofBase64 (encode bytes) = Wire.decode bytes := by
  rw [SpanContext.ofBase64, decode?_encode]

/-- The text form of a context adds nothing to its binary form and loses nothing of it. The text of
some bytes is read as those bytes are, and any other text as the empty context. So a valid context
comes back from its text, marked as coming from elsewhere, any other one as the empty context, and
no two texts are read as the same bytes. -/
theorem text_form_round_trips :
    (∀ bytes : List UInt8, SpanContext.ofBase64 (encode bytes) = Wire.decode bytes) ∧
      (∀ (s : String) (bytes : List UInt8), decode? s = some bytes ↔ encode bytes = s) ∧
      (∀ s : String, (∀ bytes, encode bytes ≠ s) → SpanContext.ofBase64 s = .empty) ∧
      (∀ c : SpanContext, SpanContext.ofBase64 c.toBase64 =
        if c.isValid then { c with isRemote := true } else .empty) ∧
      ∀ (s t : String) (bytes : List UInt8),
        decode? s = some bytes → decode? t = some bytes → s = t := by
  refine ⟨ofBase64_encode, fun s bytes => decode?_eq_some_iff, fun s hs => ?_, fun c => ?_,
    fun s t bytes hs ht => ?_⟩
  · have hnone : decode? s = none :=
      Option.eq_none_iff_forall_ne_some.mpr fun bytes h => hs bytes (decode?_eq_some_iff.mp h)
    rw [SpanContext.ofBase64, hnone]
  · rw [SpanContext.toBase64, ofBase64_encode]
    split
    next hvalid => exact Wire.decode_encode hvalid
    next hinvalid => exact Wire.decode_encode_of_not_valid hinvalid
  · rw [← decode?_eq_some_iff.mp hs, decode?_eq_some_iff.mp ht]

/-- Two bytes in three characters and their padding. The last of these has two unused bits; with one
of them set the text is read as nothing. -/
theorem text_form_of_two_bytes :
    decode? "AQI=" = some [1, 2] ∧
      (∀ s, decode? s = some [1, 2] → s = "AQI=") ∧
      (∀ bytes, encode bytes ≠ "AQJ=") ∧ SpanContext.ofBase64 "AQJ=" = .empty := by
  obtain ⟨-, hread, hother, -, hone⟩ := text_form_round_trips
  have hbytes : decode? "AQI=" = some [1, 2] := by decide +kernel
  have hnone : decode? "AQJ=" = none := by decide +kernel
  have hunread (bytes : List UInt8) : encode bytes ≠ "AQJ=" := by
    intro h
    rw [(hread _ bytes).mpr h] at hnone
    cases hnone
  exact ⟨hbytes, fun s hs => hone s _ _ hs hbytes, hunread, hother _ hunread⟩

end Metering.Base64
