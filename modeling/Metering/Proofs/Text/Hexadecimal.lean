import Metering.Proofs.Text.Numeral

/-!
# Reading hexadecimal numerals

What is read is at least one digit, of either case, with or without a plus sign in front, of a
number up to the limit. The value read so far never falls, so that it passes the limit on the way
only where the number does; zeros in front leave it at zero. A padded numeral is read as its number.
-/

namespace Metering.Numeral

/-! ## Digits -/

/-- The hexadecimal digits in lower case, in the order of their values. -/
def hexDigits : List Char := "0123456789abcdef".toList

/-- A hexadecimal digit of either case. -/
def IsHexDigit (c : Char) : Prop := c ∈ hexDigits ∨ c ∈ "ABCDEF".toList

instance (c : Char) : Decidable (IsHexDigit c) := inferInstanceAs (Decidable (_ ∨ _))

/-- The value of a hexadecimal digit, its place among the digits. -/
def hexValue (c : Char) : Nat := hexDigits.idxOf c.toLower

theorem IsHexDigit.toNat_lt {c : Char} (h : IsHexDigit c) : c.toNat < 128 := by
  have hall : (hexDigits ++ "ABCDEF".toList).all (·.toNat < 128) = true := by decide
  exact of_decide_eq_true (List.all_eq_true.mp hall c (List.mem_append.mpr h))

theorem toNat_lt_of_digitValue? {c : Char} {v : Nat} (h : digitValue? 16 c = some v) :
    c.toNat < 128 := by
  apply Nat.lt_of_not_le
  intro hge
  have hlarge {d : Char} (hd : d.toNat < 128) : ¬c ≤ d :=
    not_le_of_toNat_lt (Nat.lt_of_lt_of_le hd hge)
  simp [digitValue?, hlarge] at h

theorem digitValue?_of_toNat_lt : ∀ c : Char, c.toNat < 128 →
    digitValue? 16 c = if IsHexDigit c then some (hexValue c) else none :=
  forall_char_of_toNat_lt (by decide)

theorem digitValue?_eq_some_iff {c : Char} {v : Nat} :
    digitValue? 16 c = some v ↔ IsHexDigit c ∧ hexValue c = v := by
  constructor
  · intro h
    rw [digitValue?_of_toNat_lt c (toNat_lt_of_digitValue? h)] at h
    simpa using h
  · rintro ⟨hdigit, rfl⟩
    rw [digitValue?_of_toNat_lt c hdigit.toNat_lt, if_pos hdigit]

/-! ## Reading -/

theorem le_foldl_weigh (base value : Nat) (hb : 1 ≤ base) (ds : List Nat) :
    value ≤ ds.foldl (fun n d => n * base + d) value := by
  induction ds generalizing value with
  | nil => exact Nat.le_refl value
  | cons d ds ih =>
    have hle : value ≤ value * base := Nat.le_mul_of_pos_right value hb
    exact Nat.le_trans (Nat.le_trans hle (Nat.le_add_right _ d)) (ih (value * base + d))

theorem readDigits_eq_ok_iff {limit value n : Nat} {cs : List Char} (hvalue : value ≤ limit) :
    readDigits 16 limit value cs = .ok n ↔ (∀ c ∈ cs, IsHexDigit c) ∧
      (cs.map hexValue).foldl (fun n d => n * 16 + d) value = n ∧ n ≤ limit := by
  induction cs generalizing value with
  | nil =>
    simp only [readDigits, Except.ok.injEq, List.map_nil, List.foldl_nil]
    constructor
    · rintro rfl
      exact ⟨by simp, rfl, hvalue⟩
    · exact fun ⟨_, h, _⟩ => h
  | cons c cs ih =>
    rw [readDigits]
    split
    next hnone =>
      have hnot : ¬IsHexDigit c := by
        intro hc
        rw [digitValue?_eq_some_iff.mpr ⟨hc, rfl⟩] at hnone
        cases hnone
      simp [hnot]
    next d hd =>
      obtain ⟨hc, rfl⟩ := digitValue?_eq_some_iff.mp hd
      simp only [List.forall_mem_cons, hc, true_and, List.map_cons, List.foldl_cons]
      split
      next hlimit =>
        have hle := le_foldl_weigh 16 (value * 16 + hexValue c) (by decide) (cs.map hexValue)
        constructor
        · intro h
          cases h
        · rintro ⟨-, rfl, hn⟩
          omega
      next hlimit => exact ih (Nat.not_lt.mp hlimit)

/-- A text of hexadecimal digits, at least one of them, with or without a plus sign in front, that
stand for a number. -/
def IsHexNumeral (s : String) (n : Nat) : Prop :=
  ∃ cs : List Char, cs ≠ [] ∧ (∀ c ∈ cs, IsHexDigit c) ∧
    (s.toList = cs ∨ s.toList = '+' :: cs) ∧ weigh 16 (cs.map hexValue) = n

/-- A plus sign is no digit, so that a sign in front is told from the digits behind it. -/
theorem read_of_digits {limit : Nat} {s : String} {cs : List Char} (hne : cs ≠ [])
    (hdigits : ∀ c ∈ cs, IsHexDigit c) (hs : s.toList = cs ∨ s.toList = '+' :: cs) :
    read 16 limit s = readDigits 16 limit 0 cs := by
  rw [read]
  rcases hs with hs | hs
  · rw [hs]
    match cs with
    | [c] => rfl
    | c :: d :: cs =>
      have hplus : c ≠ '+' := by
        rintro rfl
        exact absurd (hdigits '+' (.head _)) (by decide)
      exact congrArg (readDigits 16 limit 0) (if_neg hplus)
  · rw [hs]
    match cs with
    | d :: cs => rfl

theorem read_eq_ok_iff {limit n : Nat} {s : String} :
    read 16 limit s = .ok n ↔ IsHexNumeral s n ∧ n ≤ limit := by
  constructor
  · intro h
    rw [read] at h
    split at h
    next => cases h
    next c hs =>
      obtain ⟨hdigits, hn, hle⟩ := (readDigits_eq_ok_iff (Nat.zero_le limit)).mp h
      exact ⟨⟨[c], List.cons_ne_nil c [], hdigits, .inl hs, hn⟩, hle⟩
    next c d cs hs =>
      obtain ⟨hdigits, hn, hle⟩ := (readDigits_eq_ok_iff (Nat.zero_le limit)).mp h
      refine ⟨⟨if c = '+' then d :: cs else c :: d :: cs, ?_, hdigits, ?_, hn⟩, hle⟩
      · split <;> exact List.cons_ne_nil _ _
      · split
        next hplus => exact .inr (hplus ▸ hs)
        next => exact .inl hs
  · rintro ⟨⟨cs, hne, hdigits, hs, hn⟩, hle⟩
    rw [read_of_digits hne hdigits hs]
    exact (readDigits_eq_ok_iff (Nat.zero_le limit)).mpr ⟨hdigits, hn, hle⟩

/-! ## Padded numerals -/

theorem digitChar_mem_hexDigits : ∀ d < 16, Nat.digitChar d ∈ hexDigits := by decide

theorem hexValue_digitChar : ∀ d < 16, hexValue (Nat.digitChar d) = d := by decide

theorem toList_paddedHex (width n : Nat) : ∃ ds : List Nat, (∀ d ∈ ds, d < 16) ∧
    weigh 16 ds = n ∧ (paddedHex width n).toList = ds.map Nat.digitChar := by
  refine ⟨List.replicate (width - (inBase 16 n).length) 0 ++ digits 16 n,
    lt_of_mem_padded (by decide) (by decide) _ n, ?_, ?_⟩
  · rw [weigh_zeros, weigh_digits (by decide)]
  · rw [paddedHex, String.toList_ofList, padLeft_inBase]

theorem mem_hexDigits_of_mem_paddedHex {width n : Nat} {c : Char}
    (hc : c ∈ (paddedHex width n).toList) : c ∈ hexDigits := by
  obtain ⟨ds, hlt, -, hds⟩ := toList_paddedHex width n
  rw [hds] at hc
  obtain ⟨d, hd, rfl⟩ := List.mem_map.mp hc
  exact digitChar_mem_hexDigits d (hlt d hd)

theorem isHexNumeral_paddedHex (width n : Nat) : IsHexNumeral (paddedHex width n) n := by
  have hne : (paddedHex width n).toList ≠ [] := by
    rw [paddedHex, String.toList_ofList, padLeft]
    exact List.append_ne_nil_of_right_ne_nil _ (inBase_ne_nil n)
  obtain ⟨ds, hlt, hn, hds⟩ := toList_paddedHex width n
  refine ⟨_, hne, fun c hc => .inl (mem_hexDigits_of_mem_paddedHex hc), .inl rfl, ?_⟩
  have hvalues : (ds.map Nat.digitChar).map hexValue = ds.map id := by
    rw [List.map_map]
    exact List.map_congr_left fun d hd => hexValue_digitChar d (hlt d hd)
  rw [hds, hvalues, List.map_id, hn]

end Metering.Numeral
