import Metering.Text.Numeral

/-!
# Numerals determine their numbers

Digits are weighed back to the number that they were written for, with or without zeros in
front, so two numbers with one numeral are the same.
-/

namespace Metering.Numeral

variable {base : Nat}

/-- The number for which digits stand, the most significant first. -/
def weigh (base : Nat) (ds : List Nat) : Nat := ds.foldl (fun n d => n * base + d) 0

theorem weigh_snoc (ds : List Nat) (d : Nat) :
    weigh base (ds ++ [d]) = weigh base ds * base + d := by
  simp [weigh]

theorem weigh_digits (hb : 2 ≤ base) (n : Nat) : weigh base (digits base n) = n := by
  induction n using Nat.strongRecOn with
  | ind n ih =>
    rw [digits]
    split
    · simp [weigh]
    next h =>
      rw [weigh_snoc, ih (n / base) (Nat.div_lt_self (by omega) (by omega)), Nat.mul_comm]
      exact Nat.div_add_mod n base

theorem weigh_zeros (k : Nat) (ds : List Nat) :
    weigh base (List.replicate k 0 ++ ds) = weigh base ds := by
  induction k with
  | zero => rfl
  | succ k ih => simpa [weigh, List.replicate_succ] using ih

theorem lt_of_mem_digits (hb : 2 ≤ base) {n d : Nat} (hd : d ∈ digits base n) : d < base := by
  induction n using Nat.strongRecOn with
  | ind n ih =>
    rw [digits] at hd
    split at hd
    next h =>
      rw [List.mem_singleton.mp hd]
      omega
    next h =>
      rcases List.mem_append.mp hd with hd | hd
      · exact ih (n / base) (Nat.div_lt_self (by omega) (by omega)) hd
      · rw [List.mem_singleton.mp hd]
        exact Nat.mod_lt n (by omega)

theorem length_hex_le {k n : Nat} (hn : n < 1 <<< (4 * (k + 1))) :
    (digits 16 n).length ≤ k + 1 := by
  induction k generalizing n with
  | zero =>
    rw [digits, dif_pos (.inr (by simpa using hn))]
    simp
  | succ k ih =>
    rw [digits]
    split
    · simp
    · have hshift : 1 <<< (4 * (k + 1 + 1)) = 16 * 1 <<< (4 * (k + 1)) := by
        rw [Nat.shiftLeft_eq, Nat.shiftLeft_eq, Nat.mul_add 4 (k + 1) 1, Nat.pow_add]
        omega
      have hlt : n / 16 < 1 <<< (4 * (k + 1)) := by omega
      have hle := ih hlt
      simp only [List.length_append, List.length_singleton]
      omega

/-! ## Characters -/

theorem forall_char_of_toNat_lt {bound : Nat} {P : Char → Prop}
    (h : ∀ n < bound, P (Char.ofNat n)) (c : Char) (hc : c.toNat < bound) : P c := by
  have hn := h c.toNat hc
  rwa [Char.ofNat_toNat] at hn

theorem not_le_of_toNat_lt {c d : Char} (h : d.toNat < c.toNat) : ¬c ≤ d := fun hle =>
  Nat.not_le.mpr h (Char.le_def.mp hle)

theorem digitChar_inj : ∀ c < 16, ∀ d < 16, Nat.digitChar c = Nat.digitChar d → c = d := by
  decide

theorem map_digitChar_inj {cs ds : List Nat} (hc : ∀ c ∈ cs, c < 16) (hd : ∀ d ∈ ds, d < 16)
    (h : cs.map Nat.digitChar = ds.map Nat.digitChar) : cs = ds := by
  induction cs generalizing ds with
  | nil => simpa [eq_comm] using h
  | cons c cs ih =>
    cases ds with
    | nil => simp at h
    | cons d ds =>
      obtain ⟨hcd, hcs⟩ := List.cons_eq_cons.mp h
      rw [digitChar_inj c (hc c (by simp)) d (hd d (by simp)) hcd,
        ih (fun c h => hc c (by simp [h])) (fun d h => hd d (by simp [h])) hcs]

theorem inBase_inj (hb : 2 ≤ base) (hb' : base ≤ 16) {m n : Nat}
    (h : inBase base m = inBase base n) : m = n := by
  have hlt (k : Nat) : ∀ d ∈ digits base k, d < 16 := fun d hd =>
    Nat.lt_of_lt_of_le (lt_of_mem_digits hb hd) hb'
  rw [← weigh_digits hb m, ← weigh_digits hb n, map_digitChar_inj (hlt m) (hlt n) h]

theorem inBase_ne_nil (n : Nat) : inBase base n ≠ [] := by
  rw [inBase, digits]
  split <;> simp

theorem digitChar_isDigit : ∀ d < 10, (Nat.digitChar d).isDigit = true := by decide

theorem isDigit_of_mem_decimal {n : Nat} {c : Char} (hc : c ∈ inBase 10 n) : c.isDigit := by
  obtain ⟨d, hd, rfl⟩ := List.mem_map.mp hc
  exact digitChar_isDigit d (lt_of_mem_digits (by decide) hd)

theorem append_mark_inj {mark : Char} {as bs s t : List Char} (ha : mark ∉ as) (hb : mark ∉ bs)
    (h : as ++ mark :: s = bs ++ mark :: t) : as = bs ∧ s = t := by
  induction as generalizing bs with
  | nil =>
    cases bs with
    | nil => exact ⟨rfl, (List.cons_eq_cons.mp h).2⟩
    | cons b bs => exact absurd (List.cons_eq_cons.mp h).1 (List.ne_of_not_mem_cons hb)
  | cons a as ih =>
    cases bs with
    | nil => exact absurd (List.cons_eq_cons.mp h).1.symm (List.ne_of_not_mem_cons ha)
    | cons b bs =>
      obtain ⟨hab, htail⟩ := List.cons_eq_cons.mp h
      obtain ⟨has, hst⟩ :=
        ih (List.not_mem_of_not_mem_cons ha) (List.not_mem_of_not_mem_cons hb) htail
      exact ⟨by rw [hab, has], hst⟩

/-- A decimal numeral ends before the first mark that is no digit. -/
theorem decimal_append_inj {mark : Char} (hmark : mark.isDigit = false) {m n : Nat}
    {s t : List Char} (h : inBase 10 m ++ mark :: s = inBase 10 n ++ mark :: t) :
    m = n ∧ s = t := by
  have hstop (k : Nat) : mark ∉ inBase 10 k := fun hmem => by
    simp [isDigit_of_mem_decimal hmem] at hmark
  obtain ⟨hmn, hst⟩ := append_mark_inj (hstop m) (hstop n) h
  exact ⟨inBase_inj (by decide) (by decide) hmn, hst⟩

/-! ## Padded numerals -/

theorem length_padLeft {width : Nat} {cs : List Char} (h : cs.length ≤ width) :
    (padLeft width cs).length = width := by
  simp only [padLeft, List.length_append, List.length_replicate]
  omega

theorem length_paddedHex {k n : Nat} (hn : n < 1 <<< (4 * (k + 1))) :
    (paddedHex (k + 1) n).length = k + 1 := by
  have hle : (inBase 16 n).length ≤ k + 1 := by
    rw [inBase, List.length_map]
    exact length_hex_le hn
  rw [paddedHex, String.length_ofList, length_padLeft hle]

theorem padLeft_inBase (width n : Nat) : padLeft width (inBase base n) =
    (List.replicate (width - (inBase base n).length) 0 ++ digits base n).map Nat.digitChar := by
  simp only [padLeft, inBase, List.map_append, List.map_replicate]
  rfl

theorem lt_of_mem_padded (hb : 2 ≤ base) (hb' : base ≤ 16) (k n : Nat) :
    ∀ d ∈ List.replicate k 0 ++ digits base n, d < 16 := by
  intro d hd
  rcases List.mem_append.mp hd with hd | hd
  · rw [List.eq_of_mem_replicate hd]
    decide
  · exact Nat.lt_of_lt_of_le (lt_of_mem_digits hb hd) hb'

theorem padLeft_inBase_inj (hb : 2 ≤ base) (hb' : base ≤ 16) {width m n : Nat}
    (h : padLeft width (inBase base m) = padLeft width (inBase base n)) : m = n := by
  have hlt := lt_of_mem_padded hb hb'
  rw [padLeft_inBase, padLeft_inBase] at h
  have hdigits := congrArg (weigh base) (map_digitChar_inj (hlt _ m) (hlt _ n) h)
  rwa [weigh_zeros, weigh_zeros, weigh_digits hb, weigh_digits hb] at hdigits

end Metering.Numeral
