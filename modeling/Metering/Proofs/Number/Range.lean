import Mathlib
import Metering.Number

/-!
# Integer ranges

Within the range of an integer kind, numbers are integers and their arithmetic is that of
integers.
-/

namespace Metering.NumberKind

/-- Whether a kind is one of the two integer kinds. -/
def IsInteger (kind : NumberKind) : Prop := kind ≠ .f64

def lowest : NumberKind → Int
  | u64 => 0
  | _ => signedLowest

def highest : NumberKind → Int
  | u64 => unsignedHighest
  | _ => signedHighest

/-- Whether an integer is in the range of an integer kind. -/
def InRange (kind : NumberKind) (i : Int) : Prop := kind.lowest ≤ i ∧ i ≤ kind.highest

instance (kind : NumberKind) : Decidable kind.IsInteger :=
  inferInstanceAs (Decidable (kind ≠ .f64))

instance (kind : NumberKind) (i : Int) : Decidable (kind.InRange i) :=
  inferInstanceAs (Decidable (_ ∧ _))

theorem inRange_zero (kind : NumberKind) : kind.InRange 0 := by
  cases kind <;> simp [InRange, lowest, highest, signedLowest, signedHighest, unsignedHighest]

theorem toInt_inRange {kind : NumberKind} (hk : kind.IsInteger) (n : Number) :
    kind.InRange (kind.toInt n) := by
  cases kind with
  | f64 => exact absurd rfl hk
  | i64 => exact ⟨Int64.le_toInt _, Int.le_of_lt_add_one (Int64.toInt_lt _)⟩
  | u64 =>
    refine ⟨Int.natCast_nonneg _, ?_⟩
    have h := n.bits.toNat_lt
    simp only [toInt, Number.unsigned, highest, unsignedHighest]
    omega

theorem clamp_inRange {kind : NumberKind} {i : Int} (h : kind.InRange i) :
    clamp kind.lowest kind.highest i = i := by
  rw [clamp, Int.min_eq_right h.2, Int.max_eq_right h.1]

theorem toInt_ofInt {kind : NumberKind} (hk : kind.IsInteger) {i : Int} (h : kind.InRange i) :
    kind.toInt (kind.ofInt i) = i := by
  have hc := clamp_inRange h
  cases kind with
  | f64 => exact absurd rfl hk
  | i64 =>
    simp only [lowest, highest] at hc
    simp only [toInt, ofInt, hc, Number.signed, Number.ofInt64, Int64.toInt64_toUInt64]
    exact Int64.toInt_ofInt_of_le h.1 (Int.lt_add_one_of_le h.2)
  | u64 =>
    simp only [lowest, highest] at hc
    simp only [toInt, ofInt, hc, Number.unsigned]
    have hlo : 0 ≤ i := h.1
    have hhi : i ≤ unsignedHighest := h.2
    simp only [unsignedHighest] at hhi
    rw [UInt64.toNat_ofNat_of_lt' (by rw [UInt64.size]; omega)]
    omega

/-- Storing an integer moves it into the range. -/
theorem toInt_ofInt_eq_clamp {kind : NumberKind} (hk : kind.IsInteger) (i : Int) :
    kind.toInt (kind.ofInt i) = clamp kind.lowest kind.highest i := by
  have hrange : kind.InRange (clamp kind.lowest kind.highest i) := by
    have hle := (inRange_zero kind).1.trans (inRange_zero kind).2
    exact ⟨le_max_left _ _, max_le hle (min_le_left _ _)⟩
  have hsame : kind.ofInt (clamp kind.lowest kind.highest i) = kind.ofInt i := by
    have hclamp := clamp_inRange hrange
    cases kind with
    | f64 => exact absurd rfl hk
    | i64 => exact congrArg (fun j => Number.ofInt64 (Int64.ofInt j)) hclamp
    | u64 => exact congrArg (fun j : Int => (⟨UInt64.ofNat j.toNat⟩ : Number)) hclamp
  rw [← hsame, toInt_ofInt hk hrange]

theorem toInt_injective {kind : NumberKind} (hk : kind.IsInteger) {m n : Number}
    (h : kind.toInt m = kind.toInt n) : m = n := by
  obtain ⟨b⟩ := m
  obtain ⟨c⟩ := n
  cases kind with
  | f64 => exact absurd rfl hk
  | i64 =>
    have hs := congrArg Int64.toUInt64 (Int64.toInt_inj.mp h)
    simpa using hs
  | u64 =>
    have hs : b = c := UInt64.toNat_inj.mp (Int.ofNat_inj.mp h)
    rw [hs]

@[simp] theorem toInt_zero (kind : NumberKind) (hk : kind.IsInteger) : kind.toInt ⟨0⟩ = 0 := by
  cases kind with
  | f64 => exact absurd rfl hk
  | i64 => rfl
  | u64 => rfl

/-! ## Sums -/

theorem add_eq {kind : NumberKind} (hk : kind.IsInteger) (m n : Number) :
    m.add kind n = kind.ofInt (kind.toInt m + kind.toInt n) := by
  cases kind with
  | f64 => exact absurd rfl hk
  | i64 => rfl
  | u64 => rfl

theorem toInt_add {kind : NumberKind} (hk : kind.IsInteger) {m n : Number}
    (h : kind.InRange (kind.toInt m + kind.toInt n)) :
    kind.toInt (m.add kind n) = kind.toInt m + kind.toInt n := by
  rw [add_eq hk, toInt_ofInt hk h]

theorem sub_eq {kind : NumberKind} (hk : kind.IsInteger) (m n : Number) :
    m.sub kind n = kind.ofInt (kind.toInt m - kind.toInt n) := by
  cases kind with
  | f64 => exact absurd rfl hk
  | i64 => rfl
  | u64 => rfl

theorem toInt_sub {kind : NumberKind} (hk : kind.IsInteger) {m n : Number}
    (h : kind.InRange (kind.toInt m - kind.toInt n)) :
    kind.toInt (m.sub kind n) = kind.toInt m - kind.toInt n := by
  rw [sub_eq hk, toInt_ofInt hk h]

/-- Adding what is not negative does not make a number smaller, whether or not the sum stops at the
end of the range. -/
theorem le_toInt_add {kind : NumberKind} (hk : kind.IsInteger) (m : Number) {n : Number}
    (hn : 0 ≤ kind.toInt n) : kind.toInt m ≤ kind.toInt (m.add kind n) := by
  have hm := (toInt_inRange hk m).2
  rw [add_eq hk, toInt_ofInt_eq_clamp hk]
  exact le_max_of_le_right (le_min hm (by omega))

/-- Integers of which the absolute values add up within the range have a sum in range: those of
an unsigned kind are not negative. -/
theorem inRange_add {kind : NumberKind} (hk : kind.IsInteger) (m n : Number)
    (h : |kind.toInt m| + |kind.toInt n| ≤ kind.highest) :
    kind.InRange (kind.toInt m + kind.toInt n) := by
  have hm := toInt_inRange hk m
  have hn := toInt_inRange hk n
  refine ⟨?_, (add_le_add (le_abs_self _) (le_abs_self _)).trans h⟩
  cases kind with
  | f64 => exact absurd rfl hk
  | u64 => exact add_nonneg hm.1 hn.1
  | i64 =>
    have h1 := neg_abs_le (i64.toInt m)
    have h2 := neg_abs_le (i64.toInt n)
    simp only [lowest, highest, signedLowest, signedHighest] at *
    omega

end Metering.NumberKind
