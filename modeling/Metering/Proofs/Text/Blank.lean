import Mathlib.Data.List.TakeWhile
import Metering.Text.Blank

/-!
# Splitting and trimming

Parts without the separator are found again after they were joined with it, and blanks around a
text do not change what is left of it without them.
-/

namespace Metering.Text

theorem splitList_eq_splitOn {α : Type} [DecidableEq α] (sep : α) (cs : List α) :
    splitList sep cs = cs.splitOn sep := by
  induction cs with
  | nil => rfl
  | cons c cs ih =>
    rw [splitList, List.splitOn, List.splitOnP_cons_eq_if_modifyHead, ih, List.splitOn]
    by_cases hc : c = sep
    · rw [if_pos hc, if_pos (beq_iff_eq.mpr hc)]
    · rw [if_neg hc, if_neg (by simpa using hc)]
      cases hparts : cs.splitOnP (· == sep) with
      | nil => exact absurd hparts (List.splitOnP_ne_nil _ _)
      | cons part rest => rfl

/-- A text of blank characters alone. -/
def IsBlankText (cs : List Char) : Prop := ∀ c ∈ cs, isBlank c = true

instance (cs : List Char) : Decidable (IsBlankText cs) :=
  List.decidableBAll (fun c => isBlank c = true) cs

theorem IsBlankText.notMem {cs : List Char} (h : IsBlankText cs) {c : Char}
    (hc : isBlank c = false) : c ∉ cs := by
  intro hmem
  rw [h c hmem] at hc
  cases hc

variable {before after : List Char}

theorem trimList_eq_nil (h : IsBlankText before) : trimList before = [] := by
  have hnil : before.dropWhile isBlank = [] := List.dropWhile_eq_nil_iff.mpr h
  rw [trimList, hnil]
  rfl

theorem trimList_append (hbefore : IsBlankText before) (hafter : IsBlankText after)
    (cs : List Char) : trimList (before ++ cs ++ after) = trimList cs := by
  have hreversed : ∀ c ∈ after.reverse, isBlank c = true := by simpa [IsBlankText] using hafter
  rw [trimList, List.append_assoc, List.dropWhile_append_of_pos hbefore, List.dropWhile_append]
  split
  next hnil =>
    have hcs : cs.dropWhile isBlank = [] := List.isEmpty_iff.mp hnil
    have hnothing : after.dropWhile isBlank = [] := List.dropWhile_eq_nil_iff.mpr hafter
    rw [trimList, hcs, hnothing]
  next =>
    rw [List.reverse_append, List.dropWhile_append_of_pos hreversed, trimList]

end Metering.Text
