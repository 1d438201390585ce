import Metering.Proofs.Accumulator.Persistence
import Metering.Proofs.Aggregator.New
import Metering.Proofs.Number.Range
import Metering.Proofs.Processor.Persistence

/-!
# Sums of monotonic instruments

What a monotonic instrument records is not negative, and neither is a sum of that, even where it
stops at the end of the range. The difference of two such sums may be, if it is one of signed
numbers.
-/

namespace Metering

theorem Descriptor.nonneg_of_rangeTest {d : Descriptor} {n : Number} (h : d.rangeTest n = .ok ())
    (hm : d.kind.isMonotonic = true) (hk : d.numberKind.IsInteger) : 0 ≤ d.numberKind.toInt n := by
  rw [rangeTest] at h
  split at h
  · cases h
  split at h
  · cases h
  next hneg =>
    cases hkind : d.numberKind with
    | f64 => exact absurd hkind hk
    | u64 => exact Int.natCast_nonneg _
    | i64 => simpa [hm, hkind, Number.isNegative, NumberKind.toInt] using hneg

namespace Aggregator

/-- Whether an aggregator is not below zero, if it is a sum of a monotonic instrument of
integers. -/
def NonnegSum (d : Descriptor) (a : Aggregator) : Prop :=
  d.kind.isMonotonic = true → d.numberKind.IsInteger → ∀ n, a = .sum n → 0 ≤ d.numberKind.toInt n

variable {d : Descriptor} {a b m : Aggregator}

theorem IsNew.nonnegSum (h : IsNew d a) : NonnegSum d a := by
  rintro - hk n rfl
  obtain ⟨kind, boundaries, h⟩ := h
  cases kind <;> simp only [new, newSum, newLastValue, newMinMaxSumCount, newHistogram,
    reduceCtorEq, sum.injEq] at h
  rw [h, NumberKind.toInt_zero _ hk]

theorem NonnegSum.cleared (a : Aggregator) : NonnegSum d (a.cleared d) := by
  intro _ hk n h
  cases a <;> simp only [Aggregator.cleared, reduceCtorEq, sum.injEq] at h
  rw [← h]
  exact (NumberKind.toInt_zero _ hk).ge

theorem NonnegSum.update (h : NonnegSum d a) {n : Number} (hn : d.rangeTest n = .ok ())
    (stamp : Stamp) : NonnegSum d (a.update n d stamp) := by
  intro hm hk s hs
  cases a with
  | sum total =>
    rw [← sum.inj hs]
    exact (h hm hk total rfl).trans
      (NumberKind.le_toInt_add hk total (Descriptor.nonneg_of_rangeTest hn hm hk))
  | lastValue last => cases hs
  | minMaxSumCount kind state => cases state <;> cases hs
  | histogram kind boundaries state => cases hs

theorem NonnegSum.move (h : NonnegSum d a) {a' b' : Aggregator}
    (hmove : a.move b d = .ok (a', b')) : NonnegSum d a' ∧ NonnegSum d b' := by
  rw [Aggregator.move] at hmove
  split at hmove
  · cases hmove
  obtain ⟨rfl, rfl⟩ := Prod.mk.inj (Except.ok.inj hmove)
  refine ⟨.cleared a, fun hm hk n hn => ?_⟩
  cases a with
  | sum total => exact h hm hk n hn
  | lastValue last => cases hn
  | minMaxSumCount kind state => cases b <;> cases hn
  | histogram kind boundaries state => cases b <;> cases hn

theorem merge_eq_sum {n : Number} (h : a.merge b d = .ok (.sum n)) :
    ∃ x y, a = .sum x ∧ b = .sum y ∧ n = x.add d.numberKind y := by
  cases a with
  | sum x =>
    cases b with
    | sum y => exact ⟨x, y, rfl, rfl, (sum.inj (Except.ok.inj h)).symm⟩
    | _ => cases h
  | histogram kind boundaries state =>
    cases b with
    | histogram kind' boundaries' state' =>
      simp only [merge] at h
      split at h <;> cases h
    | _ => cases h
  | _ => cases b <;> cases h

theorem keptByMerge_nonnegSum : KeptByMerge NonnegSum := by
  rintro d a b m ha hb hmerge hm hk n rfl
  obtain ⟨x, y, rfl, rfl, rfl⟩ := merge_eq_sum hmerge
  exact (ha hm hk x rfl).trans (NumberKind.le_toInt_add hk x (hb hm hk y rfl))

theorem persists_nonnegSum {selector : Selector}
    (h : ∀ asked d g, selector.choose asked d = some g → IsNew d g) :
    selector.Persists NonnegSum where
  chosen hg := (h _ _ _ hg).nonnegSum
  update ha hn stamp := ha.update hn stamp
  move ha _ hmove := ha.move hmove

/-- A difference of sums is below zero only if it is one of signed numbers, where it is exact. -/
theorem NonnegSum.subtract (ha : NonnegSum d a) (hb : NonnegSum d b)
    (hm : d.kind.isMonotonic = true) (hk : d.numberKind.IsInteger) {n : Number}
    (h : a.subtract b d = .ok (.sum n)) :
    0 ≤ d.numberKind.toInt n ∨ d.numberKind = .i64 ∧ ∃ after before, a = .sum after ∧
      b = .sum before ∧ after.signed < before.signed ∧ n.signed = after.signed - before.signed := by
  rw [subtract.eq_def] at h
  split at h
  swap
  · cases h
  next after before =>
    have hvalue : d.numberKind.toInt n =
        clamp d.numberKind.lowest d.numberKind.highest
          (d.numberKind.toInt after - d.numberKind.toInt before) := by
      rw [← sum.inj (Except.ok.inj h), NumberKind.sub_eq hk, NumberKind.toInt_ofInt_eq_clamp hk]
    have hafter := ha hm hk after rfl
    have hbefore := hb hm hk before rfl
    have hrange := NumberKind.toInt_inRange hk after
    have hrange' := NumberKind.toInt_inRange hk before
    cases hkind : d.numberKind with
    | f64 => exact absurd hkind hk
    | u64 =>
      rw [hkind] at hvalue
      exact .inl (hvalue ▸ le_max_left _ _)
    | i64 =>
      rw [hkind] at hvalue hafter hbefore hrange hrange'
      have hin : NumberKind.InRange .i64 (after.signed - before.signed) := by
        simp only [NumberKind.InRange, NumberKind.lowest, NumberKind.highest, NumberKind.toInt,
          signedLowest, signedHighest] at *
        omega
      have hexact : n.signed = after.signed - before.signed :=
        hvalue.trans (NumberKind.clamp_inRange hin)
      rcases le_or_gt before.signed after.signed with hle | hlt
      · exact .inl ((Int.sub_nonneg_of_le hle).trans_eq hexact.symm)
      · exact .inr ⟨rfl, after, before, rfl, rfl, hlt, hexact⟩

end Aggregator
end Metering
