import Metering.Proofs.Aggregator.Boundaries
import Metering.Proofs.Aggregator.Shape

/-!
# New aggregators

The aggregators of an instrument are made new, and every operation keeps what they were made with.
So the current aggregator of a series and its checkpoint can always exchange their measurements.
-/

namespace Metering.Aggregator

/-! ## New aggregators -/

/-- Whether an aggregator is one without measurements, as an instrument gets it. -/
def IsNew (d : Descriptor) (g : Aggregator) : Prop := ∃ kind boundaries, g = new kind d boundaries

theorem isNew_newSum (d : Descriptor) : IsNew d newSum := ⟨.sum, [], rfl⟩

theorem isNew_newLastValue (d : Descriptor) : IsNew d newLastValue := ⟨.lastValue, [], rfl⟩

theorem IsNew.cleared {d : Descriptor} {g : Aggregator} (h : IsNew d g) : g.cleared d = g := by
  obtain ⟨kind, boundaries, rfl⟩ := h
  cases kind <;> rfl

theorem cleared_update (a : Aggregator) (n : Number) (d : Descriptor) (stamp : Stamp) :
    (a.update n d stamp).cleared d = a.cleared d := by
  cases a with
  | minMaxSumCount kind state => cases state <;> rfl
  | _ => rfl

theorem cleared_absorb (a b : Aggregator) (d : Descriptor) :
    (a.absorb d b).cleared d = a.cleared d := by
  cases a <;> cases b <;> simp only [absorb, merge, mismatch?] <;> try rfl
  split <;> rename_i heq <;> split at heq <;> simp_all [cleared]
  rw [← heq]

theorem shape_cleared (a : Aggregator) (d : Descriptor) : (a.cleared d).shape = a.shape := by
  cases a <;> rfl

theorem shape_eq_of_cleared {d : Descriptor} {a b : Aggregator}
    (h : a.cleared d = b.cleared d) : a.shape = b.shape := by
  rw [← shape_cleared a d, h, shape_cleared]

theorem hasSum_congr {a b : Aggregator} (h : a.shape = b.shape) :
    a.sum?.isSome = b.sum?.isSome := by
  cases a <;> cases b <;> simp [shape] at h <;> rfl

theorem IsNew.compatible {d : Descriptor} {g a b : Aggregator} (h : IsNew d g)
    (ha : a.cleared d = g) (hb : b.cleared d = g) : a.Compatible b := by
  have hself : g.Compatible g := by
    obtain ⟨kind, boundaries, rfl⟩ := h
    cases kind with
    | histogram =>
      have hagree :
          Boundaries.agree (Boundaries.ofList boundaries) (Boundaries.ofList boundaries) = true :=
        Boundaries.agree_self (Boundaries.increasing_ofList boundaries).numbers
      simp [Compatible, new, newHistogram, mismatch?, hagree]
    | _ => rfl
  refine hself.congr ?_ ?_
  · rw [← ha, shape_cleared]
  · rw [← hb, shape_cleared]

/-- Moving between aggregators of one instrument exchanges nothing but the measurements. -/
theorem IsNew.move {d : Descriptor} {g a b : Aggregator} (h : IsNew d g) (ha : a.cleared d = g)
    (hb : b.cleared d = g) : a.move b d = .ok (g, a) := by
  have hc : mismatch? a b = none := h.compatible ha hb
  have hr : a.replaceState b = a := by
    have hab : a.cleared d = b.cleared d := ha.trans hb.symm
    clear h ha hb hc
    cases a <;> cases b <;> simp_all [replaceState, Aggregator.cleared]
  rw [Aggregator.move, hc, ha, hr]

end Metering.Aggregator
