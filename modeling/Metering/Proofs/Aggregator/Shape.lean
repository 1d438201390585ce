import Mathlib
import Metering.Aggregator.Basic

/-!
# Shapes of aggregators

Whether two aggregators can be combined depends on their kinds and boundaries alone. Every
operation keeps both in the aggregator that it changes, so what could be combined once can always
be combined.
-/

namespace Metering.Aggregator

/-- The kind and the boundaries. -/
def shape : Aggregator → AggregationKind × List Binary64
  | sum _ => (.sum, [])
  | lastValue _ => (.lastValue, [])
  | minMaxSumCount .. => (.minMaxSumCount, [])
  | histogram _ boundaries _ => (.histogram, boundaries)

/-- Whether two aggregators can be combined: the same kind, and for histograms the same
boundaries as numbers. -/
def Compatible (a b : Aggregator) : Prop := mismatch? a b = none

theorem kind_eq_shape (a : Aggregator) : a.kind = a.shape.1 := by cases a <;> rfl

theorem exists_eq_sum {a : Aggregator} (h : a.kind = .sum) : ∃ x, a = .sum x := by
  cases a <;> first | exact ⟨_, rfl⟩ | cases h

theorem Compatible.kind_eq {a b : Aggregator} (h : Compatible a b) : a.kind = b.kind := by
  cases a <;> cases b <;> first | rfl | simp [Compatible, mismatch?] at h

theorem Compatible.congr {a a' b b' : Aggregator} (h : Compatible a b)
    (ha : a'.shape = a.shape) (hb : b'.shape = b.shape) : Compatible a' b' := by
  cases a <;> cases a' <;> simp only [shape, Prod.mk.injEq, reduceCtorEq, false_and] at ha <;>
    cases b <;> cases b' <;> simp only [shape, Prod.mk.injEq, reduceCtorEq, false_and] at hb <;>
    simp_all [Compatible, mismatch?]

/-! ## Merging -/

/-- The first aggregator after an attempt to merge the second into it; a failed attempt changes
nothing. -/
def absorb (d : Descriptor) (a b : Aggregator) : Aggregator :=
  match a.merge b d with
  | .ok merged => merged
  | .error _ => a

theorem Compatible.merge_eq {a b : Aggregator} (h : Compatible a b) (d : Descriptor) :
    a.merge b d = .ok (a.absorb d b) := by
  cases a <;> cases b <;> simp_all [Compatible, mismatch?, merge, absorb]

theorem merge_ne_inconsistentState {a b : Aggregator} {d : Descriptor} :
    a.merge b d ≠ .error .inconsistentState := by
  intro h
  simp only [merge] at h
  split at h <;> simp at h

@[simp] theorem shape_absorb (d : Descriptor) (a b : Aggregator) :
    (a.absorb d b).shape = a.shape := by
  cases a <;> cases b <;> simp only [absorb, merge, mismatch?] <;> try rfl
  split <;> rename_i heq <;> split at heq <;> simp_all [shape]
  rw [← heq]

/-- The aggregators merged in order, if there are any. -/
def mergeAll (d : Descriptor) : List Aggregator → Option Aggregator
  | [] => none
  | a :: as => some (as.foldl (absorb d) a)

@[simp] theorem mergeAll_nil (d : Descriptor) : mergeAll d [] = none := rfl

@[simp] theorem mergeAll_eq_none {d : Descriptor} {as : List Aggregator} :
    mergeAll d as = none ↔ as = [] := by
  cases as <;> simp [mergeAll]

theorem mergeAll_snoc (d : Descriptor) (as : List Aggregator) (b : Aggregator) :
    mergeAll d (as ++ [b]) = some ((mergeAll d as).elim b (absorb d · b)) := by
  cases as <;> simp [mergeAll]

theorem mergeAll_shape {d : Descriptor} {as : List Aggregator} {m : Aggregator}
    (h : mergeAll d as = some m) : ∃ a ∈ as, m.shape = a.shape := by
  cases as with
  | nil => simp at h
  | cons a as =>
    refine ⟨a, by simp, ?_⟩
    obtain rfl : as.foldl (absorb d) a = m := by simpa [mergeAll] using h
    clear h
    induction as generalizing a with
    | nil => rfl
    | cons b as ih => rw [List.foldl_cons, ih, shape_absorb]

/-! ## Subtracting -/

/-- The first aggregator less the second, where both are sums. -/
def less (d : Descriptor) (a b : Aggregator) : Aggregator :=
  match a.subtract b d with
  | .ok difference => difference
  | .error _ => a

theorem subtract_ne_inconsistentState {a b : Aggregator} {d : Descriptor} :
    a.subtract b d ≠ .error .inconsistentState := by
  intro h
  rw [subtract.eq_def] at h
  split at h <;> simp at h

theorem subtract_eq {a b : Aggregator} (ha : a.kind = .sum) (hb : b.kind = .sum)
    (d : Descriptor) : a.subtract b d = .ok (a.less d b) := by
  cases a <;> simp only [kind, reduceCtorEq] at ha
  cases b <;> simp only [kind, reduceCtorEq] at hb
  rfl

end Metering.Aggregator
