import Metering.Proofs.Aggregator.Retiming
import Metering.Proofs.Processor.Reference

/-!
# Exports at other times

A processor that is handed the same accumulations at other times, in the same order, exports the
same but for the stamps of last values.
-/

namespace Metering

/-- Batches with the same accumulations of every series from corresponding writes. -/
def RetimedBatch (T : Retiming) (batch batch' : List Accumulation) : Prop :=
  ∀ k, List.Forall₂ (Aggregator.Retimed T) (dataOf k batch) (dataOf k batch')

variable {T : Retiming} {past past' : List (List Accumulation)} {batch batch' : List Accumulation}

theorem RetimedBatch.mono {T' : Retiming} (h : RetimedBatch T batch batch')
    (hT : ∀ t t', T t t' → T' t t') : RetimedBatch T' batch batch' :=
  fun k => (h k).imp fun _ _ hx => hx.mono hT

theorem RetimedBatch.merged (hT : T.Ordered) (h : RetimedBatch T batch batch') (k : SeriesId) :
    Option.Rel (Aggregator.Retimed T) (merged k batch) (merged k batch') :=
  Aggregator.retimed_mergeAll hT (h k)

theorem history_retimed (hT : T.Ordered) (h : List.Forall₂ (RetimedBatch T) past past')
    (k : SeriesId) :
    List.Forall₂ (Aggregator.Retimed T) (history past k) (history past' k) :=
  List.rel_filterMap (fun _ _ hbatch => hbatch.merged hT k) h

theorem rel_head? {α β : Type} {R : α → β → Prop} {xs : List α} {ys : List β}
    (h : List.Forall₂ R xs ys) : Option.Rel R xs.head? ys.head? := by
  cases h with
  | nil => exact .none
  | cons hx _ => exact .some hx

theorem rel_getLast? {α β : Type} {R : α → β → Prop} {xs : List α} {ys : List β}
    (h : List.Forall₂ R xs ys) : Option.Rel R xs.getLast? ys.getLast? := by
  rw [List.getLast?_eq_head?_reverse, List.getLast?_eq_head?_reverse]
  exact rel_head? (List.rel_reverse h)

namespace Processor

variable {k : SeriesId}

theorem exportFor_retimed (hT : T.Ordered) (h : List.Forall₂ (RetimedBatch T) past past')
    (hb : RetimedBatch T batch batch') (t : Temporality) (kind : AggregationKind) :
    Option.Rel (Aggregator.Retimed T) (exportFor t kind past batch k)
      (exportFor t kind past' batch' k) := by
  have hmerged := hb.merged hT k
  have hlast := rel_getLast? (history_retimed hT h k)
  have hall := history_retimed hT (List.rel_append h (.cons hb .nil)) k
  cases t with
  | cumulative =>
    cases hp : k.descriptor.kind.isPrecomputedSum with
    | false =>
      simp only [exportFor, hp]
      exact Aggregator.retimed_mergeAll hT hall
    | true =>
      simp only [exportFor, hp]
      exact hmerged
  | delta =>
    cases hp : k.descriptor.kind.isPrecomputedSum with
    | false =>
      simp only [exportFor, hp]
      exact hmerged
    | true =>
      simp only [exportFor, hp]
      split
      · generalize merged k batch = m at hmerged
        generalize merged k batch' = m' at hmerged
        generalize (history past k).getLast? = l at hlast
        generalize (history past' k).getLast? = l' at hlast
        cases hmerged with
        | none => exact .none
        | some hm =>
          cases hlast with
          | none => exact .some hm
          | some hl => exact .some (hm.less hl)
      · exact hmerged

/-- What is exported of a series differs at most in the stamp of a last value. -/
theorem expected_retimed (select : TemporalitySelector) (hT : T.Ordered)
    (h : List.Forall₂ (RetimedBatch T) past past')
    (hb : RetimedBatch T batch batch') :
    Option.Rel (Aggregator.Retimed T) (expected select past batch k)
      (expected select past' batch' k) := by
  have hfirst := rel_head? (history_retimed hT (List.rel_append h (.cons hb .nil)) k)
  rw [expected, expected]
  generalize (history (past ++ [batch]) k).head? = first at hfirst
  generalize (history (past' ++ [batch']) k).head? = first' at hfirst
  cases hfirst with
  | none => exact .none
  | some hfirst =>
    rw [Option.bind_some, Option.bind_some, hfirst.kind_eq]
    exact exportFor_retimed hT h hb _ _

end Processor
end Metering
