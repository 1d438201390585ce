import Metering.Proofs.Accumulator.Agreement
import Metering.Proofs.Accumulator.Lockstep

/-!
# Evicting series is not seen

Two accumulators that evict at different times differ in series that hold nothing. A measurement
finds the same in a series that holds nothing as in the one that is made in its place, so what
the accumulators hand over are the same accumulations, though perhaps in another order.
-/

namespace Metering

/-- What a measurement finds in a series: the aggregator, and whether an observation replaces its
measurements. -/
def LiveSeries.view (epoch : Nat) (s : LiveSeries) : Aggregator × Bool :=
  (s.current, s.observedEpoch = epoch)

namespace Accumulator

/-- What a measurement finds in the series with a key, which is made if there is none. -/
def view (k : SeriesKey) (g : Aggregator) (a : Accumulator) : Aggregator × Bool :=
  ((seek k a.series).getD (.opened k g)).view (a.epoch + 1)

variable {choose : Descriptor → Option Aggregator} {k : SeriesKey} {g : Aggregator}
  {ds : List Deed} {a b : Accumulator}

theorem getD_opened_descriptor (k : SeriesKey) (g : Aggregator) (ss : List LiveSeries) :
    ((seek k ss).getD (.opened k g)).descriptor = k.1 := by
  cases hs : seek k ss with
  | none => rfl
  | some s => exact congrArg Prod.fst (seek_key hs)

theorem view_record (hsel : a.selector = .ofFunction choose) (hg : choose k.1 = some g)
    (m : Measurement) :
    view k g (a.record m) = (given? choose k (.recorded m)).elim (view k g a) fun n =>
      ((view k g a).1.update n k.1 a.stamp, (view k g a).2) := by
  rw [view, seek_record_given hsel hg, (measured_record hsel m).setup.epoch]
  cases given? choose k (.recorded m) with
  | none => rfl
  | some n =>
    rw [Option.map_some, Option.some_or, Option.getD_some, LiveSeries.view, LiveSeries.add,
      getD_opened_descriptor]
    rfl

section
variable (hnew : ∀ d g, choose d = some g → Aggregator.IsNew d g)
include hnew

theorem Upkept.view_observe (h : Upkept choose ds a) (hg : choose k.1 = some g)
    (registered : List Descriptor) (d : Descriptor) (n : Number) (labels : LabelSet) :
    view k g (a.observe registered d n labels) =
      (given? choose k (.observed registered d n labels)).elim (view k g a) fun n =>
        ((if (view k g a).2 then g else (view k g a).1).update n k.1 a.stamp, true) := by
  rw [view, seek_observe_given h.selector hg (hnew _ g hg) fun s hs => (h.tended k g hg).made hs,
    (measured_observe h.selector ..).setup.epoch]
  cases given? choose k (.observed registered d n labels) with
  | none => rfl
  | some n =>
    rw [Option.map_some, Option.some_or, Option.getD_some, LiveSeries.view, LiveSeries.add,
      LiveSeries.renewed]
    simp only [getD_opened_descriptor, decide_true]
    by_cases hrepeated : ((seek k a.series).getD (.opened k g)).observedEpoch = a.epoch + 1 <;>
      simp [view, LiveSeries.view, hrepeated]

omit hnew in
/-- A series that holds nothing is found as one that is still to be made. -/
theorem Upkept.view_of_nil (h : Upkept choose ds a) (hg : choose k.1 = some g)
    (hnil : given choose k ds = []) : view k g a = (g, false) := by
  have ht := h.tended k g hg
  rw [hnil] at ht
  rw [view]
  cases hs : seek k a.series with
  | none => simp [LiveSeries.view, LiveSeries.opened]
  | some s =>
    have hrest := ht s hs
    have hold : s.observedEpoch ≠ a.epoch + 1 := (Nat.lt_succ_of_le hrest.observed).ne
    simp [LiveSeries.view, hrest.current, hold]

/-! ## Accumulators that differ in what holds nothing -/

/-- Accumulators that were given the same measurements since their last sweeps, and in which a
measurement finds the same. -/
structure Matched (choose : Descriptor → Option Aggregator) (ds : List Deed) (a b : Accumulator) :
    Prop where
  left : Upkept choose ds a
  right : Upkept choose ds b
  resource : b.resource = a.resource
  epoch : b.epoch = a.epoch
  control : SameControl a b
  view : ∀ k g, choose k.1 = some g → view k g b = view k g a

omit hnew in
theorem matched_new (resource : Resource) (idleCycles idleCycles' : Nat) (now : Time) :
    Matched choose [] (new (.ofFunction choose) resource idleCycles now)
      (new (.ofFunction choose) resource idleCycles' now) :=
  ⟨upkept_new .., upkept_new .., rfl, rfl, ⟨rfl, rfl, rfl, rfl⟩, fun _ _ _ => rfl⟩

omit hnew in
private theorem Matched.measured {ds' : List Deed} {a' b' : Accumulator} {k : SeriesKey}
    {x? : Option (SeriesKey × Number)} (h : Matched choose ds a b) (ha : Measured k a a')
    (hb : Measured k b b') (hca : Counted x? a a') (hcb : Counted x? b b')
    (hleft : Upkept choose ds' a') (hright : Upkept choose ds' b')
    (hview : ∀ k g, choose k.1 = some g → Accumulator.view k g b' = Accumulator.view k g a') :
    Matched choose ds' a' b' :=
  ⟨hleft, hright, hb.setup.resource.trans (h.resource.trans ha.setup.resource.symm),
    hb.setup.epoch.trans (h.epoch.trans ha.setup.epoch.symm), h.control.measured ha hb hca hcb,
    hview⟩

theorem lockstep_matched : Lockstep (Matched choose) where
  control h := h.control
  same h ha hb hs hs' hc := by
    refine ⟨h.left.same ha hs, h.right.same hb hs',
      hb.resource.trans (h.resource.trans ha.resource.symm),
      hb.epoch.trans (h.epoch.trans ha.epoch.symm), hc, fun k g hg => ?_⟩
    have hview := h.view k g hg
    rw [Accumulator.view, Accumulator.view] at hview ⊢
    rw [hs, hs', ha.epoch, hb.epoch, hview]
  record h m := by
    refine h.measured (measured_record h.left.selector m) (measured_record h.right.selector m)
      (h.left.allMade.counted_record h.left.selector m)
      (h.right.allMade.counted_record h.right.selector m) (h.left.record hnew m)
      (h.right.record hnew m) fun k g hg => ?_
    rw [view_record h.left.selector hg, view_record h.right.selector hg, h.view k g hg,
      h.control.stamp]
  observe h registered d n labels := by
    refine h.measured (measured_observe h.left.selector ..) (measured_observe h.right.selector ..)
      (h.left.allMade.counted_observe h.left.selector hnew registered d n labels)
      (h.right.allMade.counted_observe h.right.selector hnew registered d n labels)
      (h.left.observe hnew registered d n labels) (h.right.observe hnew registered d n labels)
      fun k g hg => ?_
    rw [h.left.view_observe hnew hg, h.right.view_observe hnew hg, h.view k g hg, h.control.stamp]

end

/-! ## What is handed over -/

theorem nodup_contents (hd : Distinct a.series) : (a.contents.map (·.series)).Nodup := by
  refine .of_map SeriesId.key ?_
  rw [contents, List.map_map, List.map_map]
  exact distinct_filter hd _

/-- The same accumulations, at most one of each series, in any order. -/
structure Rearranged (xs ys : List Accumulation) : Prop where
  perm : xs.Perm ys
  nodup : (xs.map (·.series)).Nodup

theorem eq_view_of_content {x : Aggregator}
    (hx : (seek k a.series).bind LiveSeries.content = some x) : x = (view k g a).1 := by
  obtain ⟨s, hs, hcurrent⟩ := Option.bind_eq_some_iff.mp hx
  rw [LiveSeries.content, Option.ite_none_right_eq_some] at hcurrent
  rw [view, hs, ← Option.some.inj hcurrent.2]
  rfl

theorem Matched.content_eq (h : Matched choose ds a b) (k : SeriesKey) :
    (seek k b.series).bind LiveSeries.content = (seek k a.series).bind LiveSeries.content := by
  have hsome := (h.right.content_isSome k).trans (h.left.content_isSome k).symm
  cases hx : (seek k a.series).bind LiveSeries.content with
  | none => simpa [hx] using hsome
  | some x =>
    rw [hx, Option.isSome_some, Option.isSome_iff_exists] at hsome
    obtain ⟨y, hy⟩ := hsome
    cases hg : choose k.1 with
    | none =>
      rw [h.left.disabled k hg] at hx
      cases hx
    | some g =>
      rw [hy, eq_view_of_content hy, eq_view_of_content hx, h.view k g hg]

theorem Matched.rearranged (h : Matched choose ds a b) : Rearranged a.contents b.contents := by
  refine ⟨(List.perm_ext_iff_of_nodup (nodup_contents h.left.distinct).of_map
    (nodup_contents h.right.distinct).of_map).mpr fun acc => ?_, nodup_contents h.left.distinct⟩
  rw [mem_contents h.left.distinct, mem_contents h.right.distinct, h.resource, h.content_eq]

/-- Completed sweeps leave what holds nothing, whatever either of them evicts. -/
theorem synchronized_matched (hnew : ∀ d g, choose d = some g → Aggregator.IsNew d g) :
    Synchronized choose Rearranged (Matched choose) where
  toLockstep := lockstep_matched hnew
  left h := h.left
  right h := h.right
  contents h := h.rearranged
  sweep {ds a b a' b'} h ha hb events events' := by
    have hleft := h.left.sweep hnew ha (a'.now + 1) events
    have hright := h.right.sweep hnew hb (b'.now + 1) events'
    -- After a sweep no series holds anything, so that each is found as one still to be made.
    refine ⟨hleft, hright, hb.setup.resource.trans (h.resource.trans ha.setup.resource.symm),
      congrArg (· + 1) (hb.setup.epoch.trans (h.epoch.trans ha.setup.epoch.symm)),
      h.control.cleared ha hb events events', fun k g hg => ?_⟩
    rw [hleft.view_of_nil hg rfl, hright.view_of_nil hg rfl]

end Accumulator
end Metering
