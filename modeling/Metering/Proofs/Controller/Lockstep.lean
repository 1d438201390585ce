import Metering.Proofs.Accumulator.Lockstep
import Metering.Proofs.Controller.Reduction

/-!
# Two controllers in lockstep

Controllers whose accumulators are in lockstep are cancelled alike. Otherwise both collect, and
each exports what is expected of the batches of its own sweeps.
-/

namespace Metering.Controller

open Accumulator (Deed Proceeds Synchronized calledAll handed)

variable {choose : Descriptor → Option Aggregator}
  {D : List Accumulation → List Accumulation → Prop}
  {R : List Deed → Accumulator → Accumulator → Prop} {select select' : TemporalitySelector}
  {r : Relabelling} {ds : List Deed} {past past' : List (List Accumulation)} {c c' : Controller}

/-- Controllers with accumulators in lockstep, whose processors follow some batches. -/
structure Alongside (choose : Descriptor → Option Aggregator)
    (R : List Deed → Accumulator → Accumulator → Prop) (select select' : TemporalitySelector)
    (r : Relabelling) (ds : List Deed) (past past' : List (List Accumulation))
    (c c' : Controller) : Prop where
  accumulators : R ds c.accumulator c'.accumulator
  timeout : c'.collectTimeout = c.collectTimeout
  tracks : Tracks choose select r past c.checkpointer
  tracks' : Tracks choose select' r past' c'.checkpointer

section
variable (hR : Synchronized choose D R)
  (h : Alongside choose R select select' r ds past past' c c')
include hR h

theorem Alongside.limited (cx : Context) :
    c'.limited cx c'.collectTimeout = c.limited cx c.collectTimeout := by
  rw [Controller.limited, Controller.limited, h.timeout, (hR.control h.accumulators).now]

theorem Alongside.act {action : Action} (hcollect : ∀ cx, action ≠ .collect cx) :
    Alongside choose R select select' r (ds ++ deeds action c) past past' (act action c)
      (act action c') := by
  cases action with
  | record m => exact ⟨hR.record h.accumulators m, h.timeout, h.tracks, h.tracks'⟩
  | register descriptors calls =>
    refine ⟨?_, h.timeout, h.tracks, h.tracks'⟩
    rw [deeds, List.append_nil]
    exact hR.register h.accumulators descriptors calls
  | await elapsed flags =>
    refine ⟨?_, h.timeout, h.tracks, h.tracks'⟩
    rw [deeds, List.append_nil]
    exact hR.await h.accumulators elapsed flags
  | collect cx => exact absurd rfl (hcollect cx)

theorem Alongside.called (limit : Context) :
    R (ds ++ calledAll limit (List.range c.accumulator.tick.observers.length) c.accumulator.tick)
      (c.accumulator.tick.afterCallbacks limit) (c'.accumulator.tick.afterCallbacks limit) :=
  hR.afterCallbacks limit (hR.tick h.accumulators)

variable {limit cx : Context}

theorem Alongside.collect_of_not_proceeds (hlimit : c.limited cx c.collectTimeout = limit)
    (hgo : ∀ errors, ¬Proceeds limit c.accumulator.tick errors) :
    (c.collect cx).2 = .error (.error .cancelled) ∧
      (c'.collect cx).2 = .error (.error .cancelled) ∧
      handed (deeds (.collect cx) c) = [] ∧ deeds (.collect cx) c' = deeds (.collect cx) c ∧
      Alongside choose R select select' r (ds ++ deeds (.collect cx) c) past past'
        (c.collect cx).1 (c'.collect cx).1 := by
  have htick := hR.tick h.accumulators
  have hlimit' := (h.limited hR cx).trans hlimit
  have hgo' : ∀ errors, ¬Proceeds limit c'.accumulator.tick errors := fun errors hp =>
    hgo errors ((hR.proceeds_iff htick).mp hp)
  have hintact := (hR.left h.accumulators).intact
  have hintact' := (hR.right h.accumulators).intact
  have hdeeds : deeds (.collect cx) c =
      calledAll limit (List.range c.accumulator.tick.observers.length) c.accumulator.tick := by
    rw [deeds, hlimit]
    exact Accumulator.collected_of_not_proceeds (a := c.accumulator.tick) hintact hgo step _
  have hdeeds' : deeds (.collect cx) c' = deeds (.collect cx) c := by
    rw [hdeeds, ← hR.calledAll_eq limit _ htick, ← (hR.control htick).observers, deeds, hlimit']
    exact Accumulator.collected_of_not_proceeds (a := c'.accumulator.tick) hintact' hgo' step _
  rw [Controller.collect_of_not_proceeds hlimit h.tracks.intact hintact hgo,
    Controller.collect_of_not_proceeds hlimit' h.tracks'.intact hintact' hgo',
    h.tracks.cancelled, h.tracks'.cancelled, hdeeds', hdeeds]
  exact ⟨rfl, rfl, Accumulator.handed_calledAll .., rfl, hR.emit (h.called hR limit) _ _, h.timeout,
    h.tracks, h.tracks'⟩

variable (hnew : ∀ d g, choose d = some g → Aggregator.IsNew d g)
include hnew

theorem Alongside.deeds_of_proceeds (hlimit : c.limited cx c.collectTimeout = limit)
    {errors : List MetricsError} (hp : Proceeds limit c.accumulator.tick errors) :
    deeds (.collect cx) c =
      calledAll limit (List.range c.accumulator.tick.observers.length) c.accumulator.tick ++
        (c.accumulator.tick.afterCallbacks limit).contents.map .processed := by
  have hleft := hR.left (h.called hR limit)
  rw [deeds, hlimit]
  exact hleft.allMade.collected_eq hnew hleft.distinct hp step_silent
    (p := c.checkpointer.startCollection) h.tracks.reduces

theorem Alongside.deeds_of_proceeds' (hlimit : c.limited cx c.collectTimeout = limit)
    {errors : List MetricsError} (hp : Proceeds limit c.accumulator.tick errors) :
    deeds (.collect cx) c' =
      calledAll limit (List.range c.accumulator.tick.observers.length) c.accumulator.tick ++
        (c'.accumulator.tick.afterCallbacks limit).contents.map .processed := by
  have htick := hR.tick h.accumulators
  have hright := hR.right (h.called hR limit)
  rw [deeds, h.limited hR, hlimit, ← (hR.control htick).observers, ← hR.calledAll_eq _ _ htick]
  exact hright.allMade.collected_eq hnew hright.distinct ((hR.proceeds_iff htick).mpr hp)
    step_silent (p := c'.checkpointer.startCollection) h.tracks'.reduces

/-- Collections that get to their sweeps export what is expected of what they hand over. -/
theorem Alongside.collect_of_proceeds (hlimit : c.limited cx c.collectTimeout = limit)
    {errors : List MetricsError} (hp : Proceeds limit c.accumulator.tick errors) :
    let batch := (handed (deeds (.collect cx) c)).map (Accumulation.relabel r)
    let batch' := (handed (deeds (.collect cx) c')).map (Accumulation.relabel r)
    D (handed (deeds (.collect cx) c)) (handed (deeds (.collect cx) c')) ∧
      ∃ set set', (c.collect cx).2 = .ok set ∧ (c'.collect cx).2 = .ok set' ∧
        Reflects (Processor.expected select past batch) set ∧
        Reflects (Processor.expected select' past' batch') set' ∧
        Alongside choose R select select' r [] (past ++ [batch]) (past' ++ [batch'])
          (c.collect cx).1 (c'.collect cx).1 := by
  intro batch batch'
  have hlimit' := (h.limited hR cx).trans hlimit
  have hp' := (hR.proceeds_iff (hR.tick h.accumulators)).mpr hp
  have hcalled := h.called hR limit
  have hleft := hR.left hcalled
  have hright := hR.right hcalled
  obtain ⟨swept, events, p, set, hcleared, hc, htracks, hset⟩ :=
    h.tracks.collect_of_made hnew hlimit hp hleft.distinct hleft.allMade
  obtain ⟨swept', events', p', set', hcleared', hc', htracks', hset'⟩ :=
    h.tracks'.collect_of_made hnew hlimit' hp' hright.distinct hright.allMade
  have hdeeds : handed (deeds (.collect cx) c) =
      (c.accumulator.tick.afterCallbacks limit).contents := by
    rw [h.deeds_of_proceeds hR hnew hlimit hp, Accumulator.handed_append,
      Accumulator.handed_calledAll, List.nil_append, Accumulator.handed_processed]
  have hdeeds' : handed (deeds (.collect cx) c') =
      (c'.accumulator.tick.afterCallbacks limit).contents := by
    rw [h.deeds_of_proceeds' hR hnew hlimit hp, Accumulator.handed_append,
      Accumulator.handed_calledAll, List.nil_append, Accumulator.handed_processed]
  rw [Accumulator.handedOverAs_eq_map, ← hdeeds] at htracks hset
  rw [Accumulator.handedOverAs_eq_map, ← hdeeds'] at htracks' hset'
  refine ⟨?_, set, set', by rw [hc], by rw [hc'], hset, hset', ?_⟩
  · rw [hdeeds, hdeeds']
    exact hR.contents hcalled
  · rw [hc, hc']
    exact ⟨hR.sweep hcalled hcleared hcleared' events events', h.timeout, htracks, htracks'⟩

end
end Metering.Controller
