import Metering.Proofs.Accumulator.Eviction
import Metering.Proofs.Controller.Lockstep

/-!
# Eviction is not seen in exports

However long a controller keeps idle series, it hands the same accumulations to its processor and
returns the same checkpoint sets.
-/

namespace Metering.Controller

open Accumulator (Deed Matched handed)

/-- What each collection of a script hands to the processor. -/
def sweeps : List Action → Controller → List (List Accumulation)
  | [], _ => []
  | .collect cx :: script, c => handed (deeds (.collect cx) c) :: sweeps script (c.collect cx).1
  | action :: script, c => sweeps script (act action c)

variable {choose : Descriptor → Option Aggregator} {select : TemporalitySelector}
  {ds : List Deed} {past past' : List (List Accumulation)} {c c' : Controller}

section
variable (hnew : ∀ d g, choose d = some g → Aggregator.IsNew d g)
include hnew

/-- Collections of controllers that differ in series that hold nothing are the same to the
processor and to who called for them. -/
theorem Alongside.collect_matched
    (h : Alongside choose (Matched choose) select select .keep ds past past' c c')
    (hpast : List.Forall₂ Processor.SameData past past') (cx : Context) :
    Accumulator.Rearranged (handed (deeds (.collect cx) c)) (handed (deeds (.collect cx) c')) ∧
      SameExports (c.collect cx).2 (c'.collect cx).2 ∧
      ∃ ds past past', List.Forall₂ Processor.SameData past past' ∧
        Alongside choose (Matched choose) select select .keep ds past past' (c.collect cx).1
          (c'.collect cx).1 := by
  have hR := Accumulator.synchronized_matched hnew
  by_cases hgo : ∃ errors,
      Accumulator.Proceeds (c.limited cx c.collectTimeout) c.accumulator.tick errors
  · obtain ⟨errors, hp⟩ := hgo
    obtain ⟨hsame, set, set', hc, hc', hset, hset', hnext⟩ :=
      h.collect_of_proceeds hR hnew rfl hp
    have hbatch : Processor.SameData _ _ := .of_perm (hsame.perm.map (Accumulation.relabel .keep))
      (by rw [List.map_map]; exact hsame.nodup)
    refine ⟨hsame, ?_, _, _, _, List.rel_append hpast (.cons hbatch .nil), hnext⟩
    rw [hc, hc']
    exact hset.perm id hset' fun k => congrArg _ (Processor.expected_congr hpast hbatch)
  · obtain ⟨hc, hc', hnone, hdeeds, hnext⟩ :=
      h.collect_of_not_proceeds hR rfl (not_exists.mp hgo)
    refine ⟨?_, ?_, _, _, _, hpast, hnext⟩
    · rw [hdeeds, hnone]
      exact ⟨.nil, List.nodup_nil⟩
    · rw [hc, hc']
      exact ⟨rfl, rfl⟩

theorem Alongside.run_matched
    (h : Alongside choose (Matched choose) select select .keep ds past past' c c')
    (hpast : List.Forall₂ Processor.SameData past past') (script : List Action) :
    List.Forall₂ Accumulator.Rearranged (sweeps script c) (sweeps script c') ∧
      List.Forall₂ SameExports (collections script c) (collections script c') := by
  induction script generalizing ds past past' c c' with
  | nil => exact ⟨.nil, .nil⟩
  | cons action script ih =>
    by_cases hcollect : ∃ cx, action = .collect cx
    · obtain ⟨cx, rfl⟩ := hcollect
      obtain ⟨hsame, hexports, ds, past, past', hpast, hnext⟩ := h.collect_matched hnew hpast cx
      exact ⟨.cons hsame (ih hnext hpast).1, .cons hexports (ih hnext hpast).2⟩
    · have hnext := h.act (Accumulator.synchronized_matched hnew) (not_exists.mp hcollect)
      cases action with
      | collect cx => exact absurd ⟨cx, rfl⟩ hcollect
      | _ => exact ih hnext hpast

end

/-- Whatever is recorded, observed and collected, the number of sweeps after which idle series are
evicted makes no difference to the accumulations that reach the processor, nor to the checkpoint
sets. -/
theorem eviction_unobservable (o : Options) (env : Environment)
    (choose : Descriptor → Option Aggregator) (select : TemporalitySelector)
    (idleCycles idleCycles' : Option Nat) (now : Time)
    (hnew : ∀ d g, choose d = some g → Aggregator.IsNew d g) (script : List Action) :
    let c := build { o with idleCycles } env (.ofFunction choose) select [] now
    let c' := build { o with idleCycles := idleCycles' } env (.ofFunction choose) select [] now
    List.Forall₂ Accumulator.Rearranged (sweeps script c) (sweeps script c') ∧
      List.Forall₂ SameExports (collections script c) (collections script c') := by
  intro c c'
  obtain ⟨events, ha⟩ : ∃ events, c.accumulator = _ := build_accumulator ..
  obtain ⟨events', ha'⟩ : ∃ events, c'.accumulator = _ := build_accumulator ..
  have hmatched : Matched choose [] c.accumulator c'.accumulator := by
    rw [ha, ha']
    exact (Accumulator.lockstep_matched hnew).same (Accumulator.matched_new
      (o.resource.getD (.ofEnvironment env)) (idleCycles.getD 1) (idleCycles'.getD 1) (now + 1))
      ⟨rfl, rfl, rfl, rfl, rfl⟩ ⟨rfl, rfl, rfl, rfl, rfl⟩ rfl rfl ⟨rfl, rfl, rfl, rfl⟩
  have halongside : Alongside choose (Matched choose) select select .keep [] [] [] c c' :=
    ⟨hmatched, rfl, ⟨rfl, reduces_nil, rfl, rfl, Processor.follows_new select now, by simp⟩,
      ⟨rfl, reduces_nil, rfl, rfl, Processor.follows_new select now, by simp⟩⟩
  exact halongside.run_matched hnew .nil script

/-- The series of the requests is evicted after the second collection by the one controller, and
kept by the other, when requests are recorded again. -/
theorem eviction_unobservable_requests :
    let requests : Descriptor := { name := "requests", kind := .counter, numberKind := .u64 }
    let choose : Descriptor → Option Aggregator := fun _ => some .newSum
    let o : Options := { resource := some .empty, collectTimeout := some 0 }
    let evicting (cycles : Nat) : Controller :=
      build { o with idleCycles := some cycles } {} (.ofFunction choose)
        (Temporality.constant .cumulative) [] 0
    let before : List Action :=
      [.record ⟨requests, ⟨2⟩, .u64, .empty⟩, .collect .unlimited, .collect .unlimited]
    let script : List Action :=
      before ++ [.record ⟨requests, ⟨3⟩, .u64, .empty⟩, .collect .unlimited]
    let kept (c : Controller) : Nat :=
      (before.foldl (fun c action => act action c) c).accumulator.series.length
    (∀ d g, choose d = some g → Aggregator.IsNew d g) ∧
      kept (evicting 1) = 0 ∧ kept (evicting 5) = 1 ∧
      List.Forall₂ Accumulator.Rearranged (sweeps script (evicting 1))
        (sweeps script (evicting 5)) ∧
      List.Forall₂ SameExports (collections script (evicting 1))
        (collections script (evicting 5)) := by
  intro requests choose o evicting before script kept
  have hnew : ∀ d g, choose d = some g → Aggregator.IsNew d g := by
    intro d g hg
    rw [← Option.some.inj hg]
    exact Aggregator.isNew_newSum d
  exact ⟨hnew, by decide +kernel, by decide +kernel, eviction_unobservable o {} choose
    (Temporality.constant .cumulative) (some 1) (some 5) 0 hnew script⟩

end Metering.Controller
