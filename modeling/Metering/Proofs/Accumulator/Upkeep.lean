import Metering.Proofs.Accumulator.Clearing

/-!
# Series between two sweeps

A series is pending if and only if a measurement was taken in for it since the last completed
sweep. One without such a measurement is as a new one would be, so it makes no difference whether
it is there.
-/

namespace Metering.Accumulator

variable {choose : Descriptor → Option Aggregator} {k : SeriesKey} {g : Aggregator} {epoch : Nat}
  {ns : List Number} {s? : Option LiveSeries}

/-- Whether a series holds measurements that the next completed sweep will hand over. -/
structure Loaded (k : SeriesKey) (g : Aggregator) (epoch : Nat) (s : LiveSeries) : Prop where
  made : s.MadeFrom k g
  collected : s.collected < s.updates
  observed : s.observedEpoch ≤ epoch + 1

/-- Whether the series with a key is as some measurements since the last completed sweep leave
it. -/
def Tended (k : SeriesKey) (g : Aggregator) (epoch : Nat) (ns : List Number)
    (s? : Option LiveSeries) : Prop :=
  match ns with
  | [] => ∀ s, s? = some s → Rested k g epoch s
  | _ :: _ => ∃ s, s? = some s ∧ Loaded k g epoch s

theorem Tended.made (h : Tended k g epoch ns s?) {s : LiveSeries} (hs : s? = some s) :
    s.MadeFrom k g := by
  cases ns with
  | nil => exact (h s hs).made
  | cons n ns =>
    obtain ⟨t, ht, hload⟩ := h
    exact Option.some.inj (hs.symm.trans ht) ▸ hload.made

theorem Tended.bounds (h : Tended k g epoch ns s?) (hnew : Aggregator.IsNew k.1 g) :
    (s?.getD (.opened k g)).MadeFrom k g ∧
      (s?.getD (.opened k g)).collected ≤ (s?.getD (.opened k g)).updates ∧
      (s?.getD (.opened k g)).observedEpoch ≤ epoch + 1 := by
  cases s? with
  | none => exact ⟨LiveSeries.madeFrom_opened hnew, le_refl _, Nat.zero_le _⟩
  | some s =>
    cases ns with
    | nil =>
      have hrest := h s rfl
      exact ⟨hrest.made, hrest.collected.ge, hrest.observed.trans (Nat.le_succ _)⟩
    | cons n ns =>
      obtain ⟨t, ht, hload⟩ := h
      obtain rfl := Option.some.inj ht
      exact ⟨hload.made, hload.collected.le, hload.observed⟩

theorem Tended.add (h : Tended k g epoch ns s?) (hnew : Aggregator.IsNew k.1 g) (n : Number)
    (stamp : Stamp) :
    Tended k g epoch (ns ++ [n]) (some ((s?.getD (.opened k g)).add n stamp)) := by
  obtain ⟨hmade, hle, hepoch⟩ := h.bounds hnew
  have hload : Loaded k g epoch ((s?.getD (.opened k g)).add n stamp) :=
    ⟨hmade.add n stamp, Nat.lt_succ_of_le hle, hepoch⟩
  cases ns <;> exact ⟨_, rfl, hload⟩

theorem Tended.report (h : Tended k g epoch ns s?) (hnew : Aggregator.IsNew k.1 g) (n : Number)
    (stamp : Stamp) : Tended k g epoch (ns ++ [n])
      (some (((s?.getD (.opened k g)).renewed g (epoch + 1)).add n stamp)) := by
  obtain ⟨hmade, hle, -⟩ := h.bounds hnew
  have hload : Loaded k g epoch (((s?.getD (.opened k g)).renewed g (epoch + 1)).add n stamp) :=
    ⟨(hmade.renewed hnew _).add n stamp, Nat.lt_succ_of_le hle, le_refl _⟩
  cases ns <;> exact ⟨_, rfl, hload⟩

theorem Tended.isPending (h : Tended k g epoch ns s?) {s : LiveSeries} (hs : s? = some s) :
    s.isPending = !ns.isEmpty := by
  cases ns with
  | nil => simp [LiveSeries.isPending, (h s hs).collected]
  | cons n ns =>
    obtain ⟨t, ht, hload⟩ := h
    obtain rfl := Option.some.inj (hs.symm.trans ht)
    simp [LiveSeries.isPending, hload.collected.ne']

theorem Tended.swept (h : Tended k g epoch ns s?) (hnew : Aggregator.IsNew k.1 g) {s : LiveSeries}
    (hs : s? = some s) : Rested k g (epoch + 1) s.swept := by
  have hp := h.isPending hs
  rw [LiveSeries.swept]
  cases ns with
  | nil =>
    have hrest := h s hs
    rw [if_neg (by simp [hp]), aged_of_not_pending (by simpa using hp)]
    exact ⟨⟨hrest.made.key, hrest.made.current, hrest.made.checkpoint⟩, hrest.current,
      hrest.collected, hrest.observed.trans (Nat.le_succ _)⟩
  | cons n ns =>
    obtain ⟨t, ht, hload⟩ := h
    obtain rfl := Option.some.inj (hs.symm.trans ht)
    have hcurrent : s.current.cleared s.descriptor = g := by
      rw [hload.made.descriptor]
      exact hload.made.current
    rw [if_pos (by simp [hp]), emptied, hcurrent]
    have hmoved := hload.made.moved hnew
    exact ⟨⟨hmoved.key, hmoved.current, hmoved.checkpoint⟩, rfl, rfl, hload.observed⟩

/-! ## All series -/

/-- Whether all series are as the measurements since the last completed sweep leave them. -/
structure Upkept (choose : Descriptor → Option Aggregator) (ds : List Deed) (a : Accumulator) :
    Prop where
  intact : a.isPoisoned = false
  selector : a.selector = .ofFunction choose
  distinct : Distinct a.series
  disabled : ∀ k, choose k.1 = none → seek k a.series = none
  tended : ∀ k g, choose k.1 = some g → Tended k g a.epoch (given choose k ds) (seek k a.series)

variable {ds : List Deed} {a b : Accumulator}

theorem upkept_new (resource : Resource) (idleCycles : Nat) (now : Time) :
    Upkept choose [] (new (.ofFunction choose) resource idleCycles now) := by
  refine ⟨rfl, rfl, List.nodup_nil, fun _ _ => rfl, fun k g _ s hs => ?_⟩
  cases hs

theorem Upkept.same (h : Upkept choose ds a) (hb : SameSetup a b) (hs : b.series = a.series) :
    Upkept choose ds b := by
  refine ⟨hb.isPoisoned.trans h.intact, hb.selector.trans h.selector, hs ▸ h.distinct,
    hs ▸ h.disabled, fun k g hg => ?_⟩
  rw [hs, hb.epoch]
  exact h.tended k g hg

theorem Upkept.allMade (h : Upkept choose ds a) : AllMade choose a := by
  intro k s hs
  cases hg : choose k.1 with
  | none =>
    rw [h.disabled k hg] at hs
    cases hs
  | some g => exact ⟨g, rfl, (h.tended k g hg).made hs⟩

section
variable (hnew : ∀ d g, choose d = some g → Aggregator.IsNew d g)
include hnew

theorem Upkept.record (h : Upkept choose ds a) (m : Measurement) :
    Upkept choose (ds ++ [.recorded m]) (a.record m) := by
  have hm := measured_record h.selector m
  have hcounted := h.allMade.counted_record h.selector m
  refine ⟨hm.setup.isPoisoned.trans h.intact, hm.setup.selector.trans h.selector,
    hm.distinct h.distinct, fun k hg => ?_, fun k g hg => ?_⟩
  · by_cases hk : m.key = k
    · subst hk
      rw [hcounted.unchanged (taken_recorded_of_none hg)]
      exact h.disabled _ hg
    · rw [hm.frame k hk]
      exact h.disabled k hg
  · rw [seek_record_given h.selector hg, given_snoc, hm.setup.epoch]
    cases given? choose k (.recorded m) with
    | none =>
      rw [Option.toList_none, List.append_nil]
      exact h.tended k g hg
    | some n => exact (h.tended k g hg).add (hnew _ g hg) n a.stamp

theorem Upkept.observe (h : Upkept choose ds a) (registered : List Descriptor) (d : Descriptor)
    (n : Number) (labels : LabelSet) :
    Upkept choose (ds ++ [.observed registered d n labels])
      (a.observe registered d n labels) := by
  have hm := measured_observe h.selector registered d n labels
  have hcounted := h.allMade.counted_observe h.selector hnew registered d n labels
  refine ⟨hm.setup.isPoisoned.trans h.intact, hm.setup.selector.trans h.selector,
    hm.distinct h.distinct, fun k hg => ?_, fun k g hg => ?_⟩
  · by_cases hk : (d, labels) = k
    · subst hk
      rw [hcounted.unchanged (by simp [taken, hg])]
      exact h.disabled _ hg
    · rw [hm.frame k hk]
      exact h.disabled k hg
  · have ht := h.tended k g hg
    rw [seek_observe_given h.selector hg (hnew _ g hg) (fun s hs => ht.made hs), given_snoc,
      hm.setup.epoch]
    cases given? choose k (.observed registered d n labels) with
    | none =>
      rw [Option.toList_none, List.append_nil]
      exact ht
    | some n => exact ht.report (hnew _ g hg) n a.stamp

/-- After a completed sweep the series are as without any measurement. -/
theorem Upkept.sweep (h : Upkept choose ds a) (hb : Cleared a b) (now : Time)
    (events : List Event) :
    Upkept choose [] { b with epoch := b.epoch + 1, now, events } := by
  refine ⟨hb.setup.isPoisoned.trans h.intact, hb.setup.selector.trans h.selector, hb.distinct,
    fun k hg => ?_, fun k g hg s hs => ?_⟩
  · show seek k b.series = none
    rw [hb.seeks, h.disabled k hg]
    rfl
  · have hs : seek k b.series = some s := hs
    rw [hb.seeks] at hs
    obtain ⟨t, ht, rfl⟩ := Option.map_eq_some_iff.mp (Option.eq_some_of_filter_eq_some hs)
    show Rested k g (b.epoch + 1) t.swept
    rw [hb.setup.epoch]
    exact (h.tended k g hg).swept (hnew _ g hg) ht

end

theorem isSome_of_taken {deed : Deed} {x : SeriesKey × Number} (h : taken choose deed = some x) :
    (choose x.1.1).isSome := by
  cases deed with
  | recorded m =>
    simp only [taken, Option.ite_none_right_eq_some] at h
    obtain ⟨⟨-, hc⟩, hx⟩ := h
    rw [← Option.some.inj hx]
    exact hc
  | observed registered d n labels =>
    simp only [taken, Option.ite_none_right_eq_some] at h
    obtain ⟨⟨-, -, hc⟩, hx⟩ := h
    rw [← Option.some.inj hx]
    exact hc
  | processed acc => cases h

theorem given_of_disabled (hg : choose k.1 = none) (ds : List Deed) : given choose k ds = [] := by
  refine List.filterMap_eq_nil_iff.mpr fun deed _ => ?_
  rw [given?]
  cases ht : taken choose deed with
  | none => rfl
  | some x =>
    have hsome := isSome_of_taken ht
    refine if_neg fun hk => ?_
    rw [hk, hg] at hsome
    cases hsome

theorem Upkept.content_isSome (h : Upkept choose ds a) (k : SeriesKey) :
    ((seek k a.series).bind LiveSeries.content).isSome = !(given choose k ds).isEmpty := by
  cases hg : choose k.1 with
  | none =>
    rw [h.disabled k hg, given_of_disabled hg]
    rfl
  | some g =>
    have ht := h.tended k g hg
    cases hs : seek k a.series with
    | none =>
      cases hns : given choose k ds with
      | nil => rfl
      | cons n ns =>
        rw [hns] at ht
        obtain ⟨s, hs', -⟩ := ht
        rw [hs] at hs'
        cases hs'
    | some s =>
      rw [Option.bind_some, LiveSeries.content, ht.isPending hs]
      cases given choose k ds <;> rfl

/-- A sweep hands over the series for which anything was measured. -/
theorem Upkept.exists_contents (h : Upkept choose ds a) {k : SeriesKey} :
    (∃ acc ∈ a.contents, acc.series.key = k) ↔ given choose k ds ≠ [] := by
  rw [exists_mem_contents h.distinct, h.content_isSome k]
  simp

end Metering.Accumulator
