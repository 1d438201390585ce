import Metering.Aggregator.InPlace
import Metering.Proofs.Aggregator.Boundaries
import Metering.Proofs.Aggregator.Shape

/-!
# Operations in place

An aggregator has settings, which stay, and a state. A move hands the state over as it is and leaves
the source with the state of a new aggregator; merging and subtracting change the target alone. If
two aggregators cannot be combined, an operation on them fails and leaves all aggregators as they
are.
-/

namespace Metering

namespace Aggregator

/-! ## Settings and state -/

/-- What an aggregator is made with and keeps. -/
inductive Settings where
  | sum
  | lastValue
  | minMaxSumCount (kind : NumberKind)
  | histogram (kind : NumberKind) (boundaries : List Binary64)

/-- What an aggregator knows of its measurements. -/
inductive State where
  | sum (total : Number)
  | lastValue (last : Option Reading)
  | minMaxSumCount (extremes : Option Extremes)
  | histogram (distribution : Distribution)

def settings : Aggregator → Settings
  | sum _ => .sum
  | lastValue _ => .lastValue
  | minMaxSumCount kind _ => .minMaxSumCount kind
  | histogram kind boundaries _ => .histogram kind boundaries

def state : Aggregator → State
  | sum total => .sum total
  | lastValue last => .lastValue last
  | minMaxSumCount _ extremes => .minMaxSumCount extremes
  | histogram _ _ distribution => .histogram distribution

/-- The state without any measurement. -/
def Settings.blank : Settings → State
  | sum => .sum ⟨0⟩
  | lastValue => .lastValue none
  | minMaxSumCount _ => .minMaxSumCount none
  | histogram _ boundaries => .histogram ⟨List.replicate (boundaries.length + 1) 0, 0, ⟨0⟩⟩

variable {a b : Aggregator} {d : Descriptor} {cause : Mismatch}

theorem eq_of_settings_of_state (hsettings : a.settings = b.settings)
    (hstate : a.state = b.state) : a = b := by
  cases a <;> cases b <;> simp_all [settings, state]

/-! ## Aggregators that cannot be combined -/

/-- Why two aggregators cannot be combined: they are of different kinds, or they are histograms
whose boundaries are not the same numbers. -/
inductive Disagree : Aggregator → Aggregator → Mismatch → Prop
  | kinds {a b : Aggregator} (h : a.kind ≠ b.kind) : Disagree a b (.kinds a.kind b.kind)
  | boundaries {kind kind' : NumberKind} {bs cs : List Binary64} {s t : Distribution}
    (h : ¬ List.Forall₂ (fun b c => b.numericEq c = true) bs cs) :
    Disagree (.histogram kind bs s) (.histogram kind' cs t) (.boundaries bs cs)

theorem mismatch?_of_kind_ne (h : a.kind ≠ b.kind) :
    mismatch? a b = some (.kinds a.kind b.kind) := by
  cases a <;> cases b <;> first | rfl | exact absurd rfl h

theorem mismatch?_eq_some_iff : mismatch? a b = some cause ↔ Disagree a b cause := by
  constructor
  · intro h
    by_cases hkind : a.kind = b.kind
    · cases a <;> cases b <;> cases hkind <;> dsimp only [mismatch?] at h
      case histogram.histogram.refl =>
        split at h
        · cases h
        next hagree =>
          obtain rfl := Option.some.inj h
          exact .boundaries (mt Boundaries.agree_iff.mpr hagree)
      -- other aggregators of one kind have no mismatch
      all_goals cases h
    · obtain rfl := Option.some.inj ((mismatch?_of_kind_ne hkind).symm.trans h)
      exact .kinds hkind
  · rintro (hkind | hnumbers)
    · exact mismatch?_of_kind_ne hkind
    · exact if_neg (mt Boundaries.agree_iff.mp hnumbers)

theorem Disagree.unique {cause' : Mismatch} (h : Disagree a b cause) (h' : Disagree a b cause') :
    cause = cause' :=
  Option.some.inj ((mismatch?_eq_some_iff.mpr h).symm.trans (mismatch?_eq_some_iff.mpr h'))

theorem Compatible.not_disagree (h : a.Compatible b) : ¬ Disagree a b cause := by
  intro hcause
  cases (h : mismatch? a b = none).symm.trans (mismatch?_eq_some_iff.mpr hcause)

theorem compatible_or_disagree (a b : Aggregator) :
    a.Compatible b ∨ ∃ cause, Disagree a b cause := by
  cases h : mismatch? a b with
  | none => exact .inl h
  | some cause => exact .inr ⟨cause, mismatch?_eq_some_iff.mp h⟩

/-! ## Operations -/

/-- What a move makes of a source and a destination: the state goes over, the source is left with
none, and both keep their settings. -/
structure Moved (a b a' b' : Aggregator) : Prop where
  received : b'.state = a.state
  emptied : a'.state = a.settings.blank
  source : a'.settings = a.settings
  destination : b'.settings = b.settings

theorem Compatible.exists_moved (h : a.Compatible b) (d : Descriptor) :
    ∃ a' b', a.move b d = .ok (a', b') ∧ Moved a b a' b' := by
  have hkind := h.kind_eq
  refine ⟨a.cleared d, a.replaceState b, ?_, ?_, ?_, ?_, ?_⟩
  · rw [move, (h : mismatch? a b = none)]
  · cases a <;> cases b <;> rfl
  · cases a <;> rfl
  · cases a <;> rfl
  · cases a <;> cases b <;> first | rfl | cases hkind

theorem Disagree.move_eq (h : Disagree a b cause) (d : Descriptor) :
    a.move b d = .error (.inconsistentAggregator cause) := by
  rw [move, mismatch?_eq_some_iff.mpr h]

theorem Compatible.settings_absorb (h : a.Compatible b) (d : Descriptor) :
    (a.absorb d b).settings = a.settings := by
  have hm : mismatch? a b = none := h
  simp only [absorb, merge, hm]
  cases a <;> cases b <;> rfl

theorem Disagree.merge_eq (h : Disagree a b cause) (d : Descriptor) :
    a.merge b d = .error (.inconsistentAggregator cause) := by
  simp only [merge, mismatch?_eq_some_iff.mpr h]

theorem subtract_of_kind_ne (h : a.kind ≠ .sum ∨ b.kind ≠ .sum) (d : Descriptor) :
    a.subtract b d = .error (.inconsistentAggregator (.kinds a.kind b.kind)) := by
  cases a <;> cases b <;> first | rfl | simp [kind] at h

end Aggregator

/-! ## Places -/

namespace InPlace

open Aggregator

/-- Work that fails for a cause and leaves all aggregators as they are. -/
def Refused (work : InPlace Unit) (as : List Aggregator) (cause : Mismatch) : Prop :=
  work.on as = (.error (.inconsistentAggregator cause), as)

variable {as : List Aggregator} {i j : Nat} {a b a' b' : Aggregator} {d : Descriptor}

theorem getD_of_getElem? (h : as[i]? = some a) : as.getD i default = a := by
  rw [List.getD_eq_getElem?_getD, h, Option.getD_some]

theorem getElem?_set_of_some (h : as[i]? = some a) : (as.set i a')[i]? = some a' := by
  obtain ⟨hi, -⟩ := List.getElem?_eq_some_iff.mp h
  exact List.getElem?_set_self hi

theorem on_move (ha : as[i]? = some a) (hb : as[j]? = some b) :
    (move i j d).on as =
      match a.move b d with
      | .ok (a', b') => (.ok (), (as.set i a').set j b')
      | .error cause => (.error cause, as) := by
  simp only [move, on_bind, on_read, on_liftM, getD_of_getElem? ha, getD_of_getElem? hb]
  cases a.move b d with
  | ok ab => simp only [on_write]
  | error cause => rfl

theorem on_combine (operation : Aggregator → Aggregator → Except MetricsError Aggregator)
    (ha : as[i]? = some a) (hb : as[j]? = some b) :
    (combine operation i j).on as =
      match operation a b with
      | .ok a' => (.ok (), as.set i a')
      | .error cause => (.error cause, as) := by
  simp only [combine, on_bind, on_read, on_liftM, getD_of_getElem? ha, getD_of_getElem? hb]
  cases operation a b with
  | ok a' => simp only [on_write]
  | error cause => rfl

/-- Operations on aggregators in two places are done in full or not at all. A move is done unless
the aggregators disagree; it hands the state of the source over, whatever the destination held, and
leaves the source with the state of a new aggregator. A merge is done unless they disagree, and a
subtraction if both are sums; either changes the target alone. In all other cases the operation
fails for what is wrong with the two aggregators, and every place holds what it held. -/
theorem operations_all_or_nothing (hij : i ≠ j) (ha : as[i]? = some a) (hb : as[j]? = some b)
    (d : Descriptor) :
    ((∀ cause, ¬ Disagree a b cause) ∧
        (∃ a' b' as', Moved a b a' b' ∧ (move i j d).on as = (.ok (), as') ∧
          as' = (as.set i a').set j b' ∧ as'[i]? = some a' ∧ as'[j]? = some b') ∨
      ∃ cause, Disagree a b cause ∧ Refused (move i j d) as cause) ∧
    ((∀ cause, ¬ Disagree a b cause) ∧
        (∃ a' as', a.merge b d = .ok a' ∧ a'.settings = a.settings ∧
          (merge i j d).on as = (.ok (), as') ∧
          as' = as.set i a' ∧ as'[i]? = some a' ∧ as'[j]? = some b) ∨
      ∃ cause, Disagree a b cause ∧ Refused (merge i j d) as cause) ∧
    ((∃ x y as', a = .sum x ∧ b = .sum y ∧ (subtract i j d).on as = (.ok (), as') ∧
          as' = as.set i (.sum (x.sub d.numberKind y)) ∧
          as'[i]? = some (.sum (x.sub d.numberKind y)) ∧ as'[j]? = some b) ∨
      (a.kind ≠ .sum ∨ b.kind ≠ .sum) ∧
        Refused (subtract i j d) as (.kinds a.kind b.kind)) := by
  have hset (a' : Aggregator) : (as.set i a')[i]? = some a' ∧ (as.set i a')[j]? = some b :=
    ⟨getElem?_set_of_some ha, (List.getElem?_set_ne hij).trans hb⟩
  refine ⟨?move, ?merge, ?subtract⟩
  case move =>
    rcases compatible_or_disagree a b with hcompatible | ⟨cause, hcause⟩
    · left
      obtain ⟨a', b', hmove, hmoved⟩ := hcompatible.exists_moved d
      have hon : (move i j d).on as = (.ok (), (as.set i a').set j b') := by
        rw [on_move ha hb, hmove]
      have hsource : ((as.set i a').set j b')[i]? = some a' := by
        rw [List.getElem?_set_ne hij.symm, (hset a').1]
      have hdestination : ((as.set i a').set j b')[j]? = some b' :=
        getElem?_set_of_some (hset a').2
      exact ⟨fun _ => hcompatible.not_disagree, a', b', _, hmoved, hon, rfl, hsource,
        hdestination⟩
    · right
      refine ⟨cause, hcause, ?_⟩
      rw [Refused, on_move ha hb, hcause.move_eq]
  case merge =>
    rcases compatible_or_disagree a b with hcompatible | ⟨cause, hcause⟩
    · left
      have hmerge := hcompatible.merge_eq d
      have hon : (merge i j d).on as = (.ok (), as.set i (a.absorb d b)) := by
        rw [merge, on_combine _ ha hb, hmerge]
      exact ⟨fun _ => hcompatible.not_disagree, _, _, hmerge, hcompatible.settings_absorb d, hon,
        rfl, hset _⟩
    · right
      refine ⟨cause, hcause, ?_⟩
      rw [Refused, merge, on_combine _ ha hb, hcause.merge_eq]
  case subtract =>
    by_cases hsums : a.kind = .sum ∧ b.kind = .sum
    · left
      obtain ⟨x, rfl⟩ := exists_eq_sum hsums.1
      obtain ⟨y, rfl⟩ := exists_eq_sum hsums.2
      have hon : (subtract i j d).on as = (.ok (), as.set i (.sum (x.sub d.numberKind y))) := by
        rw [subtract, on_combine _ ha hb, Aggregator.subtract]
      exact ⟨x, y, _, rfl, rfl, hon, rfl, hset _⟩
    · right
      have hkinds : a.kind ≠ .sum ∨ b.kind ≠ .sum := not_and_or.mp hsums
      refine ⟨hkinds, ?_⟩
      rw [Refused, subtract, on_combine _ ha hb, subtract_of_kind_ne hkinds]

/-- Latencies are moved to a histogram that has the other zero as a boundary. Histograms are not
subtracted, and a histogram is not merged with a sum. -/
theorem operations_all_or_nothing_latencies :
    let latency : Descriptor := { name := "latency", kind := .histogram, numberKind := .f64 }
    let zero : Binary64 := ⟨0⟩
    let minusZero : Binary64 := ⟨0x8000000000000000⟩
    let five : Binary64 := ⟨0x4014000000000000⟩
    let twenty : Number := ⟨0x4034000000000000⟩
    let current : Aggregator := .histogram .f64 [minusZero, five] ⟨[1, 0, 2], 3, twenty⟩
    let checkpoint : Aggregator := .histogram .f64 [zero, five] ⟨[0, 4, 0], 4, ⟨0⟩⟩
    let as := [current, checkpoint, .sum ⟨7⟩]
    0 ≠ 1 ∧ as[0]? = some current ∧ as[1]? = some checkpoint ∧
      (move 0 1 latency).on as = (.ok (), [.histogram .f64 [minusZero, five] ⟨[0, 0, 0], 0, ⟨0⟩⟩,
        .histogram .f64 [zero, five] ⟨[1, 0, 2], 3, twenty⟩, .sum ⟨7⟩]) ∧
      Refused (subtract 0 1 latency) as (.kinds .histogram .histogram) ∧
      1 ≠ 2 ∧ as[2]? = some (.sum ⟨7⟩) ∧
      Refused (merge 1 2 latency) as (.kinds .histogram .sum) := by
  intro latency zero minusZero five twenty current checkpoint as
  have hcurrent : as[0]? = some current := rfl
  have hcheckpoint : as[1]? = some checkpoint := rfl
  have hsum : as[2]? = some (.sum ⟨7⟩) := rfl
  obtain ⟨hmove, -, hsubtract⟩ :=
    operations_all_or_nothing Nat.zero_ne_one hcurrent hcheckpoint latency
  obtain ⟨-, hmerge, -⟩ :=
    operations_all_or_nothing (Nat.succ_ne_self 1).symm hcheckpoint hsum latency
  refine ⟨Nat.zero_ne_one, hcurrent, hcheckpoint, ?_, ?_, by decide, hsum, ?_⟩
  · have hmatch : mismatch? current checkpoint = none := by decide +kernel
    have hcompatible : current.Compatible checkpoint := hmatch
    obtain ⟨-, a', b', as', hmoved, hon, rfl, -, -⟩ :=
      hmove.resolve_right fun ⟨_, hcause, _⟩ => hcompatible.not_disagree hcause
    have ha' : a' = .histogram .f64 [minusZero, five] ⟨[0, 0, 0], 0, ⟨0⟩⟩ :=
      eq_of_settings_of_state hmoved.source hmoved.emptied
    have hb' : b' = .histogram .f64 [zero, five] ⟨[1, 0, 2], 3, twenty⟩ :=
      eq_of_settings_of_state hmoved.destination hmoved.received
    rw [hon, ha', hb']
    rfl
  · exact (hsubtract.resolve_left fun ⟨_, _, _, hsum, _⟩ => by simp [current] at hsum).2
  · have hkinds : Disagree checkpoint (.sum ⟨7⟩) (.kinds .histogram .sum) := .kinds (by decide)
    obtain ⟨cause, hcause, hrefused⟩ := hmerge.resolve_left fun h => h.1 _ hkinds
    rwa [hcause.unique hkinds] at hrefused

end InPlace
end Metering
