import Metering.Proofs.Accumulator.Samples
import Metering.Proofs.Aggregator.Retiming
import Metering.Proofs.Aggregator.Summary

/-!
# Merged aggregators

Measurements that are divided among new aggregators end up as if one had taken in all of them, in
whatever order these are merged. Sums without a sign may reach the end of their range on the way;
those with a sign must have room for all measurements.
-/

namespace Metering

/-! ## Adding numbers in any order -/

variable {kind : NumberKind}

/-- Whether numbers with these absolute values in all can be added in any order. Without a sign they
always can, as sums that stop at the end of the range do not come back. -/
def NumberKind.HasRoom (kind : NumberKind) (weight : Int) : Prop :=
  kind = .u64 ∨ weight ≤ kind.highest

theorem NumberKind.HasRoom.mono {v w : Int} (h : kind.HasRoom w) (hle : v ≤ w) :
    kind.HasRoom v := h.imp_right hle.trans

namespace Number

theorem toInt_add_eq_clamp (hk : kind.IsInteger) (m n : Number) :
    kind.toInt (m.add kind n) =
      clamp kind.lowest kind.highest (kind.toInt m + kind.toInt n) := by
  rw [NumberKind.add_eq hk, NumberKind.toInt_ofInt_eq_clamp hk]

protected theorem add_comm (hk : kind.IsInteger) (m n : Number) : m.add kind n = n.add kind m := by
  rw [NumberKind.add_eq hk, NumberKind.add_eq hk, add_comm]

protected theorem add_zero (hk : kind.IsInteger) (n : Number) : n.add kind ⟨0⟩ = n := by
  have hrange := NumberKind.toInt_inRange hk n
  refine NumberKind.toInt_injective hk ?_
  rw [NumberKind.toInt_add hk, NumberKind.toInt_zero kind hk, add_zero]
  rwa [NumberKind.toInt_zero kind hk, add_zero]

theorem abs_toInt_add_le (hk : kind.IsInteger) (m n : Number) :
    |kind.toInt (m.add kind n)| ≤ |kind.toInt m| + |kind.toInt n| := by
  obtain ⟨hlo, hhi⟩ := NumberKind.inRange_zero kind
  have hm := abs_le.mp (le_refl |kind.toInt m|)
  have hn := abs_le.mp (le_refl |kind.toInt n|)
  rw [toInt_add_eq_clamp hk, clamp, abs_le]
  omega

protected theorem add_assoc (hk : kind.IsInteger) {l m n : Number}
    (h : kind.HasRoom (|kind.toInt l| + |kind.toInt m| + |kind.toInt n|)) :
    (l.add kind m).add kind n = l.add kind (m.add kind n) := by
  refine NumberKind.toInt_injective hk ?_
  simp only [toInt_add_eq_clamp hk, clamp]
  have hl := NumberKind.toInt_inRange hk l
  have hm := NumberKind.toInt_inRange hk m
  have hn := NumberKind.toInt_inRange hk n
  cases kind with
  | f64 => exact absurd rfl hk
  | u64 =>
    simp only [NumberKind.InRange, NumberKind.lowest, NumberKind.highest] at *
    omega
  | i64 =>
    have hroom := h.resolve_left (by decide)
    have hl' := abs_le.mp (le_refl |NumberKind.i64.toInt l|)
    have hm' := abs_le.mp (le_refl |NumberKind.i64.toInt m|)
    have hn' := abs_le.mp (le_refl |NumberKind.i64.toInt n|)
    simp only [NumberKind.lowest, NumberKind.highest, signedLowest, signedHighest] at *
    omega

protected theorem add_right_comm (hk : kind.IsInteger) {l m n : Number}
    (h : kind.HasRoom (|kind.toInt l| + |kind.toInt m| + |kind.toInt n|)) :
    (l.add kind m).add kind n = (l.add kind n).add kind m := by
  rw [Number.add_assoc hk h, Number.add_comm hk m, ← Number.add_assoc hk (h.mono (by omega))]

end Number

/-! ## Merging states in any order -/

theorem Count.plus_comm (m n : Count) : m.plus n = n.plus m := by
  rw [Count.plus, Count.plus, Nat.add_comm]

theorem Count.plus_assoc (l m n : Count) : (l.plus m).plus n = l.plus (m.plus n) := by
  change (min (min (l + m) Count.top + n) Count.top : Nat) =
    min (l + min (m + n) Count.top) Count.top
  omega

namespace Extremes

theorem toInt_merge_min (hk : kind.IsInteger) (s t : Extremes) :
    kind.toInt (merge kind s t).min = Min.min (kind.toInt s.min) (kind.toInt t.min) := by
  simp only [merge, compare?_eq_lt hk]
  split <;> omega

theorem toInt_merge_max (hk : kind.IsInteger) (s t : Extremes) :
    kind.toInt (merge kind s t).max = Max.max (kind.toInt s.max) (kind.toInt t.max) := by
  simp only [merge, compare?_eq_gt hk]
  split <;> omega

theorem ext_toInt (hk : kind.IsInteger) {s t : Extremes} (hcount : s.count = t.count)
    (hsum : s.sum = t.sum) (hmin : kind.toInt s.min = kind.toInt t.min)
    (hmax : kind.toInt s.max = kind.toInt t.max) : s = t := by
  have hmin' := NumberKind.toInt_injective hk hmin
  have hmax' := NumberKind.toInt_injective hk hmax
  cases s
  cases t
  simp_all only

protected theorem merge_comm (hk : kind.IsInteger) (s t : Extremes) :
    merge kind s t = merge kind t s := by
  refine ext_toInt hk (Count.plus_comm _ _) (Number.add_comm hk _ _) ?_ ?_
  · rw [toInt_merge_min hk, toInt_merge_min hk, inf_comm]
  · rw [toInt_merge_max hk, toInt_merge_max hk, sup_comm]

protected theorem merge_assoc (hk : kind.IsInteger) {r s t : Extremes}
    (h : kind.HasRoom (|kind.toInt r.sum| + |kind.toInt s.sum| + |kind.toInt t.sum|)) :
    merge kind (merge kind r s) t = merge kind r (merge kind s t) := by
  refine ext_toInt hk (Count.plus_assoc _ _ _) (Number.add_assoc hk h) ?_ ?_
  · simp only [toInt_merge_min hk]
    exact inf_assoc _ _ _
  · simp only [toInt_merge_max hk]
    exact sup_assoc _ _ _

protected theorem merge_right_comm (hk : kind.IsInteger) {r s t : Extremes}
    (h : kind.HasRoom (|kind.toInt r.sum| + |kind.toInt s.sum| + |kind.toInt t.sum|)) :
    merge kind (merge kind r s) t = merge kind (merge kind r t) s := by
  rw [Extremes.merge_assoc hk h, Extremes.merge_comm hk s,
    ← Extremes.merge_assoc hk (h.mono (by omega))]

end Extremes

namespace Distribution

variable {s t : Distribution} {n : Number}

theorem merge_record (hk : kind.IsInteger) (bucket : Nat)
    (h : kind.HasRoom (|kind.toInt s.sum| + |kind.toInt t.sum| + |kind.toInt n|)) :
    merge kind s (record kind bucket n t) = record kind bucket n (merge kind s t) := by
  simp only [merge, record, mk.injEq]
  refine ⟨?_, (Count.plus_assoc _ _ _).symm, (Number.add_assoc hk h).symm⟩
  refine List.ext_getElem? fun i => ?_
  simp only [List.getElem?_zipWith, List.getElem?_modify]
  cases s.buckets[i]? <;> cases t.buckets[i]? <;> by_cases hb : bucket = i <;>
    simp [hb, Count.plus_assoc]

protected theorem merge_comm (hk : kind.IsInteger) (s t : Distribution) :
    merge kind s t = merge kind t s := by
  simp only [merge, mk.injEq]
  exact ⟨List.zipWith_comm_of_comm Count.plus_comm, Count.plus_comm _ _, Number.add_comm hk _ _⟩

theorem record_merge (hk : kind.IsInteger) (bucket : Nat)
    (h : kind.HasRoom (|kind.toInt s.sum| + |kind.toInt t.sum| + |kind.toInt n|)) :
    merge kind (record kind bucket n s) t = record kind bucket n (merge kind s t) := by
  rw [Distribution.merge_comm hk, merge_record hk bucket (h.mono (by omega)),
    Distribution.merge_comm hk]

theorem merge_empty (hk : kind.IsInteger) (k : NumberKind) (boundaries : Nat) :
    merge kind (empty k boundaries) (empty k boundaries) = empty k boundaries := by
  simp only [merge, empty, mk.injEq, List.zipWith_replicate, min_self]
  exact ⟨rfl, rfl, Number.add_zero hk _⟩

end Distribution

/-! ## Updates of merged aggregators -/

namespace Aggregator

variable {d : Descriptor} {a b : Aggregator} {n : Number} {stamp : Stamp}

theorem Compatible.cases (h : a.Compatible b) :
    (∃ x y, a = sum x ∧ b = sum y) ∨
    (∃ x y, a = lastValue x ∧ b = lastValue y) ∨
    (∃ k k' x y, a = minMaxSumCount k x ∧ b = minMaxSumCount k' y) ∨
    (∃ k k' bs cs x y, a = histogram k bs x ∧ b = histogram k' cs y ∧
      Boundaries.agree bs cs = true) := by
  cases a <;> cases b <;> simp_all [Compatible, mismatch?]

/-- The absolute value of the sum, where one is kept. -/
def weight (d : Descriptor) (a : Aggregator) : Int := |a.sum?.elim 0 d.numberKind.toInt|

/-- Whether the last value, where it is kept, was written before the write with a stamp. -/
def IsBefore (stamp : Stamp) (a : Aggregator) : Prop :=
  ∀ r, a = lastValue (some r) → r.stamp.sequence < stamp.sequence

/-- A measurement that is made last may as well be made after a merge. -/
theorem absorb_update_left (hk : d.numberKind.IsInteger) (hc : a.Compatible b)
    (hroom : d.numberKind.HasRoom (a.weight d + b.weight d + |d.numberKind.toInt n|))
    (hb : b.IsBefore stamp) :
    (a.update n d stamp).absorb d b = (a.absorb d b).update n d stamp := by
  obtain ⟨x, y, rfl, rfl⟩ | ⟨x, y, rfl, rfl⟩ | ⟨k, k', x, y, rfl, rfl⟩ |
    ⟨k, k', bs, cs, x, y, rfl, rfl, hagree⟩ := hc.cases
  · exact congrArg sum (Number.add_right_comm hk hroom).symm
  · cases y with
    | none => rfl
    | some r =>
      have hlt : ¬ stamp.sequence < r.stamp.sequence := not_lt.mpr (hb r rfl).le
      show lastValue (some (if stamp.sequence < r.stamp.sequence then r else ⟨n, stamp⟩)) = _
      rw [if_neg hlt]
      rfl
  · cases x with
    | none =>
      cases y with
      | none => rfl
      | some t => exact congrArg (minMaxSumCount k <| some ·) (Extremes.merge_comm hk _ t)
    | some s =>
      cases y with
      | none => rfl
      | some t =>
        have hswap := Extremes.merge_right_comm (t := .single n) hk hroom
        exact congrArg (minMaxSumCount k <| some ·) hswap.symm
  · simp only [absorb, merge, mismatch?, update, hagree, if_true]
    exact congrArg _ (Distribution.record_merge hk _ hroom)

theorem absorb_update_right (hk : d.numberKind.IsInteger) (hc : a.Compatible b)
    (hroom : d.numberKind.HasRoom (a.weight d + b.weight d + |d.numberKind.toInt n|))
    (ha : a.IsBefore stamp) :
    a.absorb d (b.update n d stamp) = (a.absorb d b).update n d stamp := by
  obtain ⟨x, y, rfl, rfl⟩ | ⟨x, y, rfl, rfl⟩ | ⟨k, k', x, y, rfl, rfl⟩ |
    ⟨k, k', bs, cs, x, y, rfl, rfl, hagree⟩ := hc.cases
  · exact congrArg sum (Number.add_assoc hk hroom).symm
  · cases x with
    | none => rfl
    | some r => exact congrArg (fun last => lastValue (some last)) (if_pos (ha r rfl))
  · cases x with
    | none => cases y <;> rfl
    | some s =>
      cases y with
      | none => rfl
      | some t =>
        have hassoc := Extremes.merge_assoc (t := .single n) hk hroom
        exact congrArg (minMaxSumCount k <| some ·) hassoc.symm
  · simp only [absorb, merge, mismatch?, update, hagree, if_true, Boundaries.bucket_congr hagree]
    exact congrArg _ (Distribution.merge_record hk _ hroom)

/-! ## Divided measurements -/

open Accumulator (gather gather_snoc)

variable {g g' : Aggregator} {rs : List Reading}

/-- The absolute values of readings, added up. -/
def totalWeight (kind : NumberKind) (rs : List Reading) : Int :=
  (rs.map fun r => |kind.toInt r.value|).sum

theorem totalWeight_append (kind : NumberKind) (rs rs' : List Reading) :
    totalWeight kind (rs ++ rs') = totalWeight kind rs + totalWeight kind rs' := by
  simp [totalWeight]

theorem totalWeight_singleton (kind : NumberKind) (r : Reading) :
    totalWeight kind [r] = |kind.toInt r.value| := by
  simp [totalWeight]

theorem totalWeight_filter_add (kind : NumberKind) (p : Reading → Bool) (rs : List Reading) :
    totalWeight kind (rs.filter p) + totalWeight kind (rs.filter (!p ·)) =
      totalWeight kind rs := by
  rw [← totalWeight_append]
  exact ((List.filter_append_perm p rs).map _).sum_eq

theorem weight_update (hk : d.numberKind.IsInteger) (a : Aggregator) (n : Number) (stamp : Stamp) :
    (a.update n d stamp).weight d ≤ a.weight d + |d.numberKind.toInt n| := by
  cases a with
  | sum x => exact Number.abs_toInt_add_le hk x n
  | lastValue last => exact le_add_of_nonneg_right (abs_nonneg _)
  | minMaxSumCount k state =>
    cases state with
    | none => exact le_add_of_nonneg_left (abs_nonneg _)
    | some s => exact Number.abs_toInt_add_le hk s.sum n
  | histogram k bs s => exact Number.abs_toInt_add_le hk s.sum n

theorem IsNew.weight (hk : d.numberKind.IsInteger) (h : IsNew d g) : g.weight d = 0 := by
  obtain ⟨kind, boundaries, rfl⟩ := h
  have hzero : |d.numberKind.toInt ⟨0⟩| = 0 := by rw [NumberKind.toInt_zero _ hk, abs_zero]
  cases kind with
  | lastValue => exact abs_zero
  | _ => exact hzero

theorem weight_gather (hk : d.numberKind.IsInteger) (hg : IsNew d g) (rs : List Reading) :
    (gather d g rs).weight d ≤ totalWeight d.numberKind rs := by
  induction rs using List.reverseRecOn with
  | nil => exact (hg.weight hk).le
  | append_singleton rs r ih =>
    rw [gather_snoc, totalWeight_append, totalWeight_singleton]
    exact (weight_update hk _ _ _).trans (Int.add_le_add_right ih _)

theorem isBefore_gather (hg : IsNew d g)
    (h : ∀ r ∈ rs, r.stamp.sequence < stamp.sequence) : (gather d g rs).IsBefore stamp := by
  intro r hlast
  induction rs using List.reverseRecOn with
  | nil =>
    obtain ⟨kind, boundaries, rfl⟩ := hg
    cases kind <;> cases hlast
  | append_singleton rs r' _ =>
    rw [gather_snoc] at hlast
    have hwrite := h r' (by simp)
    cases hprev : gather d g rs with
    | lastValue last =>
      rw [hprev] at hlast
      cases hlast
      exact hwrite
    | minMaxSumCount k state => cases state <;> simp [hprev, update] at hlast
    | _ => simp [hprev, update] at hlast

theorem shape_gather (d : Descriptor) (g : Aggregator) (rs : List Reading) :
    (gather d g rs).shape = g.shape := by
  induction rs using List.reverseRecOn with
  | nil => rfl
  | append_singleton rs r ih =>
    rw [gather_snoc, ← ih]
    exact shape_eq_of_cleared (cleared_update _ _ _ _)

theorem Compatible.gather (h : g.Compatible g') (rs rs' : List Reading) :
    (gather d g rs).Compatible (gather d g' rs') :=
  h.congr (shape_gather d g rs) (shape_gather d g' rs')

theorem IsNew.absorb (hk : d.numberKind.IsInteger) (hg : IsNew d g) (hg' : IsNew d g')
    (hc : g.Compatible g') : g.absorb d g' = g := by
  obtain ⟨kind, boundaries, rfl⟩ := hg
  obtain ⟨kind', boundaries', rfl⟩ := hg'
  obtain rfl : kind = kind' := by
    have hkind := hc.kind_eq
    cases kind <;> cases kind' <;> first | rfl | cases hkind
  cases kind with
  | sum => exact congrArg sum (Number.add_zero hk _)
  | lastValue => rfl
  | minMaxSumCount => rfl
  | histogram =>
    have hagree : Boundaries.agree (Boundaries.ofList boundaries)
        (Boundaries.ofList boundaries') = true := by
      simpa [Compatible, new, newHistogram, mismatch?] using hc
    simp only [new, newHistogram, absorb, merge, mismatch?, hagree, if_true,
      ← Boundaries.length_eq_of_agree hagree, Distribution.merge_empty hk]

/-- Measurements that are divided among two new aggregators end up in the first one after the merge
as if it had taken in all of them. -/
theorem absorb_gather (hk : d.numberKind.IsInteger) (hg : IsNew d g) (hg' : IsNew d g')
    (hc : g.Compatible g')
    (hs : rs.Pairwise fun r r' => r.stamp.sequence < r'.stamp.sequence)
    (hroom : d.numberKind.HasRoom (totalWeight d.numberKind rs)) (p : Reading → Bool) :
    (gather d g (rs.filter p)).absorb d (gather d g' (rs.filter (!p ·))) = gather d g rs := by
  induction rs using List.reverseRecOn with
  | nil => exact hg.absorb hk hg' hc
  | append_singleton rs r ih =>
    obtain ⟨hs', -, hlast⟩ := List.pairwise_append.mp hs
    have hearlier : ∀ q : Reading → Bool, ∀ r' ∈ rs.filter q,
        r'.stamp.sequence < r.stamp.sequence :=
      fun q r' hr' => hlast r' (List.mem_of_mem_filter hr') r (by simp)
    rw [totalWeight_append, totalWeight_singleton] at hroom
    have hrest := ih hs' (hroom.mono (le_add_of_nonneg_right (abs_nonneg _)))
    have hcompat := hc.gather (d := d) (rs.filter p) (rs.filter (!p ·))
    have hweights : d.numberKind.HasRoom ((gather d g (rs.filter p)).weight d +
        (gather d g' (rs.filter (!p ·))).weight d + |d.numberKind.toInt r.value|) := by
      refine hroom.mono (Int.add_le_add_right ?_ _)
      rw [← totalWeight_filter_add _ p]
      exact add_le_add (weight_gather hk hg _) (weight_gather hk hg' _)
    rw [gather_snoc, ← hrest, List.filter_append, List.filter_append]
    cases hp : p r with
    | true =>
      have hleft : [r].filter p = [r] := by simp [hp]
      have hright : [r].filter (!p ·) = [] := by simp [hp]
      rw [hleft, hright, List.append_nil, gather_snoc]
      exact absorb_update_left hk hcompat hweights (isBefore_gather hg' (hearlier _))
    | false =>
      have hleft : [r].filter p = [] := by simp [hp]
      have hright : [r].filter (!p ·) = [r] := by simp [hp]
      rw [hleft, hright, List.append_nil, gather_snoc]
      exact absorb_update_right hk hcompat hweights (isBefore_gather hg (hearlier _))

/-! ## Merging in any order -/

/-- An order in which aggregators, given by their numbers, are merged into one. -/
inductive Merging where
  | only (i : Nat)
  | into (target source : Merging)

namespace Merging

/-- The aggregators that are merged. -/
def parts : Merging → List Nat
  | only i => [i]
  | into target source => target.parts ++ source.parts

/-- The aggregator that all others are merged into. -/
def base : Merging → Nat
  | only i => i
  | into target _ => target.base

def result (d : Descriptor) (a : Nat → Aggregator) : Merging → Except MetricsError Aggregator
  | only i => .ok (a i)
  | into target source => do (← target.result d a).merge (← source.result d a) d

/-- The aggregators with the measurements that are theirs. -/
def divided (d : Descriptor) (g : Nat → Aggregator) (assign : Reading → Nat) (rs : List Reading)
    (i : Nat) : Aggregator := gather d (g i) (rs.filter (assign · = i))

variable {g : Nat → Aggregator} {assign : Reading → Nat}

theorem filter_mem_left (xs ys : List Nat) :
    (rs.filter (assign · ∈ xs ++ ys)).filter (assign · ∈ xs) = rs.filter (assign · ∈ xs) := by
  rw [List.filter_filter]
  refine List.filter_congr fun r _ => ?_
  by_cases hr : assign r ∈ xs <;> simp [hr]

theorem filter_mem_right {xs ys : List Nat} (h : ∀ x ∈ xs, ∀ y ∈ ys, x ≠ y) :
    (rs.filter (assign · ∈ xs ++ ys)).filter (fun r => !decide (assign r ∈ xs)) =
      rs.filter (assign · ∈ ys) := by
  rw [List.filter_filter]
  refine List.filter_congr fun r _ => ?_
  by_cases hr : assign r ∈ xs
  · have hother : assign r ∉ ys := fun hr' => h _ hr _ hr' rfl
    simp [hr, hother]
  · simp [hr]

theorem result_divided (hk : d.numberKind.IsInteger) (hg : ∀ i, IsNew d (g i))
    (hc : ∀ i j, (g i).Compatible (g j))
    (hs : rs.Pairwise fun r r' => r.stamp.sequence < r'.stamp.sequence)
    (hroom : d.numberKind.HasRoom (totalWeight d.numberKind rs)) {m : Merging}
    (hm : m.parts.Nodup) :
    m.result d (divided d g assign rs) =
      .ok (gather d (g m.base) (rs.filter (assign · ∈ m.parts))) := by
  induction m with
  | only i => simp [result, divided, parts, base]
  | into target source htarget hsource =>
    obtain ⟨hnodup, hnodup', hdisjoint⟩ := List.nodup_append.mp hm
    let all : List Reading := rs.filter (assign · ∈ target.parts ++ source.parts)
    have hall : all.Sublist rs := List.filter_sublist
    have hsplit := absorb_gather hk (hg target.base) (hg source.base) (hc _ _) (hs.sublist hall)
      (hroom.mono ((hall.map _).sum_le_sum (by simp))) (assign · ∈ target.parts)
    rw [filter_mem_left, filter_mem_right hdisjoint] at hsplit
    simp only [result, htarget hnodup, hsource hnodup']
    exact (((hc target.base source.base).gather _ _).merge_eq d).trans (congrArg _ hsplit)

end Merging

/-! ## Numbered measurements -/

/-- Measurements, each with the time that the clock showed, as they are written one after the
other: the writes get consecutive numbers. -/
def numbered (first : Nat) (ms : List (Number × Time)) : List Reading :=
  (ms.zipIdx first).map fun (m, sequence) => ⟨m.1, m.2, sequence⟩

theorem map_value_numbered (first : Nat) (ms : List (Number × Time)) :
    (numbered first ms).map (·.value) = ms.map (·.1) := by
  induction ms generalizing first with
  | nil => rfl
  | cons m ms ih => exact congrArg (m.1 :: ·) (ih (first + 1))

theorem pairwise_numbered (first : Nat) (ms : List (Number × Time)) :
    (numbered first ms).Pairwise fun r r' => r.stamp.sequence < r'.stamp.sequence := by
  induction ms generalizing first with
  | nil => exact .nil
  | cons m ms ih =>
    refine .cons (fun r hr => ?_) (ih (first + 1))
    obtain ⟨⟨m', sequence⟩, hm, rfl⟩ := List.mem_map.mp hr
    exact List.le_snd_of_mem_zipIdx hm

theorem untimed_update (h : a.untimed = b.untimed) (n : Number) (stamp stamp' : Stamp) :
    (a.update n d stamp).untimed = (b.update n d stamp').untimed := by
  have hsame : ∀ x : Aggregator, (x.update n d stamp).untimed = (x.update n d stamp').untimed := by
    intro x
    cases x with
    | minMaxSumCount kind state => cases state <;> rfl
    | _ => rfl
  rw [hsame a]
  -- but for last values, of which the new ones are the same, both are the same
  cases a with
  | lastValue r =>
    cases b with
    | lastValue s => rfl
    | _ => cases h
  | _ =>
    cases b with
    | lastValue s => cases h
    | _ => exact congrArg (fun x : Aggregator => (x.update n d stamp').untimed) h

/-- The stamps decide nothing but the stamp of the last value. -/
theorem untimed_gather (g : Aggregator) {rs' : List Reading}
    (h : rs.map (·.value) = rs'.map (·.value)) :
    (gather d g rs).untimed = (gather d g rs').untimed := by
  induction rs using List.reverseRecOn generalizing rs' with
  | nil => rw [List.map_eq_nil_iff.mp h.symm]
  | append_singleton rs r ih =>
    obtain ⟨rs', r', rfl⟩ : ∃ qs q, rs' = qs ++ [q] := by
      rcases List.eq_nil_or_concat rs' with rfl | ⟨qs, q, rfl⟩
      · simp at h
      · exact ⟨qs, q, by simp⟩
    rw [List.map_append, List.map_append] at h
    obtain ⟨hrest, hlast⟩ := List.append_inj' h rfl
    have hvalue : r.value = r'.value := by simpa using hlast
    rw [gather_snoc, gather_snoc, hvalue]
    exact untimed_update (ih hrest) ..

open Merging (divided)

/-- Integer measurements that are divided among any number of new aggregators of one kind, of
histograms with the same boundaries, give after merges in any order exactly the aggregator that has
taken in all of them. The measurements are written one after the other, whatever the clock shows,
and each aggregator gets its own as they are written; some may get none. Had the one aggregator
been given the same measurements by other writes, at most the stamp of its last value would
differ. -/
theorem merged_eq_single_stream (hk : d.numberKind.IsInteger) (kind : AggregationKind)
    (boundaries : Nat → List Binary64)
    (hboundaries : ∀ i j, Boundaries.agree (Boundaries.ofList (boundaries i))
      (Boundaries.ofList (boundaries j)) = true)
    (ms : List (Number × Time))
    (hroom : d.numberKind = .u64 ∨
      (ms.map fun m => |d.numberKind.toInt m.1|).sum ≤ d.numberKind.highest)
    (first : Nat) (assign : Reading → Nat) (m : Merging) (hm : m.parts.Nodup)
    (hassign : ∀ r ∈ numbered first ms, assign r ∈ m.parts) :
    let one (rs : List Reading) := gather d (new kind d (boundaries m.base)) rs
    m.result d (divided d (fun i => new kind d (boundaries i)) assign (numbered first ms)) =
        .ok (one (numbered first ms)) ∧
      ∀ rs : List Reading, rs.map (·.value) = ms.map (·.1) →
        (one rs).untimed = (one (numbered first ms)).untimed := by
  have hc : ∀ i j, (new kind d (boundaries i)).Compatible (new kind d (boundaries j)) := by
    intro i j
    cases kind with
    | histogram => simp [Compatible, new, newHistogram, mismatch?, hboundaries i j]
    | _ => rfl
  have hall : (numbered first ms).filter (assign · ∈ m.parts) = numbered first ms :=
    List.filter_eq_self.mpr fun r hr => decide_eq_true (hassign r hr)
  have hroom : d.numberKind.HasRoom (totalWeight d.numberKind (numbered first ms)) := by
    have habs := congrArg (List.map fun n => |d.numberKind.toInt n|) (map_value_numbered first ms)
    rw [List.map_map, List.map_map] at habs
    exact hroom.imp_right (congrArg List.sum habs).trans_le
  refine ⟨?_, fun rs hrs => untimed_gather _ (hrs.trans (map_value_numbered first ms).symm)⟩
  rw [Merging.result_divided hk (fun i => ⟨kind, boundaries i, rfl⟩) hc
    (pairwise_numbered first ms) hroom hm, hall]

theorem merged_latencies_eq_single_stream :
    let latency : Descriptor := { name := "latency", kind := .histogram, numberKind := .u64 }
    let boundaries : List Binary64 := [.ofInt 5, .ofInt 10]
    -- the clock stands still, and then is set back
    let ms : List (Number × Time) := [(⟨7⟩, 4), (⟨0xffffffffffffffff⟩, 4), (⟨3⟩, 4), (⟨12⟩, 2)]
    let m : Merging := .into (.into (.only 1) (.only 2)) (.into (.only 3) (.only 0))
    let assign (r : Reading) : Nat := r.stamp.sequence % 3
    latency.numberKind.IsInteger ∧
      Boundaries.agree (Boundaries.ofList boundaries) (Boundaries.ofList boundaries) = true ∧
      m.parts.Nodup ∧ (∀ r ∈ numbered 5 ms, assign r ∈ m.parts) ∧
      m.result latency (divided latency (fun _ => new .histogram latency boundaries) assign
          (numbered 5 ms)) =
        .ok (gather latency (new .histogram latency boundaries) (numbered 5 ms)) := by
  have hagree : Boundaries.agree (Boundaries.ofList [.ofInt 5, .ofInt 10])
      (Boundaries.ofList [.ofInt 5, .ofInt 10]) = true := by decide +kernel
  exact ⟨by decide, hagree, by decide, by decide,
    (merged_eq_single_stream (by decide) .histogram (fun _ => [.ofInt 5, .ofInt 10])
      (fun _ _ => hagree) _ (.inl rfl) 5 (fun r => r.stamp.sequence % 3) _ (by decide)
      (by decide)).1⟩

-- of two values that are written at the same time, the one written later is kept
example :
    let size : Descriptor := { name := "size", kind := .gaugeObserver, numberKind := .i64 }
    (Merging.into (.only 1) (.only 0)).result size
        (divided size (fun _ => newLastValue) (·.stamp.sequence)
          (numbered 0 [(⟨5⟩, 10), (⟨7⟩, 10)])) =
      .ok (.lastValue (some ⟨⟨7⟩, 10, 1⟩)) := by
  rfl

end Aggregator
end Metering
