import Metering.Proofs.Accumulator.Handover
import Metering.Proofs.Accumulator.Relabel
import Metering.Proofs.Aggregator.Summary
import Metering.Proofs.Processor.History

/-!
# Merging what a sweep hands over

Series whose labels become the same are merged. The merge says what a single series would say
that was given all their measurements.
-/

namespace Metering.Accumulator

variable {choose : Descriptor → Option Aggregator} {us : List Sample} {a : Accumulator}

/-! ## Readings of several series -/

private theorem perm_filter (K : List SeriesKey) (hK : K.Nodup) (us : List Sample) :
    ((K.map fun k => us.filter (·.key = k)).flatten).Perm (us.filter (·.key ∈ K)) := by
  induction K with
  | nil => simp
  | cons k K ih =>
    obtain ⟨hk, hK⟩ := List.nodup_cons.mp hK
    have hsplit := List.filter_append_perm (fun u : Sample => u.key = k)
      (us.filter (·.key ∈ k :: K))
    have hself : (us.filter (·.key ∈ k :: K)).filter (·.key = k) = us.filter (·.key = k) := by
      rw [List.filter_filter]
      exact List.filter_congr fun u _ => by simpa using Or.inl
    have hrest : (us.filter (·.key ∈ k :: K)).filter (fun u => !decide (u.key = k)) =
        us.filter (·.key ∈ K) := by
      rw [List.filter_filter]
      refine List.filter_congr fun u _ => ?_
      by_cases hu : u.key = k
      · simp [hu, hk]
      · simp [hu]
    rw [hself, hrest] at hsplit
    rw [List.map_cons, List.flatten_cons]
    exact ((ih hK).append_left _).trans hsplit

theorem readings_eq_filter (k : SeriesKey) (us : List Sample) :
    readings k us = (us.filter (·.key = k)).map (·.reading) := by
  induction us with
  | nil => rfl
  | cons u us ih =>
    rw [← List.singleton_append, readings_append, readings_singleton, ih]
    by_cases h : u.key = k <;> simp [h]

/-- The readings of all series whose labels become the same are, in some order, those of the
series with the changed labels. -/
theorem perm_readings {r : Relabelling} {k : SeriesKey} {K : List SeriesKey} (hK : K.Nodup)
    (hmem : ∀ u ∈ us, u.key ∈ K ↔ r.key u.key = k) :
    ((K.map fun k' => readings k' us).flatten).Perm
      (readings k (us.map (Sample.relabel r))) := by
  have hleft : (K.map fun k' => readings k' us).flatten =
      ((K.map fun k' => us.filter (·.key = k')).flatten).map (·.reading) := by
    rw [List.map_flatten, List.map_map]
    exact congrArg List.flatten (List.map_congr_left fun k' _ => readings_eq_filter k' us)
  have hright : readings k (us.map (Sample.relabel r)) =
      (us.filter (·.key ∈ K)).map (·.reading) := by
    rw [readings_eq_filter, List.filter_map, List.map_map]
    refine congrArg (List.map _) (List.filter_congr fun u hu => ?_)
    exact decide_eq_decide.mpr (hmem u hu).symm
  rw [hleft, hright]
  exact (perm_filter K hK us).map _

/-! ## What single series say -/

/-- A new aggregator that was given readings one after the other says what these are, if no sum
leaves the range on the way. -/
theorem gather_describes {d : Descriptor} {g : Aggregator} (hg : Aggregator.IsNew d g)
    (hk : g.sum?.isSome = true → d.numberKind.IsInteger) {rs : List Reading}
    (ht : rs.Pairwise fun r r' => r.stamp.sequence < r'.stamp.sequence)
    (hsum : ∀ rs', rs' <+: rs → g.Exact d (total d.numberKind rs')) :
    (gather d g rs).Describes d rs := by
  induction rs using List.reverseRecOn with
  | nil => exact hg.describes hk
  | append_singleton rs r ih =>
    obtain ⟨ht, -, hlast⟩ := List.pairwise_append.mp ht
    rw [gather_snoc]
    refine (ih ht fun rs' hp => hsum rs' (hp.trans (List.prefix_append ..))).update ?_ ?_
    · intro hs
      rw [Aggregator.hasSum_congr (Aggregator.shape_eq_of_cleared (d := d) (b := g)
        ((cleared_gather hg.cleared rs).trans hg.cleared.symm))] at hs
      exact hsum _ (List.prefix_refl _) hs
    · intro r' hr'
      exact (hlast r' hr' r (by simp)).le

/-- Aggregators that each say what some readings are, made from the same new one, merge to one
that says what all the readings are. -/
theorem mergeAll_describes {d : Descriptor} {g : Aggregator} (hg : Aggregator.IsNew d g)
    {ps : List (List Reading × Aggregator)} (hne : ps ≠ [])
    (hps : ∀ p ∈ ps, p.2.Describes d p.1 ∧ p.2.cleared d = g)
    (hsum : ∀ qs, qs <+: ps → g.Exact d (total d.numberKind (qs.map Prod.fst).flatten)) :
    ∃ m, Aggregator.mergeAll d (ps.map Prod.snd) = some m ∧
      m.Describes d (ps.map Prod.fst).flatten ∧ m.cleared d = g := by
  induction ps using List.reverseRecOn with
  | nil => exact absurd rfl hne
  | append_singleton ps p ih =>
    obtain ⟨hdesc, hcl⟩ := hps p (by simp)
    rw [List.map_append, List.map_cons, List.map_nil, Aggregator.mergeAll_snoc]
    cases ps with
    | nil => exact ⟨p.2, rfl, by simpa using hdesc, hcl⟩
    | cons q ps =>
      obtain ⟨m, hm, hmdesc, hmcl⟩ := ih (by simp) (fun p hp => hps p (List.mem_append_left _ hp))
        fun qs hq => hsum qs (hq.trans (List.prefix_append ..))
      have hc : m.Compatible p.2 := hg.compatible hmcl hcl
      have hshape := Aggregator.shape_eq_of_cleared (hmcl.trans hcl.symm)
      rw [hm]
      refine ⟨_, rfl, ?_, ?_⟩
      · rw [List.map_append, List.flatten_append]
        simp only [List.map_cons, List.map_nil, List.flatten_cons, List.flatten_nil,
          List.append_nil] at hmdesc ⊢
        refine hmdesc.absorb hdesc hc hshape fun hs => ?_
        rw [Aggregator.hasSum_congr (Aggregator.shape_eq_of_cleared (d := d) (b := g)
          (hmcl.trans hg.cleared.symm))] at hs
        have := hsum _ (List.prefix_refl _) hs
        simpa [total_append, Int.add_assoc] using this
      · rw [Option.elim_some, Aggregator.cleared_absorb, hmcl]

/-! ## What a sweep says -/

/-- The pending series whose labels become those of a key. -/
def joining (r : Relabelling) (k : SeriesKey) (a : Accumulator) : List LiveSeries :=
  (a.series.filter (·.isPending)).filter fun s => r.key s.key = k

/-- What a sweep hands over, with changed labels. -/
def handedOverAs (r : Relabelling) (resource : Resource) (a : Accumulator) : List Accumulation :=
  (a.series.filter (·.isPending)).map fun s => (handOver resource s).relabel r

theorem dataOf_handedOverAs (r : Relabelling) (resource : Resource) (k : SeriesKey) :
    dataOf ⟨k.1, k.2, resource⟩ (handedOverAs r resource a) =
      (joining r k a).map (·.current) := by
  have hseries : ∀ s, ((handOver resource s).relabel r).series = ⟨k.1, k.2, resource⟩ ↔
      r.key s.key = k := by
    intro s
    simp [handOver, Accumulation.relabel, Relabelling.key, LiveSeries.key, Prod.ext_iff]
  rw [dataOf, handedOverAs, joining, List.filter_map, List.map_map]
  simp only [Function.comp_def, hseries]
  rfl

theorem Holds.mem_joining (h : Holds choose us a) {r : Relabelling} {k : SeriesKey} :
    ∀ u ∈ us, u.key ∈ (joining r k a).map (·.key) ↔ r.key u.key = k := by
  intro u hu
  constructor
  · intro hk
    obtain ⟨s, hs, hsk⟩ := List.mem_map.mp hk
    rw [← hsk]
    simpa using (List.mem_filter.mp hs).2
  · intro hk
    have hne : readings u.key us ≠ [] := by
      intro hnil
      rw [readings_eq_filter, List.map_eq_nil_iff, List.filter_eq_nil_iff] at hnil
      exact hnil u hu (by simp)
    cases hs : seek u.key a.series with
    | none => exact absurd (h.absent _ hs) hne
    | some s =>
      have hp : s.isPending = true := (h.present _ s hs).pending.mpr hne
      have hsk := seek_key hs
      have hpending := List.mem_filter.mpr ⟨seek_mem hs, hp⟩
      refine List.mem_map.mpr ⟨s, List.mem_filter.mpr ⟨hpending, ?_⟩, hsk⟩
      simpa [hsk] using hk

def KeepsSum (choose : Descriptor → Option Aggregator) (d : Descriptor) : Prop :=
  ∃ g, choose d = some g ∧ g.sum?.isSome = true

/-- Whether no sum leaves its range: neither that of a series nor that of the series that join,
as they are merged. -/
structure SumsFit (choose : Descriptor → Option Aggregator) (r : Relabelling) (k : SeriesKey)
    (us : List Sample) (a : Accumulator) : Prop where
  series : KeepsSum choose k.1 → ∀ k', r.key k' = k → ∀ rs, rs <+: readings k' us →
    k.1.numberKind.InRange (total k.1.numberKind rs)
  merged : KeepsSum choose k.1 → ∀ ss, ss <+: joining r k a →
    k.1.numberKind.InRange (total k.1.numberKind (ss.map fun s => readings s.key us).flatten)

theorem Contains.describes {k : SeriesKey} {rs : List Reading} {s : LiveSeries}
    (h : Contains choose k rs s) (ht : rs.Pairwise fun r r' => r.stamp.sequence < r'.stamp.sequence)
    (hsum : KeepsSum choose k.1 → ∀ rs', rs' <+: rs →
      k.1.numberKind.InRange (total k.1.numberKind rs')) :
    s.current.Describes k.1 rs := by
  obtain ⟨g, hg, hnew, hint, -, hcur, -⟩ := h.new
  rw [hcur]
  exact gather_describes hnew hint ht fun rs' hp hs => ⟨hint hs, hsum ⟨g, hg, hs⟩ rs' hp⟩

theorem Holds.pairwise_readings (h : Holds choose us a) (k : SeriesKey) :
    (readings k us).Pairwise fun r r' => r.stamp.sequence < r'.stamp.sequence := by
  rw [readings_eq_filter]
  exact List.pairwise_map.mpr (h.ordered.sublist List.filter_sublist)

theorem Holds.of_mem_joining (h : Holds choose us a) {r : Relabelling} {k : SeriesKey}
    {s : LiveSeries} (hs : s ∈ joining r k a) :
    r.key s.key = k ∧ s.key.1 = k.1 ∧ Contains choose s.key (readings s.key us) s ∧
      readings s.key us ≠ [] := by
  obtain ⟨hs, hk⟩ := List.mem_filter.mp hs
  obtain ⟨hs, hp⟩ := List.mem_filter.mp hs
  have hk : r.key s.key = k := by simpa using hk
  have hcont := h.present _ s (seek_of_mem h.distinct hs)
  exact ⟨hk, hk ▸ rfl, hcont, hcont.pending.mp hp⟩

/-- What a sweep hands over for a key merges to an aggregator that says what the readings with
the changed labels are, made from the instrument's new one. -/
theorem Holds.merged_handedOverAs (h : Holds choose us a) {r : Relabelling} {k : SeriesKey}
    (hfit : SumsFit choose r k us a) (resource : Resource) :
    let rs := readings k (us.map (Sample.relabel r))
    let m? := merged ⟨k.1, k.2, resource⟩ (handedOverAs r resource a)
    (rs = [] ∧ m? = none) ∨
    (rs ≠ [] ∧ ∃ g m, choose k.1 = some g ∧ m? = some m ∧ m.Describes k.1 rs ∧
      m.cleared k.1 = g ∧ (m.sum?.isSome = true → k.1.numberKind.IsInteger)) := by
  intro rs m?
  have hm? : m? = Aggregator.mergeAll k.1 ((joining r k a).map (·.current)) :=
    congrArg (Aggregator.mergeAll k.1) (dataOf_handedOverAs r resource k)
  have hnodup : ((joining r k a).map (·.key)).Nodup :=
    distinct_filter (distinct_filter h.distinct _) _
  have hperm : ((joining r k a).map fun s => readings s.key us).flatten.Perm rs := by
    have hp := perm_readings hnodup h.mem_joining
    rwa [List.map_map] at hp
  cases hj : joining r k a with
  | nil =>
    rw [hj] at hm? hperm
    exact .inl ⟨hperm.symm.eq_nil, hm?⟩
  | cons s ss =>
    obtain ⟨-, hd, hcont, hne⟩ := h.of_mem_joining (r := r) (k := k) (s := s) (by simp [hj])
    obtain ⟨g, hg, hnew, hint, -⟩ := hcont.new
    rw [hd] at hg hnew hint
    have hps : ∀ p ∈ (joining r k a).map fun s => (readings s.key us, s.current),
        p.2.Describes k.1 p.1 ∧ p.2.cleared k.1 = g := by
      intro p hp
      obtain ⟨t, ht, rfl⟩ := List.mem_map.mp hp
      obtain ⟨hk, hd, hcont, -⟩ := h.of_mem_joining ht
      have hdesc := hcont.describes (h.pairwise_readings _)
        (by rw [hd]; exact fun hs => hfit.series hs t.key hk)
      obtain ⟨g', hg', -, -, -, -, hcl⟩ := hcont.new
      rw [hd] at hdesc hg' hcl
      obtain rfl : g = g' := Option.some.inj (hg.symm.trans hg')
      exact ⟨hdesc, hcl⟩
    have hsum : ∀ qs, qs <+: ((joining r k a).map fun s => (readings s.key us, s.current)) →
        g.Exact k.1 (total k.1.numberKind (qs.map Prod.fst).flatten) := by
      intro qs hq hs
      obtain ⟨ts, hts, rfl⟩ := List.prefix_map_iff.mp hq
      rw [List.map_map]
      exact ⟨hint hs, hfit.merged ⟨g, hg, hs⟩ ts hts⟩
    obtain ⟨m, hm, hdesc, hcl⟩ := mergeAll_describes hnew (by simp [hj]) hps hsum
    rw [List.map_map] at hm hdesc
    have hshape := Aggregator.shape_eq_of_cleared (d := k.1) (hcl.trans hnew.cleared.symm)
    refine .inr ⟨fun hnil => ?_, g, m, hg, hm?.trans hm, hdesc.perm hperm, hcl, fun hs => ?_⟩
    · rw [hnil, hj] at hperm
      have hnone := hperm.eq_nil
      simp only [List.map_cons, List.flatten_cons, List.append_eq_nil_iff] at hnone
      exact hne hnone.1
    · rw [Aggregator.hasSum_congr hshape] at hs
      exact hint hs

/-! ## What can be merged -/

/-- Whether the aggregator of an accumulation was made from the instrument's new one. -/
def Made (choose : Descriptor → Option Aggregator) (acc : Accumulation) : Prop :=
  ∃ g, choose acc.series.descriptor = some g ∧ Aggregator.IsNew acc.series.descriptor g ∧
    acc.aggregator.cleared acc.series.descriptor = g

theorem consistent_of_made {accs : List Accumulation} (h : ∀ acc ∈ accs, Made choose acc) :
    Consistent accs := by
  intro x hx y hy hxy
  obtain ⟨g, hg, hnew, hcl⟩ := h x hx
  obtain ⟨g', hg', -, hcl'⟩ := h y hy
  rw [← hxy] at hg' hcl'
  obtain rfl : g = g' := Option.some.inj (hg.symm.trans hg')
  exact hnew.compatible hcl hcl'

theorem Holds.made_handedOverAs (h : Holds choose us a) (r : Relabelling) (resource : Resource) :
    ∀ acc ∈ handedOverAs r resource a, Made choose acc := by
  intro acc hacc
  obtain ⟨s, hs, rfl⟩ := List.mem_map.mp hacc
  have hcont := h.present _ s (seek_of_mem h.distinct (List.mem_filter.mp hs).1)
  obtain ⟨g, hg, hnew, -, -, -, hcl⟩ := hcont.new
  exact ⟨g, hg, hnew, hcl⟩

end Metering.Accumulator
