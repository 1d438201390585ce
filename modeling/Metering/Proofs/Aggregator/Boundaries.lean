import Mathlib.Data.List.Perm.Basic
import Metering.Aggregator.Histogram

/-!
# The boundaries of a histogram

Boundaries are sorted by the total order of doubles, which separates the zeros, and repetitions are
found by numeric equality, which does not. What is left increases strictly as numbers. So the
boundaries that do not exceed a value stand in front, and their number, which is the bucket of the
value, is the same for a search by halves as for one in order.
-/

namespace Metering

namespace Binary64

variable {x y : Binary64}

theorem numericEq_iff (hx : x.isNaN = false) (hy : y.isNaN = false) :
    x.numericEq y = true ↔ x.rank = y.rank := by
  simp [numericEq, hx, hy]

theorem le_iff (hx : x.isNaN = false) (hy : y.isNaN = false) :
    x.le y = true ↔ x.rank ≤ y.rank := by
  simp [le, hx, hy]

theorem lt_iff (hx : x.isNaN = false) (hy : y.isNaN = false) :
    x.compare? y = some .lt ↔ x.rank < y.rank := by
  simp [compare?, hx, hy, Int.compare_eq_lt]

theorem rank_le_of_totalRank_le (h : x.totalRank ≤ y.totalRank) : x.rank ≤ y.rank := by
  unfold totalRank at h
  unfold rank
  split at h <;> split at h <;> simp_all
  omega

end Binary64

namespace Boundaries

/-- Numbers in strictly increasing order. -/
structure Increasing (bs : List Binary64) : Prop where
  numbers : ∀ b ∈ bs, b.isNaN = false
  strict : bs.Pairwise fun b c => b.compare? c = some .lt

/-! ## Sorting -/

theorem perm_insert (b : Binary64) (bs : List Binary64) : (insert b bs).Perm (b :: bs) := by
  induction bs with
  | nil => exact .refl _
  | cons c cs ih =>
    rw [insert]
    split
    · exact .refl _
    · exact (ih.cons c).trans (.swap b c cs)

theorem sorted_insert (b : Binary64) {bs : List Binary64}
    (h : bs.Pairwise (·.totalRank ≤ ·.totalRank)) :
    (insert b bs).Pairwise (·.totalRank ≤ ·.totalRank) := by
  induction bs with
  | nil => exact List.pairwise_singleton _ b
  | cons c cs ih =>
    have ⟨hc, hcs⟩ := List.pairwise_cons.mp h
    rw [insert]
    split
    next hlt =>
      apply List.Pairwise.cons _ h
      intro e he
      rcases List.mem_cons.mp he with rfl | he
      · exact Int.le_of_lt hlt
      · exact Int.le_trans (Int.le_of_lt hlt) (hc e he)
    next hge =>
      apply List.Pairwise.cons _ (ih hcs)
      intro e he
      rcases List.mem_cons.mp ((perm_insert b cs).mem_iff.mp he) with rfl | he
      · omega
      · exact hc e he

/-- The numbers of a list, sorted. -/
def sorted (bs : List Binary64) : List Binary64 :=
  (bs.filter (!·.isNaN)).foldl (fun acc b => insert b acc) []

theorem mem_sorted {b : Binary64} {bs : List Binary64} :
    b ∈ sorted bs ↔ b ∈ bs ∧ b.isNaN = false := by
  have hperm : ∀ bs acc : List Binary64,
      (bs.foldl (fun acc b => insert b acc) acc).Perm (bs ++ acc) := by
    intro bs
    induction bs with
    | nil => exact fun acc => .refl acc
    | cons b bs ih =>
      intro acc
      exact (ih (insert b acc)).trans (((perm_insert b acc).append_left bs).trans List.perm_middle)
  rw [sorted, (hperm _ []).mem_iff, List.append_nil]
  simp

theorem pairwise_sorted (bs : List Binary64) : (sorted bs).Pairwise (·.rank ≤ ·.rank) := by
  have hfold : ∀ bs acc : List Binary64, acc.Pairwise (·.totalRank ≤ ·.totalRank) →
      (bs.foldl (fun acc b => insert b acc) acc).Pairwise (·.totalRank ≤ ·.totalRank) := by
    intro bs
    induction bs with
    | nil => exact fun acc h => h
    | cons b bs ih => exact fun acc h => ih _ (sorted_insert b h)
  exact (hfold _ [] .nil).imp Binary64.rank_le_of_totalRank_le

/-! ## Dropping repetitions -/

theorem sublist_distinctFrom (last : Binary64) (bs : List Binary64) :
    (distinct.distinctFrom last bs).Sublist bs := by
  fun_induction distinct.distinctFrom last bs with
  | case1 last => exact .slnil
  | case2 last b bs _ ih => exact ih.cons b
  | case3 last b bs _ ih => exact ih.cons_cons b

theorem sublist_distinct (bs : List Binary64) : (distinct bs).Sublist bs := by
  cases bs with
  | nil => exact .slnil
  | cons b bs => exact (sublist_distinctFrom b bs).cons_cons b

/-- Each repetition stands right behind what it repeats, so that the rest increases strictly. -/
theorem strict_distinctFrom {last : Binary64} {bs : List Binary64}
    (hn : ∀ b ∈ last :: bs, b.isNaN = false) (h : (last :: bs).Pairwise (·.rank ≤ ·.rank)) :
    (last :: distinct.distinctFrom last bs).Pairwise (·.rank < ·.rank) := by
  fun_induction distinct.distinctFrom last bs with
  | case1 last => exact List.pairwise_singleton _ last
  | case2 last b bs heq ih =>
    apply ih
    · exact fun c hc => hn c (by grind)
    · exact h.sublist ((List.sublist_cons_self b bs).cons_cons last)
  | case3 last b bs hne ih =>
    have ⟨hlast, hbs⟩ := List.pairwise_cons.mp h
    have hrest := ih (fun c hc => hn c (List.mem_cons_of_mem last hc)) hbs
    have hlt : last.rank < b.rank := by
      have hle := hlast b List.mem_cons_self
      rw [Binary64.numericEq_iff (hn last (by simp)) (hn b (by simp))] at hne
      omega
    apply List.Pairwise.cons _ hrest
    intro c hc
    rcases List.mem_cons.mp hc with rfl | hc
    · exact hlt
    · exact Int.lt_trans hlt ((List.pairwise_cons.mp hrest).1 c hc)

theorem exists_mem_distinctFrom {last : Binary64} {bs : List Binary64}
    (hn : ∀ b ∈ last :: bs, b.isNaN = false) {b : Binary64} (hb : b ∈ last :: bs) :
    ∃ c ∈ last :: distinct.distinctFrom last bs, c.rank = b.rank := by
  fun_induction distinct.distinctFrom last bs with
  | case1 last => exact ⟨b, hb, rfl⟩
  | case2 last c bs heq ih =>
    rw [Binary64.numericEq_iff (hn last (by simp)) (hn c (by simp))] at heq
    have hn' : ∀ e ∈ last :: bs, e.isNaN = false := fun e he => hn e (by grind)
    by_cases hbc : b = c
    · exact ⟨last, by simp, by rw [heq, hbc]⟩
    · exact ih hn' (by grind)
  | case3 last c bs _ ih =>
    rcases List.mem_cons.mp hb with rfl | hb
    · exact ⟨b, by simp, rfl⟩
    · obtain ⟨e, he, hrank⟩ := ih (fun e he => hn e (List.mem_cons_of_mem last he)) hb
      exact ⟨e, List.mem_cons_of_mem last he, hrank⟩

/-! ## The boundaries that a list gives -/

theorem mem_of_mem_ofList {b : Binary64} {bs : List Binary64} (h : b ∈ ofList bs) :
    b ∈ bs ∧ b.isNaN = false :=
  mem_sorted.mp ((sublist_distinct (sorted bs)).subset h)

theorem increasing_ofList (bs : List Binary64) : Increasing (ofList bs) := by
  have hn : ∀ b ∈ ofList bs, b.isNaN = false := fun b hb => (mem_of_mem_ofList hb).2
  have hstrict : (ofList bs).Pairwise (·.rank < ·.rank) := by
    have hsorted := pairwise_sorted bs
    have hnumbers : ∀ b ∈ sorted bs, b.isNaN = false := fun b hb => (mem_sorted.mp hb).2
    change (distinct (sorted bs)).Pairwise (·.rank < ·.rank)
    cases hbs : sorted bs with
    | nil => exact .nil
    | cons b rest =>
      rw [hbs] at hsorted hnumbers
      exact strict_distinctFrom hnumbers hsorted
  refine ⟨hn, hstrict.imp_of_mem ?_⟩
  intro b c hb hc hlt
  exact (Binary64.lt_iff (hn b hb) (hn c hc)).mpr hlt

theorem exists_mem_ofList {b : Binary64} {bs : List Binary64} (hb : b ∈ bs)
    (hn : b.isNaN = false) : ∃ c ∈ ofList bs, c.numericEq b = true := by
  have hsorted : b ∈ sorted bs := mem_sorted.mpr ⟨hb, hn⟩
  have hnumbers : ∀ b ∈ sorted bs, b.isNaN = false := fun b hb => (mem_sorted.mp hb).2
  have hexists : ∃ c ∈ distinct (sorted bs), c.rank = b.rank := by
    cases hbs : sorted bs with
    | nil => simp [hbs] at hsorted
    | cons c rest =>
      rw [hbs] at hsorted hnumbers
      exact exists_mem_distinctFrom hnumbers hsorted
  obtain ⟨c, hc, hrank⟩ := hexists
  exact ⟨c, hc, (Binary64.numericEq_iff (mem_of_mem_ofList hc).2 hn).mpr hrank⟩

/-! ## Buckets -/

variable {bs : List Binary64} {v : Binary64}

theorem bucket_le_length (bs : List Binary64) (v : Binary64) : bucket bs v ≤ bs.length :=
  (List.takeWhile_sublist _).length_le

/-- The boundaries in front of a value's bucket are those that do not exceed the value. -/
theorem Increasing.lt_bucket_iff (h : Increasing bs) {j : Nat} {b : Binary64}
    (hb : bs[j]? = some b) : j < bucket bs v ↔ b.le v = true := by
  induction bs generalizing j with
  | nil => simp at hb
  | cons c cs ih =>
    have hcs : Increasing cs :=
      ⟨fun e he => h.numbers e (List.mem_cons_of_mem c he), List.Pairwise.of_cons h.strict⟩
    rw [bucket, List.takeWhile_cons]
    by_cases hc : c.le v = true
    · cases j with
      | zero =>
        obtain rfl : c = b := by simpa using hb
        simp [hc]
      | succ j =>
        have hrest := ih hcs (j := j) (by simpa using hb)
        rw [bucket] at hrest
        simp [hc, hrest]
    · -- A boundary behind one that exceeds the value exceeds it, too.
      have hb' : b.le v ≠ true := by
        intro hle
        cases j with
        | zero =>
          obtain rfl : c = b := by simpa using hb
          exact hc hle
        | succ j =>
          have hmem : b ∈ cs := List.mem_of_getElem? (by simpa using hb)
          have hlt := (List.pairwise_cons.mp h.strict).1 b hmem
          have hcn := h.numbers c (by simp)
          have hbn := hcs.numbers b hmem
          have hvn : v.isNaN = false := by
            simp only [Binary64.le, Bool.and_eq_true, Bool.not_eq_true'] at hle
            exact hle.1.2
          rw [Binary64.lt_iff hcn hbn] at hlt
          rw [Binary64.le_iff hbn hvn] at hle
          rw [Binary64.le_iff hcn hvn] at hc
          omega
      simp [hc, hb']

/-- Whether a value is in a bucket: not below the bucket's lower boundary, and below the upper one,
of which the first and the last bucket have one each. -/
def spans (bs : List Binary64) (i : Nat) (v : Binary64) : Bool :=
  (i == 0 || bs[i - 1]?.all (·.le v)) && bs[i]?.all fun b => v.compare? b = some .lt

theorem Increasing.bucket_eq_iff (h : Increasing bs) (hv : v.isNaN = false) {i : Nat}
    (hi : i ≤ bs.length) : bucket bs v = i ↔ spans bs i v = true := by
  have hlower : (i == 0 || bs[i - 1]?.all (·.le v)) = true ↔ i ≤ bucket bs v := by
    cases i with
    | zero => simp
    | succ j =>
      have hb : bs[j]? = some bs[j] := List.getElem?_eq_getElem hi
      have hpartition := h.lt_bucket_iff (v := v) hb
      simp only [Nat.add_one_sub_one, hb, Option.all_some]
      simpa [Nat.succ_le_iff] using hpartition.symm
  have hupper : (bs[i]?.all fun b => v.compare? b = some .lt) = true ↔ bucket bs v ≤ i := by
    rcases Nat.lt_or_eq_of_le hi with hi | rfl
    · have hb : bs[i]? = some bs[i] := List.getElem?_eq_getElem hi
      have hpartition := h.lt_bucket_iff (v := v) hb
      have hbn := h.numbers bs[i] (List.getElem_mem hi)
      rw [Binary64.le_iff hbn hv] at hpartition
      simp only [hb, Option.all_some, decide_eq_true_eq]
      rw [Binary64.lt_iff hv hbn]
      omega
    · simp [bucket_le_length]
  rw [spans, Bool.and_eq_true, hlower, hupper]
  omega

/-! ## Boundaries that agree -/

/-- Boundaries agree if they are the same numbers, one by one. -/
theorem agree_iff {bs cs : List Binary64} :
    agree bs cs = true ↔ List.Forall₂ (fun b c => b.numericEq c = true) bs cs := by
  fun_induction agree bs cs with
  | case1 => simp
  | case2 b bs c cs ih => simp [ih]
  | case3 bs cs hnil hcons =>
    refine ⟨fun h => (Bool.false_ne_true h).elim, fun h => ?_⟩
    cases h with
    | nil => exact (hnil rfl rfl).elim
    | cons _ _ => exact (hcons _ _ _ _ rfl rfl).elim

theorem agree_self {bs : List Binary64} (h : ∀ b ∈ bs, b.isNaN = false) :
    agree bs bs = true := by
  induction bs with
  | nil => rfl
  | cons b bs ih =>
    obtain ⟨hb, hbs⟩ := List.forall_mem_cons.mp h
    simp [agree, Binary64.numericEq, hb, ih hbs]

theorem bucket_congr {bs cs : List Binary64} (h : agree bs cs = true) (x : Binary64) :
    bucket bs x = bucket cs x := by
  fun_induction agree bs cs with
  | case1 => rfl
  | case2 b bs c cs ih =>
    rw [Bool.and_eq_true] at h
    obtain ⟨heq, hrest⟩ := h
    have hle : b.le x = c.le x := by
      simp only [Binary64.numericEq, Bool.and_eq_true, Bool.not_eq_true', decide_eq_true_eq] at heq
      simp [Binary64.le, heq]
    specialize ih hrest
    simp only [bucket, List.takeWhile_cons, hle] at ih ⊢
    split <;> simp [ih]
  | case3 => cases h

theorem length_eq_of_agree {bs cs : List Binary64} (h : agree bs cs = true) :
    bs.length = cs.length := by
  fun_induction agree bs cs with
  | case1 => rfl
  | case2 b bs c cs ih => simp [ih (Bool.and_eq_true_iff.mp h).2]
  | case3 => cases h

end Boundaries
end Metering
