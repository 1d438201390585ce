import Metering.Proofs.Processor.Order

/-!
# The order of the entries

A processor goes through its entries in an arbitrary order, which may be another one at every call.
Where no entry fails at the end of a collection, no reply depends on it, but for the order of
records of instruments with one name.
-/

namespace Metering

open Std (OrientedCmp)
open Record (Distinguished Ordered)

theorem Record.Ordered.eq_of_perm {rs rs' : List Record} (h : Ordered rs) (h' : Ordered rs')
    (hp : rs'.Perm rs) (hd : Distinguished rs) : rs' = rs := by
  have hsorted := h.strict_iff.mpr hd
  have hsorted' := h'.strict_iff.mpr (hd.congr (hp.map _))
  refine hp.eq_of_pairwise (fun r r' _ _ hlt hgt => ?_) hsorted' hsorted
  rw [compareKeys_eq] at hlt hgt
  exact absurd hgt (OrientedCmp.not_lt_of_lt hlt)

/-- Whether checkpoint sets have the same interval and records. The records are in the same order
unless some of them are of instruments with one name. -/
structure CheckpointSet.Same (s t : CheckpointSet) : Prop where
  start : t.start = s.start
  stop : t.stop = s.stop
  perm : t.records.Perm s.records
  eq : Distinguished s.records → t.records = s.records

theorem CheckpointSet.Same.refl (s : CheckpointSet) : s.Same s :=
  ⟨rfl, rfl, .refl _, fun _ => rfl⟩

namespace Processor

variable {select : TemporalitySelector} {created now : Time} {p q : Processor} {c : Int}
  {es es' : List Entry}

/-- Whether an entry failed at the end of a collection. -/
def Reply.Fails : Reply → Prop
  | .finished (.error cause) => cause ≠ .inconsistentState
  | _ => False

def Reply.Same : Reply → Reply → Prop
  | .finished (.ok s), .finished (.ok t) => s.Same t
  | reply, reply' => reply = reply'

theorem Reply.Same.refl (reply : Reply) : reply.Same reply := by
  cases reply with
  | finished result =>
    cases result with
    | ok set => exact CheckpointSet.Same.refl set
    | error cause => rfl
  | _ => rfl

/-! ## Accumulations -/

/-- Whether two attempts to change the entries end alike, but for their order. -/
def Permuted : Except MetricsError (List Entry) → Except MetricsError (List Entry) → Prop
  | .ok es, .ok es' => es'.Perm es
  | .error cause, .error cause' => cause = cause'
  | _, _ => False

theorem Permuted.trans {x y z : Except MetricsError (List Entry)} (h : Permuted x y)
    (h' : Permuted y z) : Permuted x z := by
  cases x <;> cases y <;> cases z <;>
    first | exact h.elim | exact h'.elim | exact Eq.trans h h' | exact List.Perm.trans h' h

theorem Permuted.map {x y : Except MetricsError (List Entry)} (h : Permuted x y)
    {f : List Entry → List Entry} (hf : ∀ es es', es'.Perm es → (f es').Perm (f es)) :
    Permuted (f <$> x) (f <$> y) := by
  cases x <;> cases y <;> first | exact h.elim | exact hf _ _ h | exact h

theorem permuted_map {α : Type} (x : Except MetricsError α) {f g : α → List Entry}
    (h : ∀ a, (g a).Perm (f a)) : Permuted (f <$> x) (g <$> x) := by
  cases x with
  | ok a => exact h a
  | error cause => rfl

theorem insert_cons (acc : Accumulation) (e : Entry) (es : List Entry) :
    insert select c acc (e :: es) =
      if e.series = acc.series then (· :: es) <$> receive c acc e
      else (e :: ·) <$> insert select c acc es := by
  rw [insert]
  split
  · cases receive c acc e <;> rfl
  · cases insert select c acc es <;> rfl

/-- Among entries of different series there is one place for an accumulation. -/
theorem insert_permuted (select : TemporalitySelector) (c : Int) (acc : Accumulation)
    (hp : es'.Perm es) (hn : (es.map (·.series)).Nodup) :
    Permuted (insert select c acc es) (insert select c acc es') := by
  induction hp with
  | nil => exact .refl _
  | @cons e xs' xs hp ih =>
    rw [insert_cons, insert_cons]
    split
    · exact permuted_map _ fun _ => hp.cons _
    · exact (ih (List.nodup_cons.mp hn).2).map fun _ _ h => h.cons e
  | swap a b xs =>
    -- at most one of the two entries is that of the accumulation
    have hne : b.series ≠ a.series := fun h => by simp [h] at hn
    simp only [insert_cons]
    by_cases ha : a.series = acc.series
    · have hb : b.series ≠ acc.series := ha ▸ hne
      simp only [if_pos ha, if_neg hb]
      cases receive c acc a with
      | ok e => exact .swap ..
      | error cause => rfl
    · simp only [if_neg ha]
      split
      · cases receive c acc b with
        | ok e => exact .swap ..
        | error cause => rfl
      · cases insert select c acc xs with
        | ok es => exact .swap ..
        | error cause => rfl
  | trans hp hp' ih ih' => exact (ih' hn).trans (ih ((hp'.map _).nodup_iff.mpr hn))

/-! ## Calls -/

/-- Whether a processor differs from another one in the order of its entries alone. -/
def Reorders (p q : Processor) : Prop := ∃ es, es.Perm p.entries ∧ q = { p with entries := es }

theorem Reorders.refl (p : Processor) : Reorders p p := ⟨p.entries, .refl _, rfl⟩

theorem Reorders.symm (h : Reorders p q) : Reorders q p := by
  obtain ⟨es, hp, rfl⟩ := h
  exact ⟨p.entries, hp.symm, rfl⟩

theorem Reorders.trans {r : Processor} (h : Reorders p q) (h' : Reorders q r) : Reorders p r := by
  obtain ⟨es, hp, rfl⟩ := h
  obtain ⟨es', hp', rfl⟩ := h'
  exact ⟨es', hp'.trans hp, rfl⟩

theorem Reorders.offer (select : TemporalitySelector) (hn : (p.entries.map (·.series)).Nodup)
    (h : Reorders p q) (acc : Accumulation) :
    (p.offer select acc).2 = (q.offer select acc).2 ∧
      Reorders (p.offer select acc).1 (q.offer select acc).1 := by
  obtain ⟨es, hp, rfl⟩ := h
  cases hc : p.isCollecting with
  | false =>
    rw [offer_of_not_collecting hc, offer_of_not_collecting (p := { p with entries := es }) hc]
    exact ⟨rfl, es, hp, rfl⟩
  | true =>
    have hc' : ({ p with entries := es } : Processor).isCollecting = true := hc
    have hinsert := insert_permuted select p.finished acc hp hn
    cases hi : insert select p.finished acc p.entries <;>
      cases hi' : insert select p.finished acc es <;> rw [hi, hi'] at hinsert
    · obtain rfl := hinsert
      rw [offer_of_insert_error hc hi, offer_of_insert_error hc' hi']
      exact ⟨rfl, es, hp, rfl⟩
    · exact hinsert.elim
    · exact hinsert.elim
    · rw [offer_of_insert_ok hc hi, offer_of_insert_ok hc' hi']
      exact ⟨rfl, _, hinsert, rfl⟩

theorem finished_error (hc : p.isCollecting = true) {cause : MetricsError}
    (h : (p.finishCollection now).2 = .error cause) : cause ≠ .inconsistentState := by
  cases hs : (settleAll p.finished p.entries).2 with
  | ok _ =>
    rw [finishCollection_of_ok now hc hs] at h
    cases h
  | error cause' =>
    rw [finishCollection_of_error now hc hs] at h
    obtain rfl := Except.error.inj h
    exact settleAll_error hs

/-- Where no entry fails, each of them is settled by itself. -/
theorem Reorders.finish (ho : Orderly p) (h : Reorders p q) (now : Time)
    (hok : ¬(Reply.finished (p.finishCollection now).2).Fails) :
    (Reply.finished (p.finishCollection now).2).Same (.finished (q.finishCollection now).2) ∧
      Reorders (p.finishCollection now).1 (q.finishCollection now).1 := by
  obtain ⟨es, hp, rfl⟩ := h
  cases hc : p.isCollecting with
  | false =>
    rw [finishCollection_of_not_collecting now hc,
      finishCollection_of_not_collecting (p := { p with entries := es }) now hc]
    exact ⟨.refl _, es, hp, rfl⟩
  | true =>
    cases hset : (p.finishCollection now).2 with
    | error cause => exact absurd (finished_error hc hset) (by rwa [hset] at hok)
    | ok set =>
      obtain ⟨-, hsettle⟩ := finished_ok hset
      obtain ⟨set', hset', hperm⟩ := finishCollection_reordered hset hp
      have hordered := ho.finished_ordered hset
      have hordered' := (ho.reordered hp).finished_ordered hset'
      have hfinish := finishCollection_eq hc hsettle now
      have hfinish' := finishCollection_eq (p := { p with entries := es }) hc
        (fun e he => hsettle e (hp.mem_iff.mp he)) now
      have htimes : set'.start = set.start ∧ set'.stop = set.stop := by
        rw [hfinish] at hset
        rw [hfinish'] at hset'
        rw [← Except.ok.inj hset, ← Except.ok.inj hset']
        exact ⟨rfl, rfl⟩
      rw [hset']
      refine ⟨⟨htimes.1, htimes.2, hperm, hordered.eq_of_perm hordered' hperm⟩, ?_⟩
      rw [hfinish, hfinish']
      exact ⟨_, hp.filterMap _, rfl⟩

theorem Reorders.call (ho : Orderly p) (h : Reorders p q) (c : Call)
    (hok : ¬(call select c p).2.Fails) :
    (call select c p).2.Same (call select c q).2 ∧
      Reorders (call select c p).1 (call select c q).1 := by
  cases c with
  | start =>
    obtain ⟨es, hp, rfl⟩ := h
    exact ⟨rfl, es, hp, rfl⟩
  | process acc =>
    obtain ⟨hreply, hnext⟩ := h.offer select ho.distinct acc
    exact ⟨congrArg Reply.processed hreply, hnext⟩
  | abort =>
    obtain ⟨es, hp, rfl⟩ := h
    exact ⟨rfl, _, hp.filterMap _, rfl⟩
  | finish now => exact h.finish ho now hok

theorem Orderly.call (h : Orderly p) (c : Call) : Orderly (call select c p).1 := by
  cases c with
  | start => exact ⟨h.distinct, h.sound⟩
  | process acc => exact h.offer acc
  | abort => exact h.abort
  | finish now => exact h.finish now

theorem Reorders.orderly (h : Reorders p q) (ho : Orderly p) : Orderly q := by
  obtain ⟨es, hp, rfl⟩ := h
  exact ho.reordered hp

/-! ## Runs -/

/-- A processor after calls with their replies. In which order it goes through its entries is open
at any time. -/
inductive Runs (select : TemporalitySelector) (created : Time) :
    List (Call × Reply) → Processor → Prop
  | new : Runs select created [] (new created)
  | call {past : List (Call × Reply)} {p : Processor} (h : Runs select created past p) (c : Call) :
      Runs select created (past ++ [(c, (Processor.call select c p).2)])
        (Processor.call select c p).1
  | reordered {past : List (Call × Reply)} {p : Processor} {entries : List Entry}
      (h : Runs select created past p) (hp : entries.Perm p.entries) :
      Runs select created past { p with entries }

theorem Runs.run {past : List (Call × Reply)} (h : Runs select created past p) (calls : List Call) :
    Runs select created (past ++ calls.zip (Processor.run select calls p).2)
      (Processor.run select calls p).1 := by
  induction calls generalizing past p with
  | nil => simpa using h
  | cons c calls ih =>
    have htail := ih (h.call c)
    rw [List.append_assoc] at htail
    exact htail

theorem Runs.reachable {past : List (Call × Reply)} (h : Runs select created past p) :
    Reachable select p := by
  induction h with
  | new => exact .new created
  | call _ c ih => exact ih.call c
  | reordered _ hp ih => exact ih.reordered hp

/-- A call of a run with its reply, and the order in which the processor goes through its entries
at it, by their series. -/
structure Visit where
  order : List SeriesId
  call : Call
  reply : Reply

/-- A run from one processor to another. Each call may find the entries in another order. -/
inductive Leads (select : TemporalitySelector) : Processor → List Visit → Processor → Prop
  | done {p q : Processor} (h : Reorders p q) : Leads select p [] q
  | call {p p' q : Processor} {visits : List Visit} (h : Reorders p p') (c : Call)
      (hnext : Leads select (Processor.call select c p').1 visits q) :
      Leads select p
        (⟨p'.entries.map (·.series), c, (Processor.call select c p').2⟩ :: visits) q

theorem leads_run (select : TemporalitySelector) (calls : List Call) (p : Processor) :
    ∃ visits, Leads select p visits (run select calls p).1 ∧ visits.map (·.call) = calls ∧
      visits.map (·.reply) = (run select calls p).2 := by
  induction calls generalizing p with
  | nil => exact ⟨[], .done (.refl p), rfl, rfl⟩
  | cons c calls ih =>
    obtain ⟨visits, hleads, hcalls, hreplies⟩ := ih (call select c p).1
    exact ⟨_, .call (.refl p) c hleads, congrArg (c :: ·) hcalls, congrArg (_ :: ·) hreplies⟩

theorem Leads.reordered {visits : List Visit} {q' : Processor} (h : Leads select p visits q)
    (hq : Reorders q q') : Leads select p visits q' := by
  induction h with
  | done h => exact .done (h.trans hq)
  | call h c _ ih => exact .call h c (ih hq)

theorem Leads.orderly {visits : List Visit} (h : Leads select p visits q) (ho : Orderly p) :
    Orderly q := by
  induction h with
  | done h => exact h.orderly ho
  | call h c _ ih => exact ih ((h.orderly ho).call c)

theorem Leads.not_fails {visits : List Visit} (h : Leads select p visits q)
    (hcalls : ∀ visit ∈ visits, ∀ now, visit.call ≠ .finish now) :
    ∀ visit ∈ visits, ¬visit.reply.Fails := by
  induction h with
  | done h => simp
  | call h c _ ih =>
    obtain ⟨hfirst, hrest⟩ := List.forall_mem_cons.mp hcalls
    refine List.forall_mem_cons.mpr ⟨?_, ih hrest⟩
    cases c with
    | finish now => exact absurd rfl (hfirst now)
    | _ => exact id

/-- A run in which no entry fails leads, but for the order of the entries, to where it leads when
that order is left alone. -/
theorem Leads.reorders {visits : List Visit} {p' : Processor} (h : Leads select p' visits q)
    (ho : Orderly p) (hp : Reorders p p') (hok : ∀ visit ∈ visits, ¬visit.reply.Fails) :
    Reorders (run select (visits.map (·.call)) p).1 q := by
  induction h generalizing p with
  | done h => exact hp.trans h
  | call h c hnext ih =>
    obtain ⟨hfirst, hrest⟩ := List.forall_mem_cons.mp hok
    have hp' := hp.trans h
    obtain ⟨-, hcall⟩ := hp'.symm.call (hp'.orderly ho) c hfirst
    exact ih (ho.call c) hcall.symm hrest

end Processor
end Metering
