import Metering.Proofs.Processor.Reordering
import Metering.Proofs.Processor.Similar

/-!
# Aborted collections

An aborted collection leaves the data of older entries overwritten and the numbers of their last
collections changed, and no entry of its own. Later calls answer as if there had been none, if they
go through the entries in the same orders.
-/

namespace Metering.Processor

variable {select : TemporalitySelector}

/-! ## Entries that a run reaches -/

/-- No entry is ahead of the collections, and only those that the current collection made are
fresh. -/
structure Steady (p : Processor) : Prop where
  finished_le : p.finished ≤ p.started
  entries : ∀ e ∈ p.entries, e.updated ≤ p.finished ∧
    (e.updated = p.finished → p.finished < p.started) ∧
    (e.isFresh = true → e.updated = p.finished)

theorem steady_new (created : Time) : Steady (new created) := ⟨le_refl 0, by simp [new]⟩

theorem Steady.offer {p : Processor} (h : Steady p) (acc : Accumulation) :
    Steady (p.offer select acc).1 := by
  obtain hsame | ⟨entries, hc, hi, hoffer⟩ := offer_cases select acc p
  · rw [hsame]
    exact h
  · have hopen : p.finished < p.started := by
      have : p.started = p.finished + 1 := by simpa [Processor.isCollecting] using hc
      omega
    rw [hoffer]
    refine ⟨h.finished_le, insert_forall hi ?_ ?_ h.entries⟩
    · exact ⟨le_refl _, fun _ => hopen, fun _ => rfl⟩
    · intro e e' _ _ hr
      rw [receive_fields hr]
      exact ⟨le_refl _, fun _ => hopen, fun _ => rfl⟩

theorem Steady.abort {p : Processor} (h : Steady p) : Steady p.abortCollection := by
  refine ⟨le_refl _, fun e' he' => ?_⟩
  obtain ⟨e, he, hr⟩ := List.mem_filterMap.mp he'
  obtain ⟨hle, -, hfresh⟩ := h.entries e he
  rw [retract] at hr
  split at hr
  next hu =>
    split at hr
    · cases hr
    next hf =>
      obtain rfl := Option.some.inj hr
      show p.finished - 1 ≤ p.finished ∧ (p.finished - 1 = p.finished → p.finished < p.finished) ∧
        (e.isFresh = true → _)
      exact ⟨by omega, by omega, fun hx => absurd hx hf⟩
  next hu =>
    obtain rfl := Option.some.inj hr
    exact ⟨hle, fun hx => absurd hx hu, hfresh⟩

theorem Steady.finish {p : Processor} (h : Steady p) (now : Time)
    (hok : ¬(Reply.finished (p.finishCollection now).2).Fails) :
    Steady (p.finishCollection now).1 := by
  obtain ⟨-, hfinish⟩ | ⟨-, cause, hs, hfinish⟩ | ⟨hc, hs, hfinish⟩ := finishCollection_cases now p
  · rw [hfinish]
    exact h
  · rw [hfinish] at hok
    exact absurd (settleAll_error hs) hok
  · have hopen : p.started = p.finished + 1 := by simpa [Processor.isCollecting] using hc
    rw [hfinish]
    refine ⟨hopen.ge, fun e' he' => ?_⟩
    have he' : e' ∈ (settleAll p.finished p.entries).1 := he'
    rw [settleAll_ok hs] at he'
    obtain ⟨e, he, hx⟩ := List.mem_filterMap.mp he'
    have hle := (h.entries e he).1
    rw [settled_fields hx]
    show e.updated ≤ p.finished + 1 ∧
      (e.updated = p.finished + 1 → p.finished + 1 < p.started) ∧ (false = true → _)
    exact ⟨by omega, by omega, by simp⟩

theorem Steady.call {p : Processor} (h : Steady p) (c : Call)
    (hok : ¬(call select c p).2.Fails) : Steady (call select c p).1 := by
  cases c with
  | start =>
    refine ⟨h.finished_le.trans (Int.le_add_one (le_refl _)), fun e he => ?_⟩
    obtain ⟨hle, -, hfresh⟩ := h.entries e he
    exact ⟨hle, fun _ => Int.lt_add_one_of_le h.finished_le, hfresh⟩
  | process acc => exact h.offer acc
  | abort => exact h.abort
  | finish now => exact h.finish now hok

/-- A run in which no entry fails reaches steady entries. -/
theorem Runs.steady {created : Time} {past : List (Call × Reply)} {p : Processor}
    (h : Runs select created past p) (hok : ∀ step ∈ past, ¬step.2.Fails) : Steady p := by
  induction h with
  | new => exact steady_new created
  | call h c ih =>
    obtain ⟨hpast, hlast⟩ := List.forall_mem_append.mp hok
    exact (ih hpast).call c (hlast _ (List.mem_singleton_self _))
  | reordered h hp ih =>
    exact ⟨(ih hok).finished_le, fun e he => (ih hok).entries e (hp.mem_iff.mp he)⟩

/-! ## Entries during a collection -/

/-- The entries of a collection over those before it: some of these have new data, and those that
follow them are fresh. -/
inductive Overlay (c : Int) : List Entry → List Entry → Prop where
  | fresh {new : List Entry} (h : ∀ e ∈ new, e.isFresh = true ∧ e.updated = c) : Overlay c [] new
  | kept (e : Entry) {old new : List Entry} (h : Overlay c old new) :
      Overlay c (e :: old) (e :: new)
  | touched (e : Entry) (current : Aggregator) {old new : List Entry} (h : Overlay c old new) :
      Overlay c (e :: old) ({ e with current, updated := c } :: new)

theorem Overlay.refl (c : Int) (es : List Entry) : Overlay c es es := by
  induction es with
  | nil => exact .fresh (by simp)
  | cons e es ih => exact .kept e ih

theorem Overlay.insert {c : Int} {acc : Accumulation} {old new new' : List Entry}
    (h : Overlay c old new) (hi : insert select c acc new = .ok new') : Overlay c old new' := by
  induction h generalizing new' with
  | fresh hnew =>
    refine .fresh (insert_forall hi ⟨rfl, rfl⟩ ?_ hnew)
    intro e e' _ he hr
    rw [receive_fields hr]
    exact ⟨he.1, rfl⟩
  | kept e h ih =>
    rw [Processor.insert] at hi
    split at hi
    · obtain ⟨x, hx, hi⟩ := bind_eq_ok hi
      obtain rfl := Except.ok.inj hi
      rw [receive_fields hx]
      exact .touched e x.current h
    · obtain ⟨xs, hxs, hi⟩ := bind_eq_ok hi
      obtain rfl := Except.ok.inj hi
      exact .kept e (ih hxs)
  | touched e current h ih =>
    rw [Processor.insert] at hi
    split at hi
    · obtain ⟨x, hx, hi⟩ := bind_eq_ok hi
      obtain rfl := Except.ok.inj hi
      rw [receive_fields hx]
      exact .touched e x.current h
    · obtain ⟨xs, hxs, hi⟩ := bind_eq_ok hi
      obtain rfl := Except.ok.inj hi
      exact .touched e current (ih hxs)

theorem overlay_offerAll {c : Int} (batch : List Accumulation) {old : List Entry}
    (p : Processor) (hc : p.finished = c) (h : Overlay c old p.entries) :
    ∃ entries, offerAll select batch p = { p with entries } ∧ Overlay c old entries := by
  induction batch generalizing p with
  | nil => exact ⟨p.entries, rfl, h⟩
  | cons acc batch ih =>
    have hstep : ∃ entries, (p.offer select acc).1 = { p with entries } ∧
        Overlay c old entries := by
      obtain hsame | ⟨entries, -, hi, hoffer⟩ := offer_cases select acc p
      · exact ⟨p.entries, hsame, h⟩
      · exact ⟨entries, by rw [hoffer], h.insert (hc ▸ hi)⟩
    obtain ⟨entries, hp, h'⟩ := hstep
    obtain ⟨entries', hq, h''⟩ := ih (p := { p with entries }) hc h'
    exact ⟨entries', by rw [offerAll_cons, hp, hq], h''⟩

/-- Aborting drops the entries that the collection made; the others can be told from those before
it by data of an earlier collection alone. -/
theorem Overlay.retract {c : Int} {old new : List Entry} (h : Overlay c old new)
    (hold : ∀ e ∈ old, e.updated < c ∧ e.isFresh = false) :
    List.Forall₂ (Alike c) old (new.filterMap (retract c)) := by
  induction h with
  | fresh hnew =>
    rw [List.filterMap_eq_nil_iff.mpr]
    · exact .nil
    · intro e he
      rw [Processor.retract, if_pos (hnew e he).2, if_pos (hnew e he).1]
  | kept e h ih =>
    obtain ⟨⟨hu, -⟩, hold⟩ := List.forall_mem_cons.mp hold
    rw [List.filterMap_cons_some (by rw [Processor.retract, if_neg hu.ne])]
    exact .cons (.refl c e) (ih hold)
  | touched e current h ih =>
    obtain ⟨⟨hu, hf⟩, hold⟩ := List.forall_mem_cons.mp hold
    rw [List.filterMap_cons_some (b := { e with current, updated := c - 1 })
      (by simp [Processor.retract, hf])]
    exact .cons (.inr ⟨hu, by simp, rfl⟩) (ih hold)

/-- A collection that is aborted leaves a similar processor. -/
theorem Steady.similar {p : Processor} (h : Steady p) (hidle : p.started = p.finished)
    (batch : List Accumulation) :
    Similar p (offerAll select batch p.startCollection).abortCollection := by
  obtain ⟨entries, hq, ho⟩ : ∃ entries,
      offerAll select batch p.startCollection = { p.startCollection with entries } ∧
        Overlay p.finished p.entries entries :=
    overlay_offerAll batch p.startCollection rfl (.refl p.finished p.entries)
  rw [hq]
  refine ⟨hidle, rfl, rfl, rfl, ho.retract fun e he => ?_⟩
  obtain ⟨hle, hopen, hfresh⟩ := h.entries e he
  have hu : e.updated ≠ p.finished := fun hx => absurd (hopen hx) (by omega)
  refine ⟨lt_of_le_of_ne hle hu, ?_⟩
  cases hf : e.isFresh with
  | false => rfl
  | true => exact absurd (hfresh hf) hu

/-! ## Runs -/

/-- Whether no call tells processors apart, if they go through their entries in the same order. -/
def Indistinct (p q : Processor) : Prop := ∃ q', Reorders q q' ∧ Similar p q'

variable {p p' q q' : Processor} {visits visits' : List Visit}

theorem Similar.reordered (h : Similar p q) (hp : Reorders p p') :
    ∃ q', Reorders q q' ∧ Similar p' q' := by
  obtain ⟨es, hperm, rfl⟩ := hp
  obtain ⟨es', hes, hperm'⟩ := List.perm_comp_forall₂ hperm h.entries
  exact ⟨{ q with entries := es' }, ⟨es', hperm', rfl⟩,
    h.started, h.finished, h.processStart, h.intervalStart, hes⟩

theorem Indistinct.reordered (h : Indistinct p q) (hp : Reorders p p') :
    ∃ q', Reorders q q' ∧ Similar p' q' := by
  obtain ⟨q₁, hq, hsimilar⟩ := h
  obtain ⟨q', hq', hsimilar'⟩ := hsimilar.reordered hp
  exact ⟨q', hq.trans hq', hsimilar'⟩

theorem Indistinct.symm (h : Indistinct p q) : Indistinct q p := by
  obtain ⟨q', hq, hsimilar⟩ := h
  exact hsimilar.symm.reordered hq.symm

/-- The same calls in the same orders get the same replies. -/
theorem Leads.indistinct (h : Leads select p visits p') (hi : Indistinct p q) :
    ∃ q', Leads select q visits q' := by
  induction h generalizing q with
  | done h => exact ⟨q, .done (.refl q)⟩
  | call h c _ ih =>
    obtain ⟨q₁, hq, hsimilar⟩ := hi.reordered h
    obtain ⟨hreply, hnext⟩ := hsimilar.call select c
    obtain ⟨q', hleads⟩ := ih ⟨_, .refl _, hnext⟩
    rw [hsimilar.order, hreply]
    exact ⟨q', .call hq c hleads⟩

/-- While no entry fails, the same calls get the same replies in any orders. -/
theorem Leads.same (h : Leads select p visits p') (h' : Leads select q visits' q')
    (ho : Orderly q) (hi : Indistinct p q) (hcalls : visits.map (·.call) = visits'.map (·.call))
    (hok : ∀ visit ∈ visits, ¬visit.reply.Fails) :
    List.Forall₂ (fun v v' => v.reply.Same v'.reply) visits visits' := by
  induction h generalizing q visits' with
  | done h =>
    obtain rfl := List.map_eq_nil_iff.mp hcalls.symm
    exact .nil
  | call h c _ ih =>
    cases h' with
    | done h' => cases hcalls
    | call hq c' hnext =>
      obtain ⟨rfl, htail⟩ : c = c' ∧ _ := List.cons.inj hcalls
      obtain ⟨hfirst, hrest⟩ := List.forall_mem_cons.mp hok
      obtain ⟨q₁, hq₁, hsimilar⟩ := hi.reordered h
      obtain ⟨hreply, hsimilar'⟩ := hsimilar.call select c
      obtain ⟨hsame, hreorders⟩ := (hq₁.symm.trans hq).call (hq₁.orderly ho) c (hreply ▸ hfirst)
      refine .cons (hreply ▸ hsame) (ih hnext ((hq.orderly ho).call c) ?_ htail hrest)
      exact ⟨_, hreorders.symm, hsimilar'⟩

theorem Steady.indistinct (h : Steady p) (ho : Orderly p) (hidle : p.started = p.finished)
    (batch : List Accumulation) (haborted : Leads select p visits q)
    (hcalls : visits.map (·.call) = .start :: batch.map .process ++ [.abort]) :
    Indistinct p q := by
  have hfinish : ∀ visit ∈ visits, ∀ now, visit.call ≠ .finish now := by
    intro visit hvisit now hcall
    have hmem := List.mem_map_of_mem (f := Visit.call) hvisit
    rw [hcalls, hcall] at hmem
    simp at hmem
  have hreorders := haborted.reorders ho (.refl p) (haborted.not_fails hfinish)
  have habort : (run select (.start :: batch.map .process ++ [.abort]) p).1 =
      (offerAll select batch p.startCollection).abortCollection := by
    rw [List.cons_append, run_cons, run_append_fst, run_process_fst]
    rfl
  rw [hcalls, habort] at hreorders
  exact ⟨_, hreorders.symm, h.similar hidle batch⟩

/-- After a run in which no entry failed, a further collection that is aborted, whatever it was
given and in whatever orders it went through the entries, changes no reply of the calls that follow
it: the same replies are given in the same orders. In other orders they are the same as well until
an entry fails, but for the order of records of instruments with one name. -/
theorem run_after_aborted_collection (select : TemporalitySelector) (created : Time)
    {before : List (Call × Reply)} {p q : Processor} (hp : Runs select created before p)
    (hbefore : ∀ step ∈ before, ¬step.2.Fails) (hidle : p.started = p.finished)
    (batch : List Accumulation) {aborted : List Visit} (haborted : Leads select p aborted q)
    (hcalls : aborted.map (·.call) = .start :: batch.map .process ++ [.abort]) :
    (∀ after, (∃ p', Leads select p after p') ↔ ∃ q', Leads select q after q') ∧
    ∀ after after' p' q', Leads select p after p' → Leads select q after' q' →
      after.map (·.call) = after'.map (·.call) → (∀ visit ∈ after, ¬visit.reply.Fails) →
      List.Forall₂ (fun v v' => v.reply.Same v'.reply) after after' := by
  have ho : Orderly p := hp.reachable.orderly
  have hi : Indistinct p q := (hp.steady hbefore).indistinct ho hidle batch haborted hcalls
  refine ⟨fun after => ⟨?_, ?_⟩, ?_⟩
  · rintro ⟨p', h⟩
    exact h.indistinct hi
  · rintro ⟨q', h⟩
    exact h.indistinct hi.symm
  · intro after after' p' q' h h' hsame hok
    exact h.same h' (haborted.orderly ho) hi hsame hok

/-- Requests and errors are counted before and after a collection that was aborted, and which left
their entries the other way round. -/
theorem run_after_aborted_collection_requests :
    let id (name : String) : SeriesId :=
      ⟨{ name, kind := .counter, numberKind := .u64 }, .empty, .empty⟩
    let select := Temporality.constant .cumulative
    let before : List Call :=
      [.start, .process ⟨id "requests", .sum ⟨3⟩⟩, .process ⟨id "errors", .sum ⟨1⟩⟩, .finish 1]
    let batch : List Accumulation := [⟨id "requests", .sum ⟨5⟩⟩, ⟨id "retries", .sum ⟨1⟩⟩]
    let after : List Call := [.start, .process ⟨id "requests", .sum ⟨2⟩⟩, .finish 2]
    let p := (run select before (new 0)).1
    let aborted := (run select (.start :: batch.map .process ++ [.abort]) p).1
    let q : Processor := { aborted with entries := aborted.entries.reverse }
    p.started = p.finished ∧
      List.Forall₂ Reply.Same (run select after p).2 (run select after q).2 := by
  intro id select before batch after p aborted q
  have hbefore : (run select before (new 0)).2 =
      [.done, .processed (.ok ()), .processed (.ok ()), .finished (.ok _)] := rfl
  have hafter : (run select after p).2 = [.done, .processed (.ok ()), .finished (.ok _)] := rfl
  obtain ⟨visits, haborted, hcalls, -⟩ :=
    leads_run select (.start :: batch.map .process ++ [.abort]) p
  obtain ⟨visits₁, h₁, hcalls₁, hreplies₁⟩ := leads_run select after p
  obtain ⟨visits₂, h₂, hcalls₂, hreplies₂⟩ := leads_run select after q
  have hsame := (run_after_aborted_collection select 0 (Runs.run .new before)
    (by rw [hbefore]; simp [before, Reply.Fails]) rfl batch
    (haborted.reordered ⟨_, List.reverse_perm _, rfl⟩) hcalls).2 visits₁ visits₂ _ _ h₁ h₂
    (hcalls₁.trans hcalls₂.symm) ?_
  · refine ⟨rfl, ?_⟩
    rw [← hreplies₁, ← hreplies₂]
    exact List.forall₂_map_left_iff.mpr (List.forall₂_map_right_iff.mpr hsame)
  · rw [← List.forall_mem_map (f := Visit.reply) (P := fun reply => ¬reply.Fails), hreplies₁,
      hafter]
    simp [Reply.Fails]

end Metering.Processor
