import Metering.Proofs.Accumulator.Abreast
import Metering.Proofs.Controller.Endings
import Metering.Proofs.Controller.Reduction

/-!
# Cancelled collections lose nothing

A collection whose context is found cancelled hands nothing over. What its callbacks observed
until then stays with the series, where the next collection replaces it. The collections that
follow succeed unless their own contexts are found cancelled, and return what they would have
returned without it.
-/

namespace Metering

theorem exists_reduces (keeps : List (Descriptor → Option (KeyValue → Bool))) :
    ∃ r, Reduces (keeps.map .ofPredicates) r := ⟨_, reduces_ofAll keeps⟩

namespace Controller

open Accumulator (Abreast Cleared Prepared Proceeds Undisturbed afterFirst handed handedOverAs
  not_findsCancelled_iff reports)

/-! ## Runs -/

/-- Whether an action records a synchronous instrument, or registers a steady callback. -/
def Action.IsSteady : Action → Prop
  | .record m => m.descriptor.kind.isSynchronous = true
  | .register _ calls => Steady calls
  | .await .. | .collect _ => True

def run (script : List Action) (c : Controller) : Controller :=
  script.foldl (fun c action => act action c) c

/-- Whether a collection finds its context cancelled. -/
def FindsCancelled (cx : Context) (c : Controller) : Prop :=
  Accumulator.FindsCancelled (c.limited cx c.collectTimeout) c.accumulator.tick

/-- Whether the collections of a script find their contexts cancelled alike in two runs. -/
def FindAlike : List Action → Controller → Controller → Prop
  | [], _, _ => True
  | .collect cx :: script, c, c' =>
    (c.FindsCancelled cx ↔ c'.FindsCancelled cx) ∧
      FindAlike script (c.collect cx).1 (c'.collect cx).1
  | action :: script, c, c' => FindAlike script (act action c) (act action c')

/-- Whether collections return the same: either the same values for the same series, or both were
cancelled. -/
def SameTotals : Except Halt CheckpointSet → Except Halt CheckpointSet → Prop
  | .ok s, .ok t =>
    (s.records.map fun x => (x.series, x.aggregator.untimed)).Perm
      (t.records.map fun x => (x.series, x.aggregator.untimed))
  | .error halt, .error halt' => halt = .error .cancelled ∧ halt' = .error .cancelled
  | _, _ => False

theorem SameTotals.isOk_eq {x y : Except Halt CheckpointSet} (h : SameTotals x y) :
    x.isOk = y.isOk := by
  cases x <;> cases y <;> first | rfl | exact h.elim

theorem untimed_eq_of_rel {T : Retiming} {a? b? : Option Aggregator}
    (h : Option.Rel (Aggregator.Retimed T) a? b?) :
    a?.map Aggregator.untimed = b?.map Aggregator.untimed := by
  cases h with
  | none => rfl
  | some hab => exact congrArg some hab.untimed_eq

/-! ## One controller -/

variable {choose : Descriptor → Option Aggregator} {select : TemporalitySelector}
  {r : Relabelling} {past : List (List Accumulation)} {c c' : Controller} {cx : Context}

section
variable (hnew : ∀ d g, choose d = some g → Aggregator.IsNew d g)
include hnew

/-- A cancelled collection leaves the processor and the recorded series as they are. -/
theorem Tracks.undisturbed (h : Tracks choose select r past c.checkpointer)
    (ha : Prepared choose c.accumulator)
    (hgo : ∀ errors, ¬Proceeds (c.limited cx c.collectTimeout) c.accumulator.tick errors) :
    (c.collect cx).2 = .error (.error .cancelled) ∧
      (c.collect cx).1.checkpointer = c.checkpointer ∧
      Undisturbed choose c.accumulator (c.collect cx).1.accumulator := by
  have htick : Undisturbed choose c.accumulator c.accumulator.tick :=
    ha.undisturbed ⟨rfl, rfl, rfl, rfl, rfl⟩ rfl rfl (le_refl _)
  have hcalled := (htick.prepared.afterCallbacks hnew (c.limited cx c.collectTimeout)).1
  have hlog := hcalled.prepared.undisturbed (b :=
    ((c.accumulator.tick.afterCallbacks (c.limited cx c.collectTimeout)).log .collectionAborted))
    ⟨rfl, rfl, rfl, rfl, rfl⟩ rfl rfl (le_refl _)
  rw [collect_of_not_proceeds rfl h.intact ha.intact hgo, h.cancelled]
  exact ⟨rfl, rfl, (htick.trans hcalled).trans hlog⟩

theorem Tracks.collect_of_prepared (h : Tracks choose select r past c.checkpointer)
    (ha : Prepared choose c.accumulator) {limit : Context}
    (hlimit : c.limited cx c.collectTimeout = limit) {errors : List MetricsError}
    (hp : Proceeds limit c.accumulator.tick errors) :
    let called := c.accumulator.tick.afterCallbacks limit
    let batch := handedOverAs r called.resource called
    ∃ swept events p set, Cleared called swept ∧
      c.collect cx = ({ c with
        accumulator := { swept with epoch := swept.epoch + 1, now := swept.now + 1, events }
        checkpointer := p }, .ok set) ∧
      Tracks choose select r (past ++ [batch]) p ∧
        Reflects (Processor.expected select past batch) set := by
  intro called batch
  have htick : Prepared choose c.accumulator.tick := ha.same ⟨rfl, rfl, rfl, rfl, rfl⟩ rfl rfl
  have hcalled : Prepared choose called := (htick.afterCallbacks hnew limit).1.prepared
  exact h.collect_of_made hnew hlimit hp hcalled.sound.distinct hcalled.held.allMade

end

/-! ## Two controllers -/

/-- Controllers of which the accumulators are abreast, and whose processors were handed the same
but for the stamps of last values. -/
structure Level (choose : Descriptor → Option Aggregator) (select : TemporalitySelector)
    (r : Relabelling) (T : Retiming) (c c' : Controller) : Prop where
  abreast : Abreast choose T c.accumulator c'.accumulator
  tracks : ∃ past past', List.Forall₂ (RetimedBatch T) past past' ∧
    Tracks choose select r past c.checkpointer ∧ Tracks choose select r past' c'.checkpointer

variable {T : Retiming}

theorem Level.mono {T' : Retiming} (h : Level choose select r T c c')
    (hT : ∀ t t', T t t' → T' t t') {d d' : Controller} (hc : d.checkpointer = c.checkpointer)
    (hc' : d'.checkpointer = c'.checkpointer)
    (ha : Abreast choose T' d.accumulator d'.accumulator) : Level choose select r T' d d' := by
  obtain ⟨past, past', hpast, htracks, htracks'⟩ := h.tracks
  exact ⟨ha, past, past', hpast.imp fun _ _ hb => hb.mono hT, hc ▸ htracks, hc' ▸ htracks'⟩

theorem level_build (o : Options) (env : Environment) (choose : Descriptor → Option Aggregator)
    (select : TemporalitySelector) {filters : List LabelFilterSelector} (h : Reduces filters r)
    (now : Time) :
    Level choose select r .none (build o env (.ofFunction choose) select filters now)
      (build o env (.ofFunction choose) select filters now) := by
  obtain ⟨events, ha⟩ := build_accumulator o env (.ofFunction choose) select filters now
  generalize o.resource.getD (.ofEnvironment env) = resource at ha
  generalize o.idleCycles.getD 1 = idleCycles at ha
  have hnew : Abreast choose .none _ _ := Accumulator.abreast_new resource idleCycles (now + 1)
  have hlogged := hnew.left.undisturbed (b := { Accumulator.new (.ofFunction choose) resource
    idleCycles (now + 1) with events }) ⟨rfl, rfl, rfl, rfl, rfl⟩ rfl rfl (le_refl _)
  have htracks : Tracks choose select r []
      (build o env (.ofFunction choose) select filters now).checkpointer :=
    ⟨rfl, h, rfl, rfl, Processor.follows_new select now, by simp⟩
  refine ⟨?_, [], [], .nil, htracks, htracks⟩
  rw [ha]
  exact hnew.undisturbed hlogged hlogged

section
variable (hnew : ∀ d g, choose d = some g → Aggregator.IsNew d g)
include hnew

theorem Level.act (h : Level choose select r T c c') {action : Action} (hs : action.IsSteady)
    (hcollect : ∀ cx, action ≠ .collect cx) :
    ∃ T', Level choose select r T' (act action c) (act action c') := by
  cases action with
  | record m =>
    obtain ⟨T', hT, ha⟩ := h.abreast.record hnew hs
    exact ⟨T', h.mono hT rfl rfl ha⟩
  | register descriptors calls =>
    exact ⟨T, h.mono (fun _ _ ht => ht) rfl rfl (h.abreast.register descriptors hs)⟩
  | await elapsed flags =>
    exact ⟨T, h.mono (fun _ _ ht => ht) rfl rfl (h.abreast.undisturbed
      (h.abreast.left.undisturbed ⟨rfl, rfl, rfl, rfl, rfl⟩ rfl rfl (le_refl _))
      (h.abreast.right.undisturbed ⟨rfl, rfl, rfl, rfl, rfl⟩ rfl rfl (le_refl _)))⟩
  | collect cx => exact absurd rfl (hcollect cx)

theorem Level.collect_of_not_proceeds (h : Level choose select r T c c')
    (hgo : ∀ errors, ¬Proceeds (c.limited cx c.collectTimeout) c.accumulator.tick errors)
    (hgo' : ∀ errors, ¬Proceeds (c'.limited cx c'.collectTimeout) c'.accumulator.tick errors) :
    SameTotals (c.collect cx).2 (c'.collect cx).2 ∧
      Level choose select r T (c.collect cx).1 (c'.collect cx).1 := by
  obtain ⟨past, past', -, htracks, htracks'⟩ := h.tracks
  obtain ⟨hresult, hcheckpointer, hun⟩ := htracks.undisturbed hnew h.abreast.left hgo
  obtain ⟨hresult', hcheckpointer', hun'⟩ := htracks'.undisturbed hnew h.abreast.right hgo'
  refine ⟨?_, h.mono (fun _ _ ht => ht) hcheckpointer hcheckpointer'
    (h.abreast.undisturbed hun hun')⟩
  rw [hresult, hresult']
  exact ⟨rfl, rfl⟩

/-- Both collections make all reports, and export the same but for the stamps of last values. -/
theorem Level.collect_of_proceeds (h : Level choose select r T c c')
    {limit limit' : Context} (hlimit : c.limited cx c.collectTimeout = limit)
    (hlimit' : c'.limited cx c'.collectTimeout = limit') {errors errors' : List MetricsError}
    (hp : Proceeds limit c.accumulator.tick errors)
    (hp' : Proceeds limit' c'.accumulator.tick errors') :
    SameTotals (c.collect cx).2 (c'.collect cx).2 ∧
      ∃ T', Level choose select r T' (c.collect cx).1 (c'.collect cx).1 := by
  obtain ⟨past, past', hpast, htracks, htracks'⟩ := h.tracks
  obtain ⟨swept, events, p, set, hcleared, hc, hnext, hset⟩ :=
    htracks.collect_of_prepared hnew h.abreast.left hlimit hp
  obtain ⟨swept', events', p', set', hcleared', hc', hnext', hset'⟩ :=
    htracks'.collect_of_prepared hnew h.abreast.right hlimit' hp'
  have htick := h.abreast.undisturbed
    (h.abreast.left.undisturbed (b := c.accumulator.tick) ⟨rfl, rfl, rfl, rfl, rfl⟩ rfl rfl
      (le_refl _))
    (h.abreast.right.undisturbed (b := c'.accumulator.tick) ⟨rfl, rfl, rfl, rfl, rfl⟩ rfl rfl
      (le_refl _))
  obtain ⟨hun, htook⟩ := htick.left.afterCallbacks hnew limit
  obtain ⟨hun', htook'⟩ := htick.right.afterCallbacks hnew limit'
  -- the writes of the reports correspond, in addition to those of before
  generalize hT : T.extend c.accumulator.tick.writes c'.accumulator.tick.writes
    (reports choose c.accumulator.tick).length = T'
  have hTT' : ∀ t t', T t t' → T' t t' := hT ▸ T.extend_of _ _ _
  have hwrites := congrArg Stamp.sequence (htook errors hp).stamp
  have hwrites' := congrArg Stamp.sequence (htook' errors' hp').stamp
  rw [htick.reports] at hwrites'
  have hcalled := htick.undisturbed_extend hun hun' hwrites hwrites'
  have hal := Accumulator.aligned_of_took hnew htick (htook errors hp) (htook' errors' hp')
  rw [hT] at hcalled hal
  have hbatch := hcalled.retimedBatch hal r
  have hpast' : List.Forall₂ (RetimedBatch T') past past' := hpast.imp fun _ _ hb => hb.mono hTT'
  have hexpected (k : SeriesId) := untimed_eq_of_rel
    (Processor.expected_retimed (k := k) select hcalled.ordered hpast' hbatch)
  rw [hc, hc']
  exact ⟨hset.perm Aggregator.untimed hset' hexpected, T',
    hcalled.sweep hnew hal hcleared hcleared' events events', _, _,
    List.rel_append hpast' (.cons hbatch .nil), hnext, hnext'⟩

/-- A collection succeeds unless it finds its context cancelled. -/
theorem Level.isOk_collect_iff (h : Level choose select r T c c') (cx : Context) :
    (c.collect cx).2.isOk = true ↔ ¬c.FindsCancelled cx := by
  obtain ⟨past, -, -, htracks, -⟩ := h.tracks
  have hprepared := h.abreast.left
  rw [FindsCancelled, not_findsCancelled_iff (a := c.accumulator.tick) hprepared.intact]
  by_cases hgo : ∃ errors, Proceeds (c.limited cx c.collectTimeout) c.accumulator.tick errors
  · obtain ⟨errors, hp⟩ := hgo
    obtain ⟨_, _, _, set, _, hok, _⟩ := htracks.collect_of_prepared hnew hprepared rfl hp
    exact iff_of_true (by rw [hok]; rfl) ⟨errors, hp⟩
  · have hcancelled := (htracks.undisturbed hnew hprepared (not_exists.mp hgo)).1
    exact iff_of_false (by rw [hcancelled]; exact Bool.false_ne_true) hgo

/-- Collections that find their contexts cancelled alike return the same. -/
theorem Level.collect (h : Level choose select r T c c') (cx : Context)
    (halike : c.FindsCancelled cx ↔ c'.FindsCancelled cx) :
    SameTotals (c.collect cx).2 (c'.collect cx).2 ∧
      ∃ T', Level choose select r T' (c.collect cx).1 (c'.collect cx).1 := by
  have hproceeds : ¬c.FindsCancelled cx ↔ _ := not_findsCancelled_iff h.abreast.left.intact
  have hproceeds' : ¬c'.FindsCancelled cx ↔ _ := not_findsCancelled_iff h.abreast.right.intact
  by_cases hfound : c.FindsCancelled cx
  · have hgo := not_exists.mp (hproceeds.not.mp (not_not.mpr hfound))
    have hgo' := not_exists.mp (hproceeds'.not.mp (not_not.mpr (halike.mp hfound)))
    obtain ⟨hsame, hnext⟩ := h.collect_of_not_proceeds hnew hgo hgo'
    exact ⟨hsame, T, hnext⟩
  · obtain ⟨errors, hp⟩ := hproceeds.mp hfound
    obtain ⟨errors', hp'⟩ := hproceeds'.mp (halike.not.mp hfound)
    exact h.collect_of_proceeds hnew rfl rfl hp hp'

theorem Level.collections (h : Level choose select r T c c') {script : List Action}
    (hs : ∀ action ∈ script, action.IsSteady) (halike : FindAlike script c c') :
    List.Forall₂ SameTotals (collections script c) (collections script c') := by
  induction script generalizing T c c' with
  | nil => exact .nil
  | cons action script ih =>
    obtain ⟨haction, hscript⟩ := List.forall_mem_cons.mp hs
    by_cases hcollect : ∃ cx, action = .collect cx
    · obtain ⟨cx, rfl⟩ := hcollect
      obtain ⟨hone, hrest⟩ := halike
      obtain ⟨hsame, T', hnext⟩ := h.collect hnew cx hone
      exact .cons hsame (ih hnext hscript hrest)
    · obtain ⟨T', hnext⟩ := h.act hnew haction (not_exists.mp hcollect)
      cases action with
      | collect cx => exact absurd ⟨cx, rfl⟩ hcollect
      | _ => exact ih hnext hscript halike

theorem Level.act_self (h : Level choose select r T c c) {action : Action}
    (hs : action.IsSteady) :
    ∃ T', Level choose select r T' (Controller.act action c) (Controller.act action c) := by
  by_cases hcollect : ∃ cx, action = .collect cx
  · obtain ⟨cx, rfl⟩ := hcollect
    exact (h.collect hnew cx .rfl).2
  · exact h.act hnew hs (not_exists.mp hcollect)

theorem Level.run (h : Level choose select r T c c) {script : List Action}
    (hs : ∀ action ∈ script, action.IsSteady) :
    ∃ T', Level choose select r T' (run script c) (run script c) := by
  induction script generalizing T c with
  | nil => exact ⟨T, h⟩
  | cons action script ih =>
    obtain ⟨haction, hscript⟩ := List.forall_mem_cons.mp hs
    obtain ⟨T', hnext⟩ := h.act_self hnew haction
    exact ih hnext hscript

theorem Level.cancelled (h : Level choose select r T c c')
    (hgo : ∀ errors, ¬Proceeds (c'.limited cx c'.collectTimeout) c'.accumulator.tick errors) :
    (c'.collect cx).2 = .error (.error .cancelled) ∧
      (c'.collect cx).1.checkpointer = c'.checkpointer ∧
      Level choose select r T c (c'.collect cx).1 := by
  obtain ⟨past, past', -, htracks, htracks'⟩ := h.tracks
  obtain ⟨hresult, hcheckpointer, hun⟩ := htracks'.undisturbed hnew h.abreast.right hgo
  exact ⟨hresult, hcheckpointer, h.mono (fun _ _ ht => ht) rfl hcheckpointer
    (h.abreast.undisturbed (h.abreast.left.undisturbed (.refl _) rfl rfl (le_refl _)) hun)⟩

end

/-! ## Contexts without limits -/

theorem act_collectTimeout (action : Action) (c : Controller) :
    (act action c).collectTimeout = c.collectTimeout := by
  cases action with
  | collect cx => exact collect_collectTimeout c cx
  | _ => rfl

theorem not_findsCancelled_unlimited (h : c.collectTimeout = 0) :
    ¬c.FindsCancelled .unlimited := by
  rintro ⟨j, -, hj⟩
  rw [limited, h, if_pos rfl] at hj
  cases hj

theorem findAlike_of_unlimited {script : List Action} (h : c.collectTimeout = 0)
    (h' : c'.collectTimeout = 0) (hs : ∀ cx, .collect cx ∈ script → cx = .unlimited) :
    FindAlike script c c' := by
  induction script generalizing c c' with
  | nil => trivial
  | cons action script ih =>
    have hrest := ih ((act_collectTimeout action c).trans h)
      ((act_collectTimeout action c').trans h') fun cx hcx => hs cx (.tail _ hcx)
    cases action with
    | collect cx =>
      obtain rfl := hs cx (.head _)
      exact ⟨iff_of_false (not_findsCancelled_unlimited h) (not_findsCancelled_unlimited h'), hrest⟩
    | _ => exact hrest

theorem Level.isOk_of_unlimited (hnew : ∀ d g, choose d = some g → Aggregator.IsNew d g)
    (h : Level choose select r T c c) {script : List Action}
    (hs : ∀ action ∈ script, action.IsSteady) (htimeout : c.collectTimeout = 0)
    (hunlimited : ∀ cx, .collect cx ∈ script → cx = .unlimited) :
    ∀ result ∈ Controller.collections script c, result.isOk = true := by
  induction script generalizing T c with
  | nil => simp [Controller.collections]
  | cons action script ih =>
    obtain ⟨haction, hscript⟩ := List.forall_mem_cons.mp hs
    obtain ⟨T', hnext⟩ := h.act_self hnew haction
    have hrest := ih hnext hscript ((act_collectTimeout action c).trans htimeout)
      fun cx hcx => hunlimited cx (.tail _ hcx)
    cases action with
    | collect cx =>
      obtain rfl := hunlimited cx (.head _)
      have hfirst := (h.isOk_collect_iff hnew .unlimited).mpr
        (not_findsCancelled_unlimited htimeout)
      exact List.forall_mem_cons.mpr ⟨hfirst, hrest⟩
    | _ => exact hrest

/-! ## Cancelled collections -/

/-- A collection may be put anywhere into a run. If it finds its context cancelled, after any number
of the callbacks, it returns so, hands nothing over and leaves the processor as it was. After it a
collection succeeds unless it finds its own context cancelled. Where the collections of a script
find their contexts cancelled alike with it and without it, they return the same values for the
same series; without limits all of them succeed. -/
theorem cancelled_collection_loses_nothing (o : Options) (env : Environment)
    (choose : Descriptor → Option Aggregator) (select : TemporalitySelector)
    (keeps : List (Descriptor → Option (KeyValue → Bool))) (now : Time)
    (hnew : ∀ d g, choose d = some g → Aggregator.IsNew d g) (before : List Action)
    (hbefore : ∀ action ∈ before, action.IsSteady) (cx : Context) :
    let c := run before
      (build o env (.ofFunction choose) select (keeps.map .ofPredicates) now)
    c.FindsCancelled cx →
    let next := (c.collect cx).1
    (c.collect cx).2 = .error (.error .cancelled) ∧ handed (deeds (.collect cx) c) = [] ∧
      next.checkpointer = c.checkpointer ∧
      ∀ after : List Action, (∀ action ∈ after, action.IsSteady) →
        (∀ cx', ((run after next).collect cx').2.isOk = true ↔
          ¬(run after next).FindsCancelled cx') ∧
        (FindAlike after c next →
          List.Forall₂ SameTotals (collections after c) (collections after next)) ∧
        (c.collectTimeout = 0 → (∀ cx', .collect cx' ∈ after → cx' = .unlimited) →
          List.Forall₂ (fun x y => x.isOk = true ∧ y.isOk = true ∧ SameTotals x y)
            (collections after c) (collections after next)) := by
  intro c hfound next
  obtain ⟨r, hr⟩ := exists_reduces keeps
  obtain ⟨T, hlevel⟩ : ∃ T, Level choose select r T c c :=
    (level_build o env choose select hr now).run hnew hbefore
  have hgo : ∀ errors, ¬Proceeds (c.limited cx c.collectTimeout) c.accumulator.tick errors :=
    not_exists.mp ((not_findsCancelled_iff (a := c.accumulator.tick)
      hlevel.abreast.left.intact).not.mp (not_not.mpr hfound))
  obtain ⟨hresult, hcheckpointer, hnext⟩ := hlevel.cancelled hnew hgo
  refine ⟨hresult, ?_, hcheckpointer, fun after hafter => ⟨fun cx' => ?_, fun halike => ?_, ?_⟩⟩
  · rw [deeds, Accumulator.collected_of_not_proceeds (a := c.accumulator.tick)
      hlevel.abreast.left.intact hgo]
    exact Accumulator.handed_calledAll ..
  · -- the run with the collection in it is a run as well
    have hall : ∀ action ∈ before ++ .collect cx :: after, action.IsSteady := by
      simpa [or_imp, forall_and, Action.IsSteady] using ⟨hbefore, hafter⟩
    obtain ⟨T', hrun⟩ := (level_build o env choose select hr now).run hnew hall
    rw [run, List.foldl_append] at hrun
    exact hrun.isOk_collect_iff hnew cx'
  · exact hnext.collections hnew hafter halike
  · intro htimeout hunlimited
    have htimeout' : next.collectTimeout = 0 := (collect_collectTimeout c cx).trans htimeout
    have hsame := hnext.collections hnew hafter
      (findAlike_of_unlimited htimeout htimeout' hunlimited)
    have hok := hlevel.isOk_of_unlimited hnew hafter htimeout hunlimited
    have hboth := (List.forall₂_and_left _ _).mpr ⟨hok, hsame⟩
    exact hboth.imp fun x y hxy => ⟨hxy.1, hxy.2.isOk_eq ▸ hxy.1, hxy.2⟩

/-- The bytes received are reported before the context is found cancelled, and those sent are
not. -/
theorem cancelled_collection_loses_nothing_bytes :
    let received : Descriptor :=
      { name := "bytes_received", kind := .counterObserver, numberKind := .u64 }
    let sent : Descriptor := { name := "bytes_sent", kind := .counterObserver, numberKind := .u64 }
    let choose : Descriptor → Option Aggregator := fun _ => some .newSum
    let o : Options := { resource := some .empty, collectTimeout := some 0 }
    let before : List Action :=
      [.register [received] [[.observe received ⟨10⟩ .empty],
        [.observe received ⟨10⟩ .empty, .cancel], [.observe received ⟨10⟩ .empty]],
      .register [sent] [[.observe sent ⟨20⟩ .empty]], .collect .unlimited, .await 0 [false]]
    let after : List Action := [.collect .unlimited]
    let cx : Context := { flag := some 0 }
    let c := run before (build o {} (.ofFunction choose) (Temporality.constant .cumulative)
      (List.map .ofPredicates []) 0)
    c.FindsCancelled cx ∧ (c.collect cx).2 = .error (.error .cancelled) ∧
      List.Forall₂ (fun x y => x.isOk = true ∧ y.isOk = true ∧ SameTotals x y)
        (collections after c) (collections after (c.collect cx).1) := by
  intro received sent choose o before after cx c
  have hnew : ∀ d g, choose d = some g → Aggregator.IsNew d g := by
    intro d g hg
    rw [← Option.some.inj hg]
    exact Aggregator.isNew_newSum d
  have hbefore : ∀ action ∈ before, action.IsSteady := by
    simp only [before, List.forall_mem_cons, Action.IsSteady]
    exact ⟨⟨[.observe received ⟨10⟩ .empty], by simp [CallbackAction.isObservation],
      by simp [CallbackAction.isCancel]⟩, ⟨[.observe sent ⟨20⟩ .empty],
      by simp [CallbackAction.isObservation], by simp [CallbackAction.isCancel]⟩, by simp⟩
  have hfound : c.FindsCancelled cx := ⟨1, by decide +kernel, by decide +kernel⟩
  obtain ⟨hresult, -, -, hall⟩ := cancelled_collection_loses_nothing o {} choose
    (Temporality.constant .cumulative) [] 0 hnew before hbefore cx hfound
  obtain ⟨-, -, hsame⟩ := hall after (by simp [after, Action.IsSteady])
  exact ⟨hfound, hresult, hsame (by decide +kernel) (by simp [after])⟩

end Controller
end Metering
