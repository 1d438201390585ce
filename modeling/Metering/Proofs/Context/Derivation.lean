import Mathlib
import Metering.Context

/-!
# Contexts derived from others

A program makes contexts from others and uses the handles it gets on the way. A reached deadline
is handed down to every context derived later. A used handle is handed down along copies and
contexts with a timeout, for they share their parent's flag. A context with a handle of its own
takes over the state of its parent at that moment and none that comes later.
-/

namespace Metering

/-- What a program does with contexts and handles, both known by their positions. -/
inductive ContextCall where
  | new
  | clone (parent : Nat)
  | withCancellation (parent : Nat)
  | withTimeout (parent : Nat) (timeout : Span)
  | cancel (handle : Nat)

/-- The deadline that a call asks for, if the clock can reach it. -/
def ContextCall.request? (now : Time) : ContextCall → Option Time
  | .withTimeout _ timeout => if now + timeout < Time.limit then some (now + timeout) else none
  | _ => none

/-- One context made from another; it takes part in the cancellation of its parent or, with a
handle of its own, only in one that came before. -/
structure Derivation where
  parent : Nat
  child : Nat
  inherits : Bool
  deriving DecidableEq

/-- The contexts and handles a program holds, the state of the handles, and how the contexts came
about. -/
structure ContextStore where
  contexts : List Context := []
  handles : List CancellationHandle := []
  flags : CancellationFlags := []
  derivations : List Derivation := []

def Context.isExpired (cx : Context) (now : Time) : Bool := cx.deadline.any (· ≤ now)

namespace ContextStore

variable {s s' : ContextStore}

def isCancelled (s : ContextStore) (now : Time) (i : Nat) : Bool :=
  s.contexts[i]?.any (·.isCancelled s.flags now)

def isExpired (s : ContextStore) (now : Time) (i : Nat) : Bool :=
  s.contexts[i]?.any (·.isExpired now)

def derive (s : ContextStore) (parent : Nat) (cx : Context) (inherits : Bool) : ContextStore :=
  { s with
    contexts := s.contexts ++ [cx]
    derivations := s.derivations ++ [⟨parent, s.contexts.length, inherits⟩] }

/-- A call on a context or a handle that is not there does nothing. -/
def call (now : Time) (s : ContextStore) : ContextCall → ContextStore
  | .new => { s with contexts := s.contexts ++ [.unlimited] }
  | .clone parent =>
    match s.contexts[parent]? with
    | none => s
    | some cx => s.derive parent cx true
  | .withCancellation parent =>
    match s.contexts[parent]? with
    | none => s
    | some cx =>
      let (flags, derived, handle) := cx.withCancellation s.flags now
      { s.derive parent derived (cx.isCancelled s.flags now) with
        flags, handles := s.handles ++ [handle] }
  | .withTimeout parent timeout =>
    match s.contexts[parent]? with
    | none => s
    | some cx => s.derive parent (cx.withTimeout now timeout) true
  | .cancel handle =>
    match s.handles[handle]? with
    | none => s
    | some h => { s with flags := h.cancel s.flags }

/-- What a program holds after calls, each made at its time. -/
def run (calls : List (Time × ContextCall)) : ContextStore :=
  calls.foldl (fun s c => s.call c.1 c.2) {}

theorem run_snoc (calls : List (Time × ContextCall)) (c : Time × ContextCall) :
    run (calls ++ [c]) = (run calls).call c.1 c.2 := by
  simp [run]

/-- A context made from another, directly or by way of others. -/
def Derives (s : ContextStore) : Nat → Nat → Prop :=
  Relation.TransGen fun i j => ∃ d ∈ s.derivations, d.parent = i ∧ d.child = j

/-- A context made from another by steps none of which shut out a later cancellation. -/
def Inherits (s : ContextStore) : Nat → Nat → Prop :=
  Relation.TransGen fun i j => ∃ d ∈ s.derivations, d.parent = i ∧ d.child = j ∧ d.inherits

/-- What a derivation hands down: a reached deadline in any case, and a used handle where both
contexts have the same flag or the derived one is cancelled already. -/
structure HandsDown (flags : CancellationFlags) (inherits : Bool) (cx cx' : Context) : Prop where
  deadline : ∀ {now}, cx.isExpired now = true → cx'.isExpired now = true
  flag : inherits = true → cx'.flag = cx.flag ∨ cx'.flag.any (flags.getD · false) = true

theorem HandsDown.isCancelled {flags : CancellationFlags} {cx cx' : Context} {now : Time}
    (h : HandsDown flags true cx cx') (hcx : cx.isCancelled flags now = true) :
    cx'.isCancelled flags now = true := by
  rw [Context.isCancelled, Bool.or_eq_true] at hcx ⊢
  rcases hcx with hused | hexpired
  · rcases h.flag rfl with hsame | hcancelled
    · exact .inl (by rwa [hsame])
    · exact .inl hcancelled
  · exact .inr (h.deadline hexpired)

/-- A later store: contexts stay as they are, and a used handle stays used. -/
structure Extends (s s' : ContextStore) : Prop where
  contexts : ∀ {i : Nat} {cx}, s.contexts[i]? = some cx → s'.contexts[i]? = some cx
  flags : ∀ {f : Nat}, s.flags.getD f false = true → s'.flags.getD f false = true

theorem HandsDown.extends {inherits : Bool} {cx cx' : Context} (hext : s.Extends s')
    (h : HandsDown s.flags inherits cx cx') : HandsDown s'.flags inherits cx cx' where
  deadline := h.deadline
  flag hi := by
    refine (h.flag hi).imp_right fun hused => ?_
    rw [Option.any_eq_true_iff_get] at hused ⊢
    obtain ⟨hsome, hused⟩ := hused
    exact ⟨hsome, hext.flags hused⟩

/-- Every derivation is between contexts of the store and hands down what it should. -/
def Sound (s : ContextStore) : Prop :=
  ∀ d ∈ s.derivations, ∃ cx cx', s.contexts[d.parent]? = some cx ∧
    s.contexts[d.child]? = some cx' ∧ HandsDown s.flags d.inherits cx cx'

theorem getElem?_append_of_some {cxs : List Context} {i : Nat} {cx : Context} (l : List Context)
    (h : cxs[i]? = some cx) : (cxs ++ l)[i]? = some cx := by
  obtain ⟨hlt, _⟩ := List.getElem?_eq_some_iff.mp h
  rw [List.getElem?_append_left hlt, h]

theorem lt_length_of_used {flags : CancellationFlags} {f : Nat}
    (hused : flags.getD f false = true) : f < flags.length := by
  by_contra hge
  rw [List.getD_eq_default _ _ (Nat.not_lt.mp hge)] at hused
  exact Bool.false_ne_true hused

theorem used_append {flags : CancellationFlags} {f : Nat} (b : Bool)
    (hused : flags.getD f false = true) : (flags ++ [b]).getD f false = true := by
  rwa [List.getD_append _ _ _ _ (lt_length_of_used hused)]

theorem used_cancel {flags : CancellationFlags} {f : Nat} (h : CancellationHandle)
    (hused : flags.getD f false = true) : (h.cancel flags).getD f false = true := by
  have hlt := lt_length_of_used hused
  rw [List.getD_eq_getElem?_getD] at hused
  rw [CancellationHandle.cancel, List.getD_eq_getElem?_getD, List.getElem?_set]
  by_cases hf : h.flag = f
  · simp [hf, hlt]
  · simpa [hf] using hused

/-- What a call does, where it may ask for a deadline: it makes no context, or a first one, or one
from another, whose deadline is the earlier one of the other's and of what is asked for. If the new
context takes part in the cancellation of the other, it has the other's flag or one that is set
already. No handle's use is taken back. -/
inductive Makes (s : ContextStore) (request : Option Time) (s' : ContextStore) : Prop
  | nothing (hcontexts : s'.contexts = s.contexts) (hderivations : s'.derivations = s.derivations)
    (hused : ∀ f : Nat, s.flags.getD f false = true → s'.flags.getD f false = true)
  | first (hcontexts : s'.contexts = s.contexts ++ [.unlimited])
    (hderivations : s'.derivations = s.derivations) (hflags : s'.flags = s.flags)
    (hrequest : request = none)
  | derived (parent : Nat) (inherits : Bool) (cx cx' : Context)
    (hparent : s.contexts[parent]? = some cx) (hcontexts : s'.contexts = s.contexts ++ [cx'])
    (hderivations : s'.derivations = s.derivations ++ [⟨parent, s.contexts.length, inherits⟩])
    (hused : ∀ f : Nat, s.flags.getD f false = true → s'.flags.getD f false = true)
    (hflag : inherits = true → cx'.flag = cx.flag ∨ cx'.flag.any (s'.flags.getD · false) = true)
    (hdeadline : cx'.deadline = cx.deadline.merge min request)

theorem deadline_withTimeout (cx : Context) (now : Time) (timeout : Span) (parent : Nat) :
    (cx.withTimeout now timeout).deadline =
      cx.deadline.merge min ((ContextCall.withTimeout parent timeout).request? now) := by
  rw [Context.withTimeout, ContextCall.request?]
  by_cases hrange : now + timeout < Time.limit
  · rw [if_pos hrange]
    cases cx.deadline <;> rfl
  · rw [if_neg hrange]
    cases cx.deadline <;> rfl

theorem makes_call (s : ContextStore) (now : Time) (c : ContextCall) :
    s.Makes (c.request? now) (s.call now c) := by
  cases c with
  | new => exact .first rfl rfl rfl rfl
  | clone parent =>
    rw [ContextStore.call]
    split
    · exact .nothing rfl rfl fun _ => id
    · next cx hparent =>
      exact .derived parent true cx cx hparent rfl rfl (fun _ => id) (fun _ => .inl rfl)
        Option.merge_none_right.symm
  | withCancellation parent =>
    rw [ContextStore.call]
    split
    · exact .nothing rfl rfl fun _ => id
    · next cx hparent =>
      refine .derived parent _ cx _ hparent rfl rfl (fun _ => used_append _)
        (fun hcancelled => .inr ?_) Option.merge_none_right.symm
      simp [Context.withCancellation, hcancelled]
  | withTimeout parent timeout =>
    rw [ContextStore.call]
    split
    · exact .nothing rfl rfl fun _ => id
    · next cx hparent =>
      exact .derived parent true cx _ hparent rfl rfl (fun _ => id) (fun _ => .inl rfl)
        (deadline_withTimeout cx now timeout parent)
  | cancel handle =>
    rw [ContextStore.call]
    split
    · exact .nothing rfl rfl fun _ => id
    · next h _ => exact .nothing rfl rfl fun _ => used_cancel h

theorem makes_snoc (calls : List (Time × ContextCall)) (c : Time × ContextCall) :
    (run calls).Makes (c.2.request? c.1) (run (calls ++ [c])) := by
  rw [run_snoc]
  exact makes_call (run calls) c.1 c.2

/-- A call leaves the contexts as they are and takes no handle's use back. -/
theorem Makes.extends {request : Option Time} (h : s.Makes request s') : s.Extends s' := by
  cases h with
  | nothing hcontexts _ hused =>
    refine ⟨fun hcx => ?_, hused _⟩
    rwa [hcontexts]
  | first hcontexts _ hflags _ =>
    refine ⟨fun hcx => ?_, fun hf => ?_⟩
    · rw [hcontexts]
      exact getElem?_append_of_some _ hcx
    · rwa [hflags]
  | derived _ _ _ cx' _ hcontexts _ hused _ _ =>
    refine ⟨fun hcx => ?_, hused _⟩
    rw [hcontexts]
    exact getElem?_append_of_some _ hcx

theorem isExpired_of_merge {cx cx' : Context} {request : Option Time} {now : Time}
    (hdeadline : cx'.deadline = cx.deadline.merge min request) (h : cx.isExpired now = true) :
    cx'.isExpired now = true := by
  rw [Context.isExpired, Option.any_eq_true] at h
  obtain ⟨t, ht, hreached⟩ := h
  rw [Context.isExpired, hdeadline, ht]
  cases request with
  | none => exact hreached
  | some t' => exact decide_eq_true ((min_le_left t t').trans (of_decide_eq_true hreached))

theorem Sound.makes {request : Option Time} (h : s.Sound) (hmakes : s.Makes request s') :
    s'.Sound := by
  have hext := hmakes.extends
  have hold {d : Derivation} (hd : d ∈ s.derivations) : ∃ cx cx',
      s'.contexts[d.parent]? = some cx ∧ s'.contexts[d.child]? = some cx' ∧
        HandsDown s'.flags d.inherits cx cx' := by
    obtain ⟨cx, cx', hparent, hchild, hdown⟩ := h d hd
    exact ⟨cx, cx', hext.contexts hparent, hext.contexts hchild, hdown.extends hext⟩
  cases hmakes with
  | nothing _ hderivations _ => exact fun d hd => hold (hderivations ▸ hd)
  | first _ hderivations _ _ => exact fun d hd => hold (hderivations ▸ hd)
  | derived parent inherits cx cx' hparent hcontexts hderivations _ hflag hdeadline =>
    intro d hd
    rw [hderivations] at hd
    rcases List.mem_append.mp hd with hd | hd
    · exact hold hd
    · obtain rfl := List.mem_singleton.mp hd
      refine ⟨cx, cx', hext.contexts hparent, ?_, isExpired_of_merge hdeadline, hflag⟩
      rw [hcontexts]
      exact List.getElem?_concat_length

theorem sound_run (calls : List (Time × ContextCall)) : (run calls).Sound := by
  induction calls using List.reverseRecOn with
  | nil => simp [run, Sound]
  | append_singleton calls c ih => exact ih.makes (makes_snoc calls c)

theorem Sound.isExpired {d : Derivation} {now : Time} (h : s.Sound) (hd : d ∈ s.derivations)
    (hp : s.isExpired now d.parent = true) : s.isExpired now d.child = true := by
  obtain ⟨cx, cx', hparent, hchild, hdown⟩ := h d hd
  rw [ContextStore.isExpired, hparent] at hp
  rw [ContextStore.isExpired, hchild]
  exact hdown.deadline hp

theorem Sound.isCancelled {d : Derivation} {now : Time} (h : s.Sound) (hd : d ∈ s.derivations)
    (hi : d.inherits = true) (hp : s.isCancelled now d.parent = true) :
    s.isCancelled now d.child = true := by
  obtain ⟨cx, cx', hparent, hchild, hdown⟩ := h d hd
  rw [ContextStore.isCancelled, hparent] at hp
  rw [ContextStore.isCancelled, hchild]
  exact (hi ▸ hdown).isCancelled hp

theorem isCancelled_of_isExpired {i : Nat} {now : Time} (h : s.isExpired now i = true) :
    s.isCancelled now i = true := by
  rw [ContextStore.isExpired, Option.any_eq_true] at h
  obtain ⟨cx, hcx, h⟩ := h
  rw [ContextStore.isCancelled, hcx]
  exact Bool.or_eq_true_iff.mpr (.inr h)

/-- Cancellation along derivations, in every run of calls and at every time. A context derived
from one whose deadline is reached is out of time itself. A context derived from a cancelled one is
cancelled, whenever that happened, if every handle made on the way was made for a context that was
cancelled already. -/
theorem cancellation_inherited (calls : List (Time × ContextCall)) (now : Time) :
    let s := run calls
    (∀ i j, s.Derives i j → s.isExpired now i = true →
      s.isExpired now j = true ∧ s.isCancelled now j = true) ∧
    ∀ i j, s.Inherits i j → s.isCancelled now i = true → s.isCancelled now j = true := by
  intro s
  have hsound : s.Sound := sound_run calls
  refine ⟨fun i j hderives hi => ?_, fun i j hinherits hi => ?_⟩
  -- what holds of the first context is carried along the steps of the derivation
  · suffices hj : s.isExpired now j = true from ⟨hj, isCancelled_of_isExpired hj⟩
    induction hderives with
    | single hstep =>
      obtain ⟨d, hmem, rfl, rfl⟩ := hstep
      exact hsound.isExpired hmem hi
    | tail _ hstep ih =>
      obtain ⟨d, hmem, rfl, rfl⟩ := hstep
      exact hsound.isExpired hmem ih
  · induction hinherits with
    | single hstep =>
      obtain ⟨d, hmem, rfl, rfl, hd⟩ := hstep
      exact hsound.isCancelled hmem hd hi
    | tail _ hstep ih =>
      obtain ⟨d, hmem, rfl, rfl, hd⟩ := hstep
      exact hsound.isCancelled hmem hd ih

/-- A handle is used after a context with a timeout was made from its own, and then another handle
is asked for; all of these contexts are cancelled. So is, in the end, the last one, whose deadline
is that of the context before it. -/
theorem cancellation_inherited_shutdown :
    let s := run [(5, .new), (5, .withCancellation 0), (6, .withTimeout 1 60), (7, .cancel 0),
      (8, .withCancellation 2), (8, .withTimeout 0 1), (8, .withCancellation 4)]
    s.Inherits 1 3 ∧ s.isCancelled 10 1 = true ∧ s.isCancelled 10 3 = true ∧
      s.Derives 4 5 ∧ s.isExpired 10 4 = true ∧ s.isCancelled 10 5 = true := by
  intro s
  have hinherits : s.Inherits 1 3 :=
    .tail (.single ⟨⟨1, 2, true⟩, by decide, rfl, rfl, rfl⟩)
      ⟨⟨2, 3, true⟩, by decide, rfl, rfl, rfl⟩
  have hderives : s.Derives 4 5 := .single ⟨⟨4, 5, false⟩, by decide, rfl, rfl⟩
  obtain ⟨hexpired, hcancelled⟩ := cancellation_inherited _ 10
  exact ⟨hinherits, by decide, hcancelled 1 3 hinherits (by decide),
    hderives, by decide, (hexpired 4 5 hderives (by decide)).2⟩

/-- A context with a handle of its own is made from one that has a handle, and then the first
handle is used: the derived context is not cancelled. -/
theorem later_cancellation_not_inherited :
    let s := run [(0, .new), (0, .withCancellation 0), (0, .withCancellation 1), (0, .cancel 0)]
    s.Derives 1 2 ∧ s.isCancelled 0 1 = true ∧ s.isCancelled 0 2 = false := by
  intro s
  exact ⟨.single ⟨⟨1, 2, false⟩, by decide, rfl, rfl⟩, by decide, by decide⟩

end ContextStore
end Metering
