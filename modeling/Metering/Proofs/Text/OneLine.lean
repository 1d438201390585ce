import Mathlib.Data.List.Basic
import Metering.Context
import Metering.Number
import Metering.Proofs.Text.Numeral
import Metering.Text.Quoted

/-!
# Texts on one line

Numerals, quoted texts and what is put together from them hold no line break, so each of them
stays on one line whatever is written.
-/

namespace Metering

namespace Text

/-- Whether a text has no line break. -/
def OneLine (s : String) : Prop := '\n' ∉ s.toList

instance (s : String) : Decidable (OneLine s) := inferInstanceAs (Decidable ('\n' ∉ s.toList))

variable {s t : String} {ss : List String} {cs : List Char}

@[simp] theorem oneLine_append : OneLine (s ++ t) ↔ OneLine s ∧ OneLine t := by
  simp [OneLine, String.toList_append, not_or]

@[simp] theorem oneLine_ofList : OneLine (String.ofList cs) ↔ '\n' ∉ cs := by simp [OneLine]

theorem OneLine.join (h : ∀ s ∈ ss, OneLine s) : OneLine (String.join ss) := by
  induction ss with
  | nil => decide
  | cons s ss ih =>
    obtain ⟨hs, hss⟩ := List.forall_mem_cons.mp h
    rw [String.join_cons, oneLine_append]
    exact ⟨hs, ih hss⟩

theorem OneLine.intercalate (ht : OneLine t) (h : ∀ s ∈ ss, OneLine s) :
    OneLine (t.intercalate ss) := by
  induction ss with
  | nil =>
    rw [String.intercalate_nil]
    decide
  | cons s ss ih =>
    obtain ⟨hs, hss⟩ := List.forall_mem_cons.mp h
    cases ss with
    | nil =>
      rw [String.intercalate_singleton]
      exact hs
    | cons s' ss =>
      rw [String.intercalate_cons_cons, oneLine_append, oneLine_append]
      exact ⟨⟨hs, ht⟩, ih hss⟩

end Text

open Text (OneLine)

/-! ## Numerals -/

namespace Numeral

theorem digitChar_ne_newline : ∀ d < 16, Nat.digitChar d ≠ '\n' := by decide

theorem newline_notMem_inBase {base : Nat} (hb : 2 ≤ base) (hb' : base ≤ 16) (n : Nat) :
    '\n' ∉ inBase base n := by
  intro h
  obtain ⟨d, hd, hnewline⟩ := List.mem_map.mp h
  exact digitChar_ne_newline d (Nat.lt_of_lt_of_le (lt_of_mem_digits hb hd) hb') hnewline

@[simp] theorem oneLine_ofNat (n : Nat) : OneLine (ofNat n) :=
  Text.oneLine_ofList.mpr (newline_notMem_inBase (by decide) (by decide) n)

@[simp] theorem oneLine_hex (n : Nat) : OneLine (hex n) :=
  Text.oneLine_ofList.mpr (newline_notMem_inBase (by decide) (by decide) n)

@[simp] theorem oneLine_ofInt (i : Int) : OneLine (ofInt i) := by
  rw [ofInt]
  split
  · exact Text.oneLine_append.mpr ⟨by decide, oneLine_ofNat _⟩
  · exact oneLine_ofNat _

end Numeral

namespace Decimal

variable {ds : List Char}

theorem oneLine_positional (h : '\n' ∉ ds) (point : Int) : OneLine (positional ds point) := by
  have hzeros (k : Nat) : '\n' ∉ List.replicate k '0' := fun hmem =>
    absurd (List.eq_of_mem_replicate hmem) (by decide)
  rw [positional]
  split
  · refine Text.oneLine_append.mpr ⟨by decide, Text.oneLine_ofList.mpr ?_⟩
    exact fun hmem => (List.mem_append.mp hmem).elim (hzeros _) h
  · simp only
    split
    · refine Text.oneLine_ofList.mpr ?_
      exact fun hmem => (List.mem_append.mp hmem).elim h (hzeros _)
    · have hfront : OneLine (String.ofList (ds.take point.toNat)) :=
        Text.oneLine_ofList.mpr fun hmem => h (List.mem_of_mem_take hmem)
      have hback : OneLine (String.ofList (ds.drop point.toNat)) :=
        Text.oneLine_ofList.mpr fun hmem => h (List.mem_of_mem_drop hmem)
      exact Text.oneLine_append.mpr ⟨Text.oneLine_append.mpr ⟨hfront, by decide⟩, hback⟩

theorem oneLine_exponential (h : '\n' ∉ ds) (point : Int) : OneLine (exponential ds point) := by
  have hpower {mantissa : List Char} (hm : '\n' ∉ mantissa) :
      OneLine (String.ofList mantissa ++ "e" ++ Numeral.ofInt (point - 1)) :=
    Text.oneLine_append.mpr
      ⟨Text.oneLine_append.mpr ⟨Text.oneLine_ofList.mpr hm, by decide⟩, Numeral.oneLine_ofInt _⟩
  match ds with
  | [] | [_] => exact hpower h
  | d :: e :: r => exact hpower (by simpa using h)

theorem oneLine_signed {s : String} (h : OneLine s) (x : Binary64) : OneLine (signed x s) := by
  rw [signed]
  split
  · exact Text.oneLine_append.mpr ⟨by decide, h⟩
  · exact h

@[simp] theorem oneLine_marked (x : Binary64) : OneLine (marked x) := by
  have hds : '\n' ∉ (shortest x).parts.1 := Numeral.oneLine_ofNat (shortest x).digits
  have hpositional := oneLine_positional hds (shortest x).parts.2
  rw [marked]
  split
  · decide
  split
  · exact oneLine_signed (by decide) x
  split
  · exact oneLine_signed (by decide) x
  simp only
  split
  · exact oneLine_signed (oneLine_exponential hds _) x
  split
  · exact oneLine_signed (Text.oneLine_append.mpr ⟨hpositional, by decide⟩) x
  · exact oneLine_signed hpositional x

end Decimal

@[simp] theorem Number.oneLine_inspect (kind : NumberKind) (n : Number) :
    OneLine (n.inspect kind) := by
  cases kind <;> simp [Number.inspect]

/-! ## Quoted and composite texts -/

namespace Text

theorem oneLine_escaped (c : Char) : OneLine (escaped c) := by
  rw [escaped]
  split_ifs with _ _ _ hnewline
  all_goals try decide
  · simpa [OneLine, eq_comm] using hnewline
  · exact oneLine_append.mpr ⟨oneLine_append.mpr ⟨by decide, Numeral.oneLine_hex _⟩, by decide⟩

theorem oneLine_quoted (s : String) : OneLine (quoted s) := by
  rw [quoted, oneLine_append, oneLine_append]
  refine ⟨⟨by decide, OneLine.join fun text htext => ?_⟩, by decide⟩
  obtain ⟨c, -, rfl⟩ := List.mem_map.mp htext
  exact oneLine_escaped c

theorem OneLine.record {name : String} {fields : List (String × String)} (hname : OneLine name)
    (hfields : ∀ f ∈ fields, OneLine f.1 ∧ OneLine f.2) : OneLine (record name fields) := by
  have hparts : OneLine (", ".intercalate (fields.map fun f => f.1 ++ ": " ++ f.2)) := by
    refine OneLine.intercalate (by decide) fun part hpart => ?_
    obtain ⟨f, hf, rfl⟩ := List.mem_map.mp hpart
    obtain ⟨hfield, htext⟩ := hfields f hf
    exact oneLine_append.mpr ⟨oneLine_append.mpr ⟨hfield, by decide⟩, htext⟩
  rw [Text.record]
  simp only
  split
  · exact hname
  · simp only [oneLine_append]
    exact ⟨⟨⟨hname, by decide⟩, hparts⟩, by decide⟩

theorem OneLine.listing (h : ∀ s ∈ ss, OneLine s) : OneLine (listing ss) := by
  simp only [Text.listing, oneLine_append]
  exact ⟨⟨by decide, OneLine.intercalate (by decide) h⟩, by decide⟩

theorem OneLine.optional {text? : Option String} (h : ∀ s ∈ text?, OneLine s) :
    OneLine (optional text?) := by
  cases text? with
  | none => decide
  | some s =>
    simp only [Text.optional, Text.applied, oneLine_append]
    exact ⟨⟨by decide, OneLine.intercalate (by decide) (by simpa using h)⟩, by decide⟩

end Text

theorem Time.oneLine_inspect {clock : String} (h : OneLine clock) (t : Time) :
    OneLine (t.inspect clock) := by
  refine Text.OneLine.record h ?_
  simp only [List.forall_mem_cons]
  exact ⟨⟨by decide, Numeral.oneLine_ofNat _⟩, ⟨by decide, Numeral.oneLine_ofNat _⟩, by simp⟩

end Metering
