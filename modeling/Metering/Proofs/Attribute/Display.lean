import Mathlib.Data.List.Basic
import Metering.Attribute.Display

/-!
# The display encoding is unambiguous

An escaped text holds no comma and no equals sign without a backslash in front of it, so it ends
where the first such character stands. Keys and values are therefore found again one after the
other, and two lists of attributes are displayed alike only if they show the same texts.
-/

namespace Metering.Display

/-! ## Escaped texts -/

/-- Whether nothing follows, or a separator without a mark. -/
def AtSeparator (cs : List Char) : Prop := ∀ c ∈ cs.head?, c = ',' ∨ c = '='

theorem atSeparator_nil : AtSeparator [] := by simp [AtSeparator]

theorem atSeparator_comma (cs : List Char) : AtSeparator (',' :: cs) := by simp [AtSeparator]

theorem atSeparator_equals (cs : List Char) : AtSeparator ('=' :: cs) := by simp [AtSeparator]

theorem escape_cons_of_special {c : Char} (hc : isSpecial c = true) (cs : List Char) :
    escape (c :: cs) = '\\' :: c :: escape cs := if_pos hc

theorem escape_cons_of_not_special {c : Char} (hc : ¬isSpecial c = true) (cs : List Char) :
    escape (c :: cs) = c :: escape cs := if_neg hc

/-- What an escaped character begins with is no separator: a special one has its mark first. -/
theorem not_atSeparator_escape_cons (c : Char) (cs rest : List Char) :
    ¬AtSeparator (escape (c :: cs) ++ rest) := by
  intro h
  by_cases hc : isSpecial c
  · rw [escape_cons_of_special hc] at h
    simp [AtSeparator] at h
  · rw [escape_cons_of_not_special hc] at h
    rcases h c rfl with rfl | rfl <;> exact hc rfl

theorem escape_cons_append_inj {a b : Char} {as bs s t : List Char}
    (h : escape (a :: as) ++ s = escape (b :: bs) ++ t) :
    a = b ∧ escape as ++ s = escape bs ++ t := by
  have hmark {c : Char} (hc : ¬isSpecial c) : c ≠ '\\' := by
    rintro rfl
    exact hc rfl
  by_cases ha : isSpecial a
  · rw [escape_cons_of_special ha] at h
    by_cases hb : isSpecial b
    · rw [escape_cons_of_special hb] at h
      exact List.cons_eq_cons.mp (List.cons.inj h).2
    · rw [escape_cons_of_not_special hb] at h
      exact absurd (List.cons.inj h).1.symm (hmark hb)
  · rw [escape_cons_of_not_special ha] at h
    by_cases hb : isSpecial b
    · rw [escape_cons_of_special hb] at h
      exact absurd (List.cons.inj h).1 (hmark ha)
    · rw [escape_cons_of_not_special hb] at h
      exact List.cons_eq_cons.mp h

theorem escape_append_inj {as bs s t : List Char} (hs : AtSeparator s) (ht : AtSeparator t)
    (h : escape as ++ s = escape bs ++ t) : as = bs ∧ s = t := by
  induction as generalizing bs with
  | nil =>
    cases bs with
    | nil => exact ⟨rfl, h⟩
    | cons b bs =>
      have hs' : AtSeparator (escape (b :: bs) ++ t) := h ▸ hs
      exact absurd hs' (not_atSeparator_escape_cons b bs t)
  | cons a as ih =>
    cases bs with
    | nil =>
      have ht' : AtSeparator (escape (a :: as) ++ s) := h ▸ ht
      exact absurd ht' (not_atSeparator_escape_cons a as s)
    | cons b bs =>
      obtain ⟨rfl, htail⟩ := escape_cons_append_inj h
      obtain ⟨rfl, hst⟩ := ih htail
      exact ⟨rfl, hst⟩

/-! ## Attributes -/

theorem toList_keyValue (kv : KeyValue) :
    (keyValue kv).toList = escape kv.key.toList ++ '=' :: escape kv.value.text.toList := by
  simp [keyValue, String.toList_append]

/-- What an attribute shows: its key, and its value as text. -/
def shown (kv : KeyValue) : String × String := (kv.key, kv.value.text)

theorem keyValue_append_inj {a b : KeyValue} {s t : List Char} (hs : AtSeparator s)
    (ht : AtSeparator t) (h : (keyValue a).toList ++ s = (keyValue b).toList ++ t) :
    shown a = shown b ∧ s = t := by
  rw [toList_keyValue, toList_keyValue, List.append_assoc, List.append_assoc, List.cons_append,
    List.cons_append] at h
  obtain ⟨hkey, hvalue⟩ := escape_append_inj (atSeparator_equals _) (atSeparator_equals _) h
  obtain ⟨htext, hst⟩ := escape_append_inj hs ht (List.cons.inj hvalue).2
  exact ⟨Prod.ext (String.toList_inj.mp hkey) (String.toList_inj.mp htext), hst⟩

/-- What follows the first attribute: the others, each behind a comma. -/
def later (kvs : List KeyValue) : List Char := kvs.flatMap fun kv => ',' :: (keyValue kv).toList

theorem atSeparator_later (kvs : List KeyValue) : AtSeparator (later kvs) := by
  cases kvs with
  | nil => exact atSeparator_nil
  | cons kv kvs => exact atSeparator_comma _

theorem toList_encode_cons (kv : KeyValue) (kvs : List KeyValue) :
    (encode (kv :: kvs)).toList = (keyValue kv).toList ++ later kvs := by
  induction kvs generalizing kv with
  | nil => simp [encode, later]
  | cons kv' kvs ih =>
    have hcons : encode (kv :: kv' :: kvs) = keyValue kv ++ "," ++ encode (kv' :: kvs) :=
      String.intercalate_cons_cons
    rw [hcons, String.toList_append, String.toList_append, ih kv', List.append_assoc]
    rfl

theorem shown_of_later_eq {as bs : List KeyValue} (h : later as = later bs) :
    as.map shown = bs.map shown := by
  induction as generalizing bs with
  | nil =>
    cases bs with
    | nil => rfl
    | cons b bs => cases h
  | cons a as ih =>
    cases bs with
    | nil => cases h
    | cons b bs =>
      have hbehind := (List.cons.inj h).2
      obtain ⟨hshown, hlater⟩ :=
        keyValue_append_inj (atSeparator_later as) (atSeparator_later bs) hbehind
      rw [List.map_cons, List.map_cons, hshown, ih hlater]

theorem encode_eq_empty_iff {kvs : List KeyValue} : encode kvs = "" ↔ kvs = [] := by
  cases kvs with
  | nil => exact ⟨fun _ => rfl, fun _ => rfl⟩
  | cons kv kvs =>
    have hne : encode (kv :: kvs) ≠ "" := by
      intro h
      have hlist := congrArg String.toList h
      rw [toList_encode_cons, toList_keyValue] at hlist
      simp at hlist
    simp [hne]

theorem shown_of_encode_eq {as bs : List KeyValue} (h : encode as = encode bs) :
    as.map shown = bs.map shown := by
  cases as with
  | nil => rw [encode_eq_empty_iff.mp h.symm]
  | cons a as =>
    cases bs with
    | nil => rw [encode_eq_empty_iff.mp h]
    | cons b bs =>
      have hlist := congrArg String.toList h
      rw [toList_encode_cons, toList_encode_cons] at hlist
      obtain ⟨hshown, hlater⟩ :=
        keyValue_append_inj (atSeparator_later as) (atSeparator_later bs) hlist
      rw [List.map_cons, List.map_cons, hshown, shown_of_later_eq hlater]

theorem encode_congr {as bs : List KeyValue} (h : as.map shown = bs.map shown) :
    encode as = encode bs := by
  have hwritten (kvs : List KeyValue) : kvs.map keyValue = (kvs.map shown).map fun texts =>
      String.ofList (escape texts.1.toList) ++ "=" ++ String.ofList (escape texts.2.toList) := by
    rw [List.map_map]
    rfl
  rw [encode, encode, hwritten, hwritten, h]

/-- Two lists of attributes are displayed alike if and only if they have the same length and show
the same texts place by place, whatever separators and marks are in the texts. Only the empty list
is displayed as the empty text. -/
theorem displays_agree_iff :
    (∀ as bs : List KeyValue, encode as = encode bs ↔
      as.length = bs.length ∧ ∀ (i : Nat) (ha : i < as.length) (hb : i < bs.length),
        as[i].key = bs[i].key ∧ as[i].value.text = bs[i].value.text) ∧
      ∀ kvs : List KeyValue, encode kvs = "" ↔ kvs = [] := by
  refine ⟨fun as bs => ⟨fun h => ?_, fun ⟨hlen, h⟩ => ?_⟩, fun kvs => encode_eq_empty_iff⟩
  · have hshown := shown_of_encode_eq h
    have hlen : as.length = bs.length := by simpa using congrArg List.length hshown
    refine ⟨hlen, fun i ha hb => ?_⟩
    have hi : shown as[i] = shown bs[i] := by
      simpa [ha, hb] using congrArg (·[i]?) hshown
    exact Prod.mk.inj hi
  · apply encode_congr
    apply List.ext_getElem (by simpa using hlen)
    intro i ha hb
    rw [List.getElem_map, List.getElem_map]
    obtain ⟨hkey, htext⟩ := h i (by simpa using ha) (by simpa using hb)
    exact Prod.ext hkey htext

end Metering.Display
