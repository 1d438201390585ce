import Metering.Attribute.Canonical
import Metering.Proofs.Text.Numeral

/-!
# The canonical encoding is injective

Every part of an encoding tells where it ends: texts by the length in front, numerals by the mark
behind, doubles by their width, and values by their letters. So a text that begins with an
encoding determines what was encoded, and the lists of attributes with one encoding are the same.
-/

namespace Metering.Canonical

/-- An encoding of which a text has at most one at its beginning. -/
def SelfDelimiting {α : Type} (f : α → String) : Prop :=
  ∀ ⦃a b : α⦄ ⦃s t : String⦄, f a ++ s = f b ++ t → a = b ∧ s = t

variable {α : Type} {f : α → String}

theorem SelfDelimiting.join (h : SelfDelimiting f) {as bs : List α} {s t : String}
    (hlen : as.length = bs.length)
    (hst : String.join (as.map f) ++ s = String.join (bs.map f) ++ t) : as = bs ∧ s = t := by
  induction as generalizing bs with
  | nil =>
    obtain rfl : bs = [] := List.length_eq_zero_iff.mp hlen.symm
    simpa using hst
  | cons a as ih =>
    cases bs with
    | nil => simp at hlen
    | cons b bs =>
      simp only [List.map_cons, String.join_cons, String.append_assoc] at hst
      obtain ⟨hab, htail⟩ := h hst
      obtain ⟨has, hst⟩ := ih (by simpa using hlen) htail
      exact ⟨by rw [hab, has], hst⟩

/-! ## Numbers and texts -/

theorem ofNat_append_inj {m n : Nat} (mark : Char) (hmark : mark.isDigit = false) {s t : String}
    (h : Numeral.ofNat m ++ (String.singleton mark ++ s) =
      Numeral.ofNat n ++ (String.singleton mark ++ t)) : m = n ∧ s = t := by
  have hlist := congrArg String.toList h
  simp only [Numeral.ofNat, String.toList_append, String.toList_ofList, String.toList_singleton,
    List.singleton_append] at hlist
  obtain ⟨hmn, hst⟩ := Numeral.decimal_append_inj hmark hlist
  exact ⟨hmn, String.toList_inj.mp hst⟩

theorem append_inj_of_size {a b s t : String} (hsize : a.utf8ByteSize = b.utf8ByteSize)
    (h : a ++ s = b ++ t) : a = b ∧ s = t := by
  have hlist := congrArg String.toList h
  simp only [String.toList_append, List.append_eq_append_iff] at hlist
  -- one text begins the other, and nothing of the longer one is left over
  have hrest {c d : String} {cs : List Char} (hcd : c.utf8ByteSize = d.utf8ByteSize)
      (hd : d.toList = c.toList ++ cs) : d = c := by
    have hd : d = c ++ String.ofList cs := by
      rw [← String.toList_inj, hd, String.toList_append, String.toList_ofList]
    have hempty : (String.ofList cs).utf8ByteSize = 0 := by
      have := congrArg String.utf8ByteSize hd
      rw [String.utf8ByteSize_append] at this
      omega
    rw [hd, String.utf8ByteSize_eq_zero_iff.mp hempty, String.append_empty]
  have hab : a = b := by
    rcases hlist with ⟨cs, hb, -⟩ | ⟨cs, ha, -⟩
    · exact (hrest hsize hb).symm
    · exact hrest hsize.symm ha
  subst hab
  exact ⟨rfl, (String.append_right_inj a).mp h⟩

theorem selfDelimiting_sized : SelfDelimiting sized := fun a b s t h => by
  simp only [sized, String.append_assoc] at h
  obtain ⟨hsize, hst⟩ := ofNat_append_inj ':' rfl h
  exact append_inj_of_size hsize hst

theorem selfDelimiting_flag : SelfDelimiting flag := fun a b s t h => by
  have hlist := congrArg String.toList h
  simp only [String.toList_append] at hlist
  obtain ⟨hab, hst⟩ := List.append_inj hlist (by cases a <;> cases b <;> rfl)
  exact ⟨by revert hab; cases a <;> cases b <;> decide, String.toList_inj.mp hst⟩

theorem ofNat_append_ne_minus (n : Nat) (s t : String) : Numeral.ofNat n ++ s ≠ "-" ++ t := by
  intro h
  have hlist := congrArg String.toList h
  simp only [Numeral.ofNat, String.toList_append, String.toList_ofList] at hlist
  cases hd : Numeral.inBase 10 n with
  | nil => exact Numeral.inBase_ne_nil n hd
  | cons c cs =>
    have hc : c.isDigit := Numeral.isDigit_of_mem_decimal (hd ▸ List.mem_cons_self)
    rw [hd] at hlist
    obtain ⟨rfl, -⟩ := List.cons_eq_cons.mp hlist
    exact absurd hc (by decide)

theorem ofInt_append_inj {i j : Int} (mark : Char) (hmark : mark.isDigit = false) {s t : String}
    (h : Numeral.ofInt i ++ (String.singleton mark ++ s) =
      Numeral.ofInt j ++ (String.singleton mark ++ t)) : i = j ∧ s = t := by
  unfold Numeral.ofInt at h
  split at h <;> split at h
  next hi hj =>
    rw [String.append_assoc, String.append_assoc, String.append_right_inj] at h
    obtain ⟨habs, hst⟩ := ofNat_append_inj mark hmark h
    exact ⟨by omega, hst⟩
  next hi hj =>
    rw [String.append_assoc] at h
    exact absurd h.symm (ofNat_append_ne_minus _ _ _)
  next hi hj =>
    rw [String.append_assoc] at h
    exact absurd h (ofNat_append_ne_minus _ _ _)
  next hi hj =>
    obtain ⟨habs, hst⟩ := ofNat_append_inj mark hmark h
    exact ⟨by omega, hst⟩

theorem selfDelimiting_int : SelfDelimiting int := fun i j s t h => by
  simp only [int, Numeral.ofInt64, String.append_assoc] at h
  obtain ⟨hij, hst⟩ := ofInt_append_inj ';' rfl h
  exact ⟨Int64.toInt_inj.mp hij, hst⟩

theorem length_float (x : Binary64) : (float x).toList.length = 16 := by
  rw [String.length_toList]
  exact Numeral.length_paddedHex x.bits.toNat_lt

theorem selfDelimiting_float : SelfDelimiting float := fun x y s t h => by
  have hlist := congrArg String.toList h
  rw [String.toList_append, String.toList_append] at hlist
  obtain ⟨hxy, hst⟩ := List.append_inj hlist (by rw [length_float, length_float])
  rw [float, float, Numeral.paddedHex, Numeral.paddedHex, String.toList_ofList,
    String.toList_ofList] at hxy
  have hword : x.word = y.word := Numeral.padLeft_inBase_inj (by decide) (by decide) hxy
  obtain ⟨bits⟩ := x
  obtain ⟨bits'⟩ := y
  exact ⟨congrArg Binary64.mk (UInt64.toNat_inj.mp hword), String.toList_inj.mp hst⟩

theorem selfDelimiting_list {item : α → String} (h : SelfDelimiting item) (letter : String) :
    SelfDelimiting (list letter item) := fun as bs s t hst => by
  simp only [list, String.append_assoc, String.append_right_inj] at hst
  obtain ⟨hlen, hst⟩ := ofNat_append_inj ':' rfl hst
  exact h.join hlen hst

/-! ## Values -/

/-- The letter with which the encoding of a value begins. -/
def letter : Value → Char
  | .bool _ => 'b'
  | .int _ => 'i'
  | .float _ => 'f'
  | .string _ => 's'
  | .bools _ => 'B'
  | .ints _ => 'I'
  | .floats _ => 'F'
  | .strings _ => 'S'
  | .unsupported _ => 'u'

theorem head?_value (v : Value) (s : String) :
    (value v ++ s).toList.head? = some (letter v) := by
  cases v <;> simp [value, list, letter, String.toList_append]

theorem selfDelimiting_value : SelfDelimiting value := fun v w s t h => by
  have hletter : letter v = letter w := by
    rw [← Option.some_inj, ← head?_value v s, ← head?_value w t, h]
  cases v with
  | bool a =>
    cases w with
    | bool b =>
      simp only [value, String.append_assoc, String.append_right_inj] at h
      exact (selfDelimiting_flag h).imp_left (congrArg _)
    | _ => exact absurd hletter (by simp [letter])
  | int i =>
    cases w with
    | int j =>
      simp only [value, String.append_assoc, String.append_right_inj] at h
      exact (selfDelimiting_int h).imp_left (congrArg _)
    | _ => exact absurd hletter (by simp [letter])
  | float x =>
    cases w with
    | float y =>
      simp only [value, String.append_assoc, String.append_right_inj] at h
      exact (selfDelimiting_float h).imp_left (congrArg _)
    | _ => exact absurd hletter (by simp [letter])
  | string a =>
    cases w with
    | string b =>
      simp only [value, String.append_assoc, String.append_right_inj] at h
      exact (selfDelimiting_sized h).imp_left (congrArg _)
    | _ => exact absurd hletter (by simp [letter])
  | bools as =>
    cases w with
    | bools bs => exact (selfDelimiting_list selfDelimiting_flag _ h).imp_left (congrArg _)
    | _ => exact absurd hletter (by simp [letter])
  | ints is =>
    cases w with
    | ints js => exact (selfDelimiting_list selfDelimiting_int _ h).imp_left (congrArg _)
    | _ => exact absurd hletter (by simp [letter])
  | floats xs =>
    cases w with
    | floats ys => exact (selfDelimiting_list selfDelimiting_float _ h).imp_left (congrArg _)
    | _ => exact absurd hletter (by simp [letter])
  | strings as =>
    cases w with
    | strings bs => exact (selfDelimiting_list selfDelimiting_sized _ h).imp_left (congrArg _)
    | _ => exact absurd hletter (by simp [letter])
  | unsupported a =>
    cases w with
    | unsupported b =>
      simp only [value, String.append_assoc, String.append_right_inj] at h
      exact (selfDelimiting_sized h).imp_left (congrArg _)
    | _ => exact absurd hletter (by simp [letter])

theorem selfDelimiting_keyValue : SelfDelimiting keyValue := fun a b s t h => by
  obtain ⟨key, v⟩ := a
  obtain ⟨key', w⟩ := b
  simp only [keyValue, String.append_assoc] at h
  obtain ⟨rfl, hvalue⟩ := selfDelimiting_sized h
  obtain ⟨rfl, hst⟩ := selfDelimiting_value hvalue
  exact ⟨rfl, hst⟩

/-! ## Lists of attributes -/

theorem keyValue_append_ne_empty (kv : KeyValue) (s : String) : keyValue kv ++ s ≠ "" := by
  intro h
  have hlist := congrArg String.toList h
  simp [keyValue, sized, String.toList_append] at hlist

theorem encode_cons (kv : KeyValue) (kvs : List KeyValue) :
    encode (kv :: kvs) = keyValue kv ++ encode kvs := by
  simp [encode]

/-- Attributes are told apart one after the other. The encoding of an attribute is not empty, so
that the end of the text is the end of the list. -/
theorem encode_inj {as bs : List KeyValue} (h : encode as = encode bs) : as = bs := by
  induction as generalizing bs with
  | nil =>
    cases bs with
    | nil => rfl
    | cons b bs => exact absurd (encode_cons b bs ▸ h).symm (keyValue_append_ne_empty b _)
  | cons a as ih =>
    cases bs with
    | nil => exact absurd (encode_cons a as ▸ h) (keyValue_append_ne_empty a _)
    | cons b bs =>
      rw [encode_cons, encode_cons] at h
      obtain ⟨rfl, htail⟩ := selfDelimiting_keyValue h
      rw [ih htail]

/-- The canonical encoding is injective and that of attributes prefix-free: two lists have the
same encoding if they agree place by place in keys and values, doubles by their bits, and what
follows the encoding of an attribute in that of another one is nothing. -/
theorem encode_eq_iff :
    (∀ as bs : List KeyValue, encode as = encode bs ↔
      as.length = bs.length ∧ ∀ (i : Nat) (ha : i < as.length) (hb : i < bs.length),
        as[i].key = bs[i].key ∧ as[i].value = bs[i].value) ∧
      ∀ (a b : KeyValue) (rest : String), encode [a] ++ rest = encode [b] ↔ a = b ∧ rest = "" := by
  refine ⟨fun as bs => ⟨fun h => ?_, fun ⟨hlen, h⟩ => ?_⟩, fun a b rest => ⟨fun h => ?_, ?_⟩⟩
  · obtain rfl := encode_inj h
    exact ⟨rfl, fun _ _ _ => ⟨rfl, rfl⟩⟩
  · refine congrArg encode (List.ext_getElem hlen fun i ha hb => ?_)
    obtain ⟨hkey, hvalue⟩ := h i ha hb
    cases ha' : as[i]
    cases hb' : bs[i]
    simp_all
  · simp only [encode, List.map_cons, List.map_nil, String.join_cons, String.join_nil,
      String.append_empty] at h
    exact selfDelimiting_keyValue (h.trans String.append_empty.symm)
  · rintro ⟨rfl, rfl⟩
    exact String.append_empty

end Metering.Canonical
