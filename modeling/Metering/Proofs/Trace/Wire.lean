import Mathlib
import Metering.Proofs.Trace.Identifier
import Metering.Trace.Wire

/-!
# The binary form round trips

The messages that hold a context are described by where their bytes stand. Such a message is
split into its parts by reading its fields one after the other, and the parts are the message.
-/

namespace Metering.Wire

/-- The messages that hold a context: both identifiers with their tags, neither of them zero, and
then nothing at all or at least the flags with their tag. -/
structure Layout (bytes : List UInt8) : Prop where
  long : 27 ≤ bytes.length
  traceTag : bytes[1]? = some 0
  spanTag : bytes[18]? = some 1
  trace : ∃ b ∈ bytes.extract 2 18, b ≠ 0
  span : ∃ b ∈ bytes.extract 19 27, b ≠ 0
  flags : bytes.length = 27 ∨ 29 ≤ bytes.length ∧ bytes[27]? = some 2

/-! ## Fields -/

theorem field?_eq_some {tag : UInt8} {length : Nat} {bytes value rest : List UInt8} :
    field? tag length bytes = some (value, rest) ↔
      value.length = length ∧ bytes = tag :: (value ++ rest) := by
  cases bytes with
  | nil => simp [field?]
  | cons found bytes =>
    constructor
    · intro h
      simp only [field?, Option.ite_none_right_eq_some, Option.some.injEq, List.splitAt_eq,
        Prod.mk.injEq] at h
      obtain ⟨⟨rfl, hlen⟩, rfl, rfl⟩ := h
      exact ⟨List.length_take_of_le hlen, by rw [List.take_append_drop]⟩
    · rintro ⟨rfl, h⟩
      obtain ⟨rfl, rfl⟩ := List.cons_eq_cons.mp h
      rw [field?, if_pos ⟨rfl, by simp⟩, List.splitAt_eq, List.take_left, List.drop_left]

theorem flags?_eq_some {bytes : List UInt8} {flags : UInt8} :
    flags? bytes = some flags ↔ bytes = [] ∧ flags = 0 ∨ ∃ rest, bytes = 2 :: flags :: rest := by
  cases bytes with
  | nil => simpa [flags?] using eq_comm
  | cons found bytes =>
    simp only [flags?, Option.bind_eq_bind, Option.bind_eq_some_iff, Prod.exists, field?_eq_some]
    constructor
    · rintro ⟨value, rest, ⟨hlen, h⟩, hhead⟩
      obtain ⟨b, rfl⟩ := List.length_eq_one_iff.mp hlen
      obtain rfl := Option.some.inj hhead
      exact .inr ⟨rest, h⟩
    · rintro (⟨h, -⟩ | ⟨rest, h⟩)
      · cases h
      · exact ⟨[flags], rest, ⟨rfl, h⟩, rfl⟩

/-! ## Parts of a message -/

/-- A message up to the span identifier, and what follows it. -/
structure Parts where
  version : UInt8
  trace : List UInt8
  span : List UInt8
  rest : List UInt8
  length_trace : trace.length = 16
  length_span : span.length = 8

namespace Parts

def bytes (m : Parts) : List UInt8 :=
  m.version :: 0 :: (m.trace ++ 1 :: (m.span ++ m.rest))

/-- The context of the identifiers and given flags. -/
def context (m : Parts) (flags : UInt8) : SpanContext :=
  ⟨.ofBytes m.trace, .ofBytes m.span, flags, true⟩

theorem length_bytes (m : Parts) : m.bytes.length = 27 + m.rest.length := by
  simp only [bytes, List.length_cons, List.length_append, m.length_trace, m.length_span]
  omega

theorem extract_trace (m : Parts) : m.bytes.extract 2 18 = m.trace := by
  simp [bytes, m.length_trace]

theorem drop_trace (m : Parts) : m.bytes.drop 18 = 1 :: (m.span ++ m.rest) := by
  simp [bytes, m.length_trace]

theorem extract_span (m : Parts) : m.bytes.extract 19 27 = m.span := by
  have hdrop : m.bytes.drop 19 = m.span ++ m.rest := by
    rw [← List.tail_drop, drop_trace, List.tail_cons]
  rw [List.extract, hdrop]
  simp [m.length_span]

theorem drop_span (m : Parts) : m.bytes.drop 27 = m.rest := by
  have hdrop : m.bytes.drop (18 + 9) = m.rest := by
    rw [← List.drop_drop, drop_trace]
    simp [m.length_span]
  exact hdrop

theorem isValid_context (m : Parts) (flags : UInt8) :
    (m.context flags).isValid ↔ (∃ b ∈ m.trace, b ≠ 0) ∧ ∃ b ∈ m.span, b ≠ 0 := by
  simp [SpanContext.isValid, context, TraceId.ofBytes_eq_invalid_iff m.length_trace,
    SpanId.ofBytes_eq_invalid_iff m.length_span]

theorem flags?_rest (m : Parts) {flags : UInt8} : flags? m.rest = some flags ↔
    m.bytes.length = 27 ∧ flags = 0 ∨ m.bytes[27]? = some 2 ∧ m.bytes[28]? = some flags := by
  have htag : m.bytes[27]? = m.rest[0]? := by rw [← m.drop_span, List.getElem?_drop]
  have hflags : m.bytes[28]? = m.rest[1]? := by rw [← m.drop_span, List.getElem?_drop]
  rw [flags?_eq_some, htag, hflags, length_bytes]
  rcases m.rest with _ | ⟨tag, _ | ⟨found, rest⟩⟩ <;> simp

theorem layout_iff (m : Parts) : Layout m.bytes ↔
    ((∃ b ∈ m.trace, b ≠ 0) ∧ ∃ b ∈ m.span, b ≠ 0) ∧ ∃ flags, flags? m.rest = some flags := by
  have hspanTag : m.bytes[18]? = some 1 := by
    have hhead : (m.bytes.drop 18)[0]? = some 1 := by rw [m.drop_trace, List.getElem?_cons_zero]
    rwa [List.getElem?_drop] at hhead
  have hend : (∃ flags, flags? m.rest = some flags) ↔
      m.bytes.length = 27 ∨ 29 ≤ m.bytes.length ∧ m.bytes[27]? = some 2 := by
    simp only [flags?_rest]
    constructor
    · rintro ⟨flags, ⟨h, -⟩ | ⟨htag, hflags⟩⟩
      · exact .inl h
      · exact .inr ⟨(List.getElem?_eq_some_iff.mp hflags).1, htag⟩
    · rintro (h | ⟨hlong, htag⟩)
      · exact ⟨0, .inl ⟨h, rfl⟩⟩
      · exact ⟨m.bytes[28], .inr ⟨htag, List.getElem?_eq_getElem hlong⟩⟩
  rw [hend]
  constructor
  · intro h
    exact ⟨⟨m.extract_trace ▸ h.trace, m.extract_span ▸ h.span⟩, h.flags⟩
  · rintro ⟨⟨htrace, hspan⟩, hflags⟩
    exact ⟨m.length_bytes ▸ Nat.le_add_right 27 _, rfl, hspanTag, m.extract_trace.symm ▸ htrace,
      m.extract_span.symm ▸ hspan, hflags⟩

theorem decode?_bytes (m : Parts) : decode? m.bytes = (flags? m.rest).bind fun flags =>
    if (m.context flags).isValid then some (m.context flags) else none := by
  have htrace : field? 0 16 (0 :: (m.trace ++ 1 :: (m.span ++ m.rest))) =
      some (m.trace, 1 :: (m.span ++ m.rest)) := field?_eq_some.mpr ⟨m.length_trace, rfl⟩
  have hspan : field? 1 8 (1 :: (m.span ++ m.rest)) = some (m.span, m.rest) :=
    field?_eq_some.mpr ⟨m.length_span, rfl⟩
  simp only [decode?, bytes, htrace, hspan, Option.bind_eq_bind, Option.bind_some]
  rfl

theorem decode?_eq_some (m : Parts) {c : SpanContext} : decode? m.bytes = some c ↔
    ∃ flags, flags? m.rest = some flags ∧ (m.context flags).isValid ∧ m.context flags = c := by
  simp only [decode?_bytes, Option.bind_eq_some_iff, Option.ite_none_right_eq_some,
    Option.some.injEq]

end Parts

theorem exists_parts {bytes : List UInt8} (hlong : 27 ≤ bytes.length) (htrace : bytes[1]? = some 0)
    (hspan : bytes[18]? = some 1) : ∃ m : Parts, m.bytes = bytes := by
  obtain ⟨version, rest, rfl⟩ := List.exists_cons_of_length_pos (by omega : 0 < bytes.length)
  rw [List.length_cons] at hlong
  obtain ⟨tag, rest, rfl⟩ := List.exists_cons_of_length_pos (by omega : 0 < rest.length)
  rw [List.length_cons] at hlong
  obtain rfl : tag = 0 := by simpa using htrace
  obtain ⟨hlt, hget⟩ : ∃ h : 16 < rest.length, rest[16] = 1 :=
    List.getElem?_eq_some_iff.mp (by simpa using hspan)
  have hdrop : rest.drop 16 = 1 :: rest.drop 17 := by
    rw [List.drop_eq_getElem_cons hlt, hget]
  refine ⟨⟨version, rest.take 16, (rest.drop 17).take 8, (rest.drop 17).drop 8, ?_, ?_⟩, ?_⟩
  · exact List.length_take_of_le hlt.le
  · exact List.length_take_of_le (by rw [List.length_drop]; omega)
  · rw [Parts.bytes, List.take_append_drop, ← hdrop, List.take_append_drop]

/-- A message that is read has its parts. -/
theorem exists_parts_of_decode? {bytes : List UInt8} {c : SpanContext}
    (h : decode? bytes = some c) : ∃ m : Parts, m.bytes = bytes := by
  cases bytes with
  | nil => cases h
  | cons version bytes =>
    simp only [decode?, Option.bind_eq_bind, Option.bind_eq_some_iff, Prod.exists,
      field?_eq_some] at h
    obtain ⟨trace, rest, ⟨htrace, rfl⟩, span, rest', ⟨hspan, rfl⟩, -⟩ := h
    exact ⟨⟨version, trace, span, rest', htrace, hspan⟩, rfl⟩

/-! ## Reading and writing -/

/-- The layout describes the messages that are read. -/
theorem layout_iff_decode? {bytes : List UInt8} :
    Layout bytes ↔ ∃ c, decode? bytes = some c := by
  constructor
  · intro h
    obtain ⟨m, rfl⟩ := exists_parts h.long h.traceTag h.spanTag
    obtain ⟨hnonzero, flags, hflags⟩ := m.layout_iff.mp h
    have hvalid := (m.isValid_context flags).mpr hnonzero
    exact ⟨m.context flags, m.decode?_eq_some.mpr ⟨flags, hflags, hvalid, rfl⟩⟩
  · rintro ⟨c, h⟩
    obtain ⟨m, rfl⟩ := exists_parts_of_decode? h
    obtain ⟨flags, hflags, hvalid, -⟩ := m.decode?_eq_some.mp h
    exact m.layout_iff.mpr ⟨(m.isValid_context flags).mp hvalid, flags, hflags⟩

theorem isValid_of_decode? {bytes : List UInt8} {c : SpanContext} (h : decode? bytes = some c) :
    c.isValid := by
  obtain ⟨m, rfl⟩ := exists_parts_of_decode? h
  obtain ⟨flags, -, hvalid, rfl⟩ := m.decode?_eq_some.mp h
  exact hvalid

theorem decode_of_not_layout {bytes : List UInt8} (h : ¬ Layout bytes) :
    decode bytes = .empty := by
  have hnone : decode? bytes = none :=
    Option.eq_none_iff_forall_ne_some.mpr fun c hc => h (layout_iff_decode?.mpr ⟨c, hc⟩)
  rw [decode, hnone, Option.getD_none]

theorem isValid_decode_iff {bytes : List UInt8} : (decode bytes).isValid ↔ Layout bytes := by
  constructor
  · intro hvalid
    by_contra h
    rw [decode_of_not_layout h] at hvalid
    exact absurd hvalid (by decide)
  · intro h
    obtain ⟨c, hc⟩ := layout_iff_decode?.mp h
    rw [decode, hc]
    exact isValid_of_decode? hc

/-- A valid context is written as the message of its parts. -/
theorem decode_encode {c : SpanContext} (h : c.isValid) :
    decode (encode c) = { c with isRemote := true } := by
  let m : Parts := ⟨0, c.traceId.toBytes, c.spanId.toBytes, [2, c.flags],
    c.traceId.length_toBytes, c.spanId.length_toBytes⟩
  have hbytes : encode c = m.bytes := by
    simp [encode, h, m, Parts.bytes]
  have hcontext : m.context c.flags = { c with isRemote := true } := by
    simp [m, Parts.context]
  have hflags : flags? m.rest = some c.flags := flags?_eq_some.mpr (.inr ⟨[], rfl⟩)
  have hread : decode? m.bytes = some (m.context c.flags) :=
    m.decode?_eq_some.mpr ⟨c.flags, hflags, hcontext ▸ h, rfl⟩
  rw [hbytes, decode, hread, hcontext, Option.getD_some]

theorem decode_encode_of_not_valid {c : SpanContext} (h : ¬ c.isValid) :
    decode (encode c) = .empty := by
  have hzeros : encode c = List.replicate size 0 := if_neg h
  rw [hzeros]
  decide

theorem Parts.encode_context (m : Parts) {flags : UInt8} (h : (m.context flags).isValid) :
    encode (m.context flags) = 0 :: 0 :: (m.trace ++ 1 :: (m.span ++ [2, flags])) := by
  rw [encode, if_pos h, context, TraceId.toBytes_ofBytes m.length_trace,
    SpanId.toBytes_ofBytes m.length_span]
  simp

theorem Parts.prefix_bytes (m : Parts) {flags : UInt8} (h : flags? m.rest = some flags) :
    (if m.bytes.length = 27 then m.bytes ++ [2, 0] else m.bytes.take 29) =
      m.version :: 0 :: (m.trace ++ 1 :: (m.span ++ [2, flags])) := by
  obtain ⟨hrest, rfl⟩ | ⟨rest, hrest⟩ := flags?_eq_some.mp h
  · rw [if_pos (by rw [m.length_bytes, hrest, List.length_nil])]
    simp [bytes, hrest]
  · have htrace : m.trace.take 27 = m.trace := List.take_of_length_le (by simp [m.length_trace])
    have hspan : m.span.take 10 = m.span := List.take_of_length_le (by simp [m.length_span])
    rw [if_neg (by rw [m.length_bytes, hrest, List.length_cons]; omega)]
    simp [bytes, hrest, m.length_trace, m.length_span, List.take_append, htrace, hspan]

/-- Reading accepts the messages of the layout and takes from them the big-endian identifiers and
the flags; any other bytes are the empty context. A valid context is written in a form that is read
as the same context from elsewhere, and a message that is read is written back as its first bytes
without the version. -/
theorem wire_form_round_trips (bytes : List UInt8) (c : SpanContext) :
    ((decode bytes).isValid ↔ Layout bytes) ∧
    (Layout bytes →
      (decode bytes).traceId.value.toNat = Octets.value (bytes.extract 2 18) ∧
      (decode bytes).spanId.value.toNat = Octets.value (bytes.extract 19 27) ∧
      (decode bytes).flags = (if bytes.length = 27 then 0 else bytes.getD 28 0) ∧
      (decode bytes).isRemote = true ∧
      encode (decode bytes) =
        (if bytes.length = 27 then bytes ++ [2, 0] else bytes.take 29).set 0 0) ∧
    (¬ Layout bytes → decode bytes = .empty) ∧
    (c.isValid → decode (encode c) = { c with isRemote := true }) ∧
    (¬ c.isValid → decode (encode c) = .empty) := by
  refine ⟨isValid_decode_iff, fun hlayout => ?_, decode_of_not_layout, decode_encode,
    decode_encode_of_not_valid⟩
  obtain ⟨c, hread⟩ := layout_iff_decode?.mp hlayout
  obtain ⟨m, rfl⟩ := exists_parts_of_decode? hread
  obtain ⟨flags, hflags, hvalid, rfl⟩ := m.decode?_eq_some.mp hread
  have hdecode : decode m.bytes = m.context flags := by
    rw [decode, hread, Option.getD_some]
  rw [hdecode, m.extract_trace, m.extract_span]
  refine ⟨TraceId.toNat_ofBytes m.length_trace, SpanId.toNat_ofBytes m.length_span, ?_, rfl, ?_⟩
  · obtain ⟨hlen, rfl⟩ | ⟨-, hget⟩ := m.flags?_rest.mp hflags
    · rw [if_pos hlen]
      rfl
    · have hlong := (List.getElem?_eq_some_iff.mp hget).1
      rw [if_neg (by omega), List.getD_eq_getElem?_getD, hget]
      rfl
  · rw [m.encode_context hvalid, m.prefix_bytes hflags, List.set_cons_zero]

/-- A message of another version with a byte after its flags. -/
theorem wire_form_round_trips_bytes :
    let parts := List.replicate 16 1 ++ 1 :: (List.replicate 8 2 ++ [2, 1])
    encode (decode (7 :: 0 :: parts ++ [200])) = 0 :: 0 :: parts :=
  ((wire_form_round_trips _ .empty).2.1 ⟨by decide, rfl, rfl, ⟨1, by decide, by decide⟩,
    ⟨2, by decide, by decide⟩, .inr ⟨by decide, rfl⟩⟩).2.2.2.2

end Metering.Wire
