import Metering.Trace.Wire

/-!
# The text form of span contexts

The binary form in base64 with the standard alphabet. Reading is strict: the text is a whole
number of groups of four characters, padded, and the unused bits of the last group are zero, so
that each list of bytes has one text.
-/

namespace Metering.Base64

/-- The character of a number below sixty-four. -/
def sextetChar (n : Nat) : Char :=
  if n < 26 then Char.ofNat ('A'.toNat + n)
  else if n < 52 then Char.ofNat ('a'.toNat + (n - 26))
  else if n < 62 then Char.ofNat ('0'.toNat + (n - 52))
  else if n = 62 then '+'
  else '/'

def sextet? (c : Char) : Option Nat :=
  if 'A' ≤ c ∧ c ≤ 'Z' then some (c.toNat - 'A'.toNat)
  else if 'a' ≤ c ∧ c ≤ 'z' then some (c.toNat - 'a'.toNat + 26)
  else if '0' ≤ c ∧ c ≤ '9' then some (c.toNat - '0'.toNat + 52)
  else if c = '+' then some 62
  else if c = '/' then some 63
  else none

/-- The four sextets of a number of twenty-four bits. -/
def group (n : Nat) : List Char :=
  [n / 262144 % 64, n / 4096 % 64, n / 64 % 64, n % 64].map sextetChar

def encodeChars : List UInt8 → List Char
  | [] => []
  | [a] => (group (a.toNat * 65536)).take 2 ++ ['=', '=']
  | [a, b] => (group (a.toNat * 65536 + b.toNat * 256)).take 3 ++ ['=']
  | a :: b :: c :: rest =>
    group (a.toNat * 65536 + b.toNat * 256 + c.toNat) ++ encodeChars rest

def decodeChars? : List Char → Option (List UInt8)
  | [] => some []
  | [a, b, '=', '='] => do
    let n := (← sextet? a) * 64 + (← sextet? b)
    if n % 16 = 0 then some (Octets.ofNat 1 (n / 16)) else none
  | [a, b, c, '='] => do
    let n := ((← sextet? a) * 64 + (← sextet? b)) * 64 + (← sextet? c)
    if n % 4 = 0 then some (Octets.ofNat 2 (n / 4)) else none
  | a :: b :: c :: d :: rest => do
    let n := (((← sextet? a) * 64 + (← sextet? b)) * 64 + (← sextet? c)) * 64 + (← sextet? d)
    let bytes ← decodeChars? rest
    some (Octets.ofNat 3 n ++ bytes)
  | _ => none

def encode (bytes : List UInt8) : String := String.ofList (encodeChars bytes)

def decode? (s : String) : Option (List UInt8) := decodeChars? s.toList

end Metering.Base64

namespace Metering

namespace SpanContext

def toBase64 (c : SpanContext) : String := Base64.encode (Wire.encode c)

/-- The context of a text, or the empty context for a text that is not one of base64. -/
def ofBase64 (s : String) : SpanContext :=
  match Base64.decode? s with
  | some bytes => Wire.decode bytes
  | none => .empty

end SpanContext
end Metering
