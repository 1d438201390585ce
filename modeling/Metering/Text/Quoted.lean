import Metering.Text.Extending
import Metering.Text.Numeral

/-!
# Quoted text

A text in double quotes, on one line and without invisible characters: quotes, backslashes and
the common control characters have escapes of their own, and a character that is not printable
or has no shape of its own is written by its code point.
-/

namespace Metering.Text

/-- The written form of a character inside quotes. -/
def escaped (c : Char) : String :=
  if c = '\x00' then "\\0"
  else if c = '\t' then "\\t"
  else if c = '\r' then "\\r"
  else if c = '\n' then "\\n"
  else if c = '"' then "\\\""
  else if c = '\\' then "\\\\"
  else if isPrintable c && !isShapeless c then c.toString
  else "\\u\x7b" ++ Numeral.hex c.toNat ++ "\x7d"

def quoted (s : String) : String :=
  "\"" ++ String.join (s.toList.map escaped) ++ "\""

end Metering.Text
