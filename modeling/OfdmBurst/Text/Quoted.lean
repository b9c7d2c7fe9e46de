import OfdmBurst.Text.Printable

/-!
# Quoted text

A text is quoted with double quotes. A quote or a backslash inside it is escaped, four control
characters have short names, and every other character without a glyph of its own is written as
its code point in lower-case hexadecimal.
-/

namespace OfdmBurst

namespace Text

/-- The digits of a number in lower-case hexadecimal. -/
def hexadecimal (n : Nat) : String := String.ofList (Nat.toDigits 16 n)

/-- One character inside quotes. -/
def escaped (c : Char) : String :=
  if c = '"' then "\\\""
  else if c = '\\' then "\\\\"
  else if c = '\n' then "\\n"
  else if c = '\r' then "\\r"
  else if c = '\t' then "\\t"
  else if c = Char.ofNat 0 then "\\0"
  else if isPrintable c then c.toString
  else "\\u\x7b" ++ hexadecimal c.toNat ++ "\x7d"

/-- A text in quotes. -/
def quoted (text : String) : String :=
  "\"" ++ String.join (text.toList.map escaped) ++ "\""

end Text

end OfdmBurst
