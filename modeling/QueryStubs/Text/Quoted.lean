import QueryStubs.Text.Unprintable

/-!
# Quoted text

A listing writes a text between quotation marks, on one line and with nothing invisible in it: the quotation mark and the backslash
are escaped, a tab, the two line ends and the null character have escapes of their own, and every other unprintable character is
written as its code point in hexadecimal digits between braces.
-/

namespace QueryStubs.Text

/-- The lower-case hexadecimal digits of a number, without leading zeros. -/
def hexDigits (n : Nat) : String := String.ofList (Nat.toDigits 16 n)

/-- A character as it is written between quotation marks. -/
def escaped (c : Char) : String :=
  if c = '\x22' then "\\\""
  else if c = '\\' then "\\\\"
  else if c = '\n' then "\\n"
  else if c = '\r' then "\\r"
  else if c = '\t' then "\\t"
  else if c = '\x00' then "\\0"
  else if 32 ≤ c.toNat && c.toNat < 127 then c.toString
  else if isUnprintable c then "\\u\x7b" ++ hexDigits c.toNat ++ "\x7d"
  else c.toString

/-- A text between quotation marks. -/
def quoted (s : String) : String := "\"" ++ String.join (s.toList.map escaped) ++ "\""

end QueryStubs.Text
