import OverloadMachine.Text.Hidden

/-!
# Quoted texts

A quoted text stands between double quotes. The quote and the backslash are
written behind a backslash, the common controls by letter, and every other
hidden character by its number in hexadecimal.
-/

namespace OverloadMachine.Text

/-- How one character stands in a quoted text. -/
def quoteChar (c : Char) : String :=
  if c = '"' then "\\\""
  else if c = '\\' then "\\\\"
  else if c = '\n' then "\\n"
  else if c = '\r' then "\\r"
  else if c = '\t' then "\\t"
  else if c = '\x00' then "\\0"
  else if isHidden c then "\\u\x7b" ++ String.ofList (Nat.toDigits 16 c.toNat) ++ "\x7d"
  else c.toString

/-- A text between quotes, every character on it visible. -/
def quote (s : String) : String :=
  s.foldl (fun acc c => acc ++ quoteChar c) "\"" ++ "\""

end OverloadMachine.Text
