import PagedScan.Text.Hidden

/-!
# Quoted text

How a message shows a piece of text that came from outside: between double
quotes, with everything that would be mistaken or not be seen written as an
escape. A character is shown as itself unless it is a quote, a backslash or
hidden; the commonest hidden ones have short escapes and the rest are given by
their code point in hexadecimal.
-/

namespace PagedScan.Text

/-- The code point of a character between braces, in the fewest hexadecimal
digits. -/
def escapedByCode (c : Char) : String :=
  "\\u\x7b" ++ String.ofList (Nat.toDigits 16 c.toNat) ++ "\x7d"

/-- One character of a quoted text. -/
def escaped (c : Char) : String :=
  match c with
  | '\x00' => "\\0"
  | '\t' => "\\t"
  | '\n' => "\\n"
  | '\r' => "\\r"
  | '"' => "\\\""
  | '\\' => "\\\\"
  | c => if isHidden c then escapedByCode c else c.toString

/-- The text between quotes. -/
def quoted (text : String) : String :=
  "\"" ++ String.join (text.toList.map escaped) ++ "\""

end PagedScan.Text
