import ValueShell.Text.Printable

/-!
# Escaped text

A string as a message shows it: between double quotation marks, with what would be misread or could
not be seen written as an escape.
-/

set_option autoImplicit false

namespace ValueShell

namespace Escaped

/-- How one character of a quoted text is written. -/
def escapeChar (c : Char) : String :=
  match c with
  | '\x00' => "\\0"
  | '\t' => "\\t"
  | '\r' => "\\r"
  | '\n' => "\\n"
  | '\\' => "\\\\"
  | '"' => "\\\""
  | c =>
    if isPrintable c then c.toString
    else "\\u\x7b" ++ String.ofList (Nat.toDigits 16 c.toNat) ++ "\x7d"

/-- A text between double quotation marks. -/
def quote (s : String) : String :=
  "\"" ++ String.join (s.toList.map escapeChar) ++ "\""

end Escaped

end ValueShell
