import FrameLens.Text.Hex

/-!
Escaped text of a character, as it stands between single quotes.
-/
namespace FrameLens.Text

/-- Printable ASCII stands for itself, apart from quotes and the backslash; the common control
characters have names, and every other character is written by its code. -/
def escapeChar (c : Char) : String :=
  match c with
  | '\t' => "\\t"
  | '\r' => "\\r"
  | '\n' => "\\n"
  | '\'' => "\\'"
  | '"' => "\\\""
  | '\\' => "\\\\"
  | c =>
    if 0x20 ≤ c.toNat ∧ c.toNat ≤ 0x7e then String.singleton c
    else "\\u\x7b" ++ hex c.toNat ++ "\x7d"

end FrameLens.Text
