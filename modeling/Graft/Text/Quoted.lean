import Graft.Number.Digit
import Graft.Text.Printable

/-!
# Graft.Text.Quoted

Text in double quotes as error messages show it. Quotes, backslashes and the
usual controls have short escapes, other characters that are not shown are given
by their code point, and everything else stands for itself.
-/

namespace Graft
namespace Text

/-- The hexadecimal digits of a number without leading zeros. -/
def codePoint (n : Nat) : String := String.ofList (Nat.toDigits 16 n)

/-- A character between quotes. -/
def quotedChar (c : Char) : String :=
  match c with
  | '"' => "\\\""
  | '\\' => "\\\\"
  | '\n' => "\\n"
  | '\r' => "\\r"
  | '\t' => "\\t"
  | '\x00' => "\\0"
  | c => if isPrintable c then String.singleton c else "\\u\x7b" ++ codePoint c.toNat ++ "\x7d"

/-- A text in quotes. -/
def quoted (s : String) : String :=
  s.foldl (fun out c => out ++ quotedChar c) "\"" ++ "\""

end Text
end Graft
