import Annealing.Text.Printable
import Annealing.Text.GraphemeExtend

/-!
# Quoting a string so that every character shows

`quote s` writes `s` between double quotes so that a reader sees each of its characters. The
null character, the tab, the carriage return and the line feed become `\0`, `\t`, `\r` and
`\n`; a backslash and a double quote get a backslash before them. A character that extends a
grapheme, or that is not printable, becomes `\u{h}` with its code point in lowercase
hexadecimal digits and no leading zeros, so that no mark attaches to the quote before it and
no invisible character hides. Every other character stands for itself.
-/

namespace Annealing.Text

/-- The lowercase hexadecimal digits of `n`, without leading zeros. -/
def hexDigits (n : Nat) : String :=
  String.ofList (Nat.toDigits 16 n)

/-- How one character is written inside quotes. -/
def escapeChar (c : Char) : String :=
  match c with
  | '\x00' => "\\0"
  | '\t' => "\\t"
  | '\r' => "\\r"
  | '\n' => "\\n"
  | '\\' => "\\\\"
  | '"' => "\\\""
  | _ =>
    if isGraphemeExtend c || !isPrintable c then "\\u\x7b" ++ hexDigits c.toNat ++ "\x7d"
    else String.singleton c

/-- The string between double quotes, each character written by `escapeChar`. -/
def quote (s : String) : String :=
  "\"" ++ s.foldl (fun acc c => acc ++ escapeChar c) "" ++ "\""

end Annealing.Text
