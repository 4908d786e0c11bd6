import Annealing.Json.Value
import Annealing.Decimal.Layout

/-!
# Writing JSON text

`Value.text` writes a value compactly: no blank between tokens, array items and object fields
in the order they are listed. Inside a string a double quote and a backslash get a backslash
before them; the backspace, form feed, line feed, carriage return and tab become `\b`, `\f`,
`\n`, `\r` and `\t`; every other control character becomes `\u00` and two lowercase
hexadecimal digits; all other characters, delete and non-ASCII ones included, stand for
themselves. Whole numbers are written in decimal, doubles as `Layout.json` writes them, so a
double always shows a point or an exponent.
-/

namespace Annealing.Json

/-- How one character of a string is written in JSON text. -/
def escapeChar (c : Char) : String :=
  match c with
  | '"' => "\\\""
  | '\\' => "\\\\"
  | '\x08' => "\\b"
  | '\x0c' => "\\f"
  | '\n' => "\\n"
  | '\r' => "\\r"
  | '\t' => "\\t"
  | _ =>
    if c.toNat < 0x20 then
      "\\u00" ++ String.ofList (Nat.toDigits 16 (c.toNat / 16) ++ Nat.toDigits 16 (c.toNat % 16))
    else String.singleton c

/-- A string as JSON text, between double quotes. -/
def quote (s : String) : String :=
  "\"" ++ s.foldl (fun acc c => acc ++ escapeChar c) "" ++ "\""

/-- A number as JSON text. -/
def Number.text : Number → String
  | .unsigned n => toString n
  | .negative n => toString n
  | .double x => Decimal.Layout.json.write x

mutual

/-- Appends a value as compact JSON text to `acc`. -/
def Value.writeTo (acc : String) : Value → String
  | .null => acc ++ "null"
  | .bool b => acc ++ (if b then "true" else "false")
  | .number n => acc ++ n.text
  | .string s => acc ++ quote s
  | .array xs => itemsTo (acc ++ "[") xs ++ "]"
  | .object fields => fieldsTo (acc ++ "\x7b") fields ++ "\x7d"

/-- Appends array items, separated by commas, to `acc`. -/
def itemsTo (acc : String) : List Value → String
  | [] => acc
  | [v] => v.writeTo acc
  | v :: rest => itemsTo (v.writeTo acc ++ ",") rest

/-- Appends object fields as `"key":value`, separated by commas, to `acc`. -/
def fieldsTo (acc : String) : List (String × Value) → String
  | [] => acc
  | [(k, v)] => v.writeTo (acc ++ quote k ++ ":")
  | (k, v) :: rest => fieldsTo (v.writeTo (acc ++ quote k ++ ":") ++ ",") rest

end

/-- A value as compact JSON text. -/
def Value.text (v : Value) : String :=
  v.writeTo ""

end Annealing.Json
