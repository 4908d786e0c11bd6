import Annealing.Json.Value
import Annealing.Decimal.Read

/-!
# Reading JSON text

`Json.read` reads one JSON document, with blanks (space, tab, line feed, carriage return)
allowed around tokens, and reports the first fault with its place. A place is a line,
counted from one, and a column: the number of bytes of that line up to and including the
byte where reading stopped. A fault found on looking at the next character is placed at
that character's first byte, or at the last byte of the text when there is none; a fault
found after reading a token is placed at its last byte.

Numbers follow the JSON grammar: an optional minus, a whole part without leading zeros, an
optional fraction with at least one digit, an optional exponent. A number with neither
fraction nor exponent is whole: unsigned below `2^64`, negative down to `-2^63`, and a
double otherwise, where `-0` is the double `-0.0`. Every other number is the double nearest
to its decimal value; one beyond the largest double is out of range, and an exponent past
`2^31 - 1` makes a nonzero number out of range when it is positive and zero when it is
negative.

Strings may not hold control characters; a `\u` escape of a high surrogate must be followed
by one of a low surrogate. Nesting stops at 128 open arrays and objects. An object keeps one
field per key, in ascending key order, with the last value given for it.
-/

namespace Annealing.Json

/-- Why a text is not a JSON document. -/
inductive Fault where
  | eofInList
  | eofInObject
  | eofInString
  | eofInValue
  | expectedColon
  | expectedListCommaOrEnd
  | expectedObjectCommaOrEnd
  | expectedIdent
  | expectedValue
  | invalidEscape
  | invalidNumber
  | numberOutOfRange
  | controlCharacter
  | keyMustBeString
  | loneLeadingSurrogate
  | trailingComma
  | trailingCharacters
  | unexpectedEndOfHexEscape
  | recursionLimit
  deriving DecidableEq, Repr

/-- The text of a fault. -/
def Fault.message : Fault → String
  | .eofInList => "EOF while parsing a list"
  | .eofInObject => "EOF while parsing an object"
  | .eofInString => "EOF while parsing a string"
  | .eofInValue => "EOF while parsing a value"
  | .expectedColon => "expected `:`"
  | .expectedListCommaOrEnd => "expected `,` or `]`"
  | .expectedObjectCommaOrEnd => "expected `,` or `\x7d`"
  | .expectedIdent => "expected ident"
  | .expectedValue => "expected value"
  | .invalidEscape => "invalid escape"
  | .invalidNumber => "invalid number"
  | .numberOutOfRange => "number out of range"
  | .controlCharacter => "control character (\\u0000-\\u001F) found while parsing a string"
  | .keyMustBeString => "key must be a string"
  | .loneLeadingSurrogate => "lone leading surrogate in hex escape"
  | .trailingComma => "trailing comma"
  | .trailingCharacters => "trailing characters"
  | .unexpectedEndOfHexEscape => "unexpected end of hex escape"
  | .recursionLimit => "recursion limit exceeded"

/-- A fault and its place. -/
structure SyntaxError where
  fault : Fault
  line : Nat
  column : Nat
  deriving DecidableEq, Repr

/-- The text of a fault with its place. -/
def SyntaxError.message (e : SyntaxError) : String :=
  e.fault.message ++ " at line " ++ toString e.line ++ " column " ++ toString e.column

/-- How far reading has come. -/
structure Cursor where
  text : Array Char
  /-- Index of the next character. -/
  pos : Nat
  /-- Bytes before the next character. -/
  offset : Nat
  /-- The line of the next character, counted from one. -/
  line : Nat
  /-- The byte offset at which that line starts. -/
  lineStart : Nat
  /-- Arrays and objects that may still be opened. -/
  depth : Nat
  /-- Bytes in the whole text. -/
  size : Nat

/-- Reading with a cursor, stopping at the first fault. -/
abbrev Reader := StateT Cursor (Except SyntaxError)

namespace Reader

/-- The next character, left unread. -/
def peek? : Reader (Option Char) :=
  fun c => .ok (c.text[c.pos]?, c)

/-- Reads the next character. -/
def advance : Reader Unit :=
  modify fun c =>
    match c.text[c.pos]? with
    | some ch =>
      if ch = '\n' then
        { c with pos := c.pos + 1, offset := c.offset + 1, line := c.line + 1,
                 lineStart := c.offset + 1 }
      else { c with pos := c.pos + 1, offset := c.offset + ch.utf8Size }
    | none => c

/-- Stops with a fault placed at the last byte read. -/
def failHere {α : Type} (f : Fault) : Reader α :=
  fun c => .error ⟨f, c.line, c.offset - c.lineStart⟩

/-- Stops with a fault placed at the first byte of the next character, or at the last byte
read if there is none. -/
def failAhead {α : Type} (f : Fault) : Reader α :=
  fun c =>
    match c.text[c.pos]? with
    | some '\n' => .error ⟨f, c.line + 1, 0⟩
    | some _ => .error ⟨f, c.line, c.offset + 1 - c.lineStart⟩
    | none => .error ⟨f, c.line, c.offset - c.lineStart⟩

/-- Stops with a fault placed at the end of the text. -/
def failAtEnd {α : Type} (f : Fault) : Reader α :=
  fun c =>
    let rest := c.text.toList.drop c.pos
    let lines := rest.count '\n'
    let tail := (rest.reverse.takeWhile (· ≠ '\n')).foldl (fun n ch => n + ch.utf8Size) 0
    let total := c.offset + rest.foldl (fun n ch => n + ch.utf8Size) 0
    if lines = 0 then .error ⟨f, c.line, total - c.lineStart⟩
    else .error ⟨f, c.line + lines, tail⟩

/-- Bytes left to read. -/
def bytesLeft : Reader Nat :=
  fun c => .ok (c.size - c.offset, c)

/-- Skips blanks and returns the next character, left unread. -/
def skipBlank : Nat → Reader (Option Char)
  | 0 => peek?
  | fuel + 1 => do
    match ← peek? with
    | some c =>
      if c = ' ' || c = '\n' || c = '\t' || c = '\r' then
        advance
        skipBlank fuel
      else pure (some c)
    | none => pure none

/-- Reads a run of decimal digits. -/
def digits : Nat → Reader (List Char)
  | 0 => pure []
  | fuel + 1 => do
    match ← peek? with
    | some c =>
      if c.isDigit then
        advance
        pure (c :: (← digits fuel))
      else pure []
    | none => pure []

/-- Reads the remaining characters of a word such as `null` after its first one. -/
def word : List Char → Reader Unit
  | [] => pure ()
  | w :: rest => do
    match ← peek? with
    | none => failHere .eofInValue
    | some c =>
      if c = w then
        advance
        word rest
      else failAhead .expectedIdent

/-- The value of a hexadecimal digit. -/
def hexValue? (c : Char) : Option Nat :=
  if c.isDigit then some (c.toNat - '0'.toNat)
  else if 'a' ≤ c && c ≤ 'f' then some (c.toNat - 'a'.toNat + 10)
  else if 'A' ≤ c && c ≤ 'F' then some (c.toNat - 'A'.toNat + 10)
  else none

/-- Reads the four hexadecimal digits of a `\u` escape. -/
def hex4 : Reader Nat := do
  if (← bytesLeft) < 4 then failAtEnd .eofInString
  else
    let c ← get
    let quad := (c.text.extract c.pos (c.pos + 4)).toList
    match quad.mapM hexValue? with
    | some [a, b, d, e] =>
      for _ in [0:4] do advance
      pure (((a * 16 + b) * 16 + d) * 16 + e)
    | _ => fun c => .error ⟨.invalidEscape, c.line, c.offset + 4 - c.lineStart⟩

/-- Reads the rest of a `\u` escape after the `u`; a high surrogate must be followed by an
escaped low surrogate. -/
def unicodeEscape : Reader Char := do
  let n ← hex4
  if 0xDC00 ≤ n && n ≤ 0xDFFF then failHere .loneLeadingSurrogate
  else if n < 0xD800 || 0xDBFF < n then pure (Char.ofNat n)
  else
    match ← peek? with
    | none => failHere .eofInString
    | some '\\' => advance
    | some _ => failAhead .unexpectedEndOfHexEscape
    match ← peek? with
    | none => failHere .eofInString
    | some 'u' => advance
    | some _ => failAhead .unexpectedEndOfHexEscape
    let low ← hex4
    if low < 0xDC00 || 0xDFFF < low then failHere .loneLeadingSurrogate
    else pure (Char.ofNat (0x10000 + (n - 0xD800) * 0x400 + (low - 0xDC00)))

/-- Reads an escape after its backslash. -/
def escape : Reader Char := do
  match ← peek? with
  | none => failHere .eofInString
  | some c =>
    let plain : Option Char := match c with
      | '"' => some '"'
      | '\\' => some '\\'
      | '/' => some '/'
      | 'b' => some '\x08'
      | 'f' => some '\x0c'
      | 'n' => some '\n'
      | 'r' => some '\r'
      | 't' => some '\t'
      | _ => none
    match plain with
    | some e => advance; pure e
    | none =>
      if c = 'u' then
        advance
        unicodeEscape
      else failAhead .invalidEscape

/-- Reads the rest of a string after its opening quote. -/
def string : Nat → Array Char → Reader String
  | 0, _ => failHere .eofInString
  | fuel + 1, acc => do
    match ← peek? with
    | none => failHere .eofInString
    | some '"' => advance; pure (String.ofList acc.toList)
    | some '\\' =>
      advance
      let e ← escape
      string fuel (acc.push e)
    | some c =>
      if c.toNat < 0x20 then failAhead .controlCharacter
      else
        advance
        string fuel (acc.push c)

/-- The number `± m · 10^e`, or out of range if it is beyond the largest double. -/
def double (negative : Bool) (m : Nat) (e : Int) : Reader Number :=
  let x := Decimal.ofDecimal negative m e
  if x.isFinite then pure (.double x) else failHere .numberOutOfRange

/-- Reads an exponent after its `e` or `E` and gives the number with mantissa `m`, the
exponent less `shift`. -/
def exponent (fuel : Nat) (negative : Bool) (m shift : Nat) : Reader Number := do
  advance
  let minus ← match ← peek? with
    | some '+' => do advance; pure false
    | some '-' => do advance; pure true
    | _ => pure false
  match ← peek? with
  | none => failHere .eofInValue
  | some c =>
    if !c.isDigit then failAhead .invalidNumber
    else
      -- read digits while the exponent fits in 31 bits
      let rec go : Nat → Nat → Reader (Option Nat)
        | 0, e => pure (some e)
        | n + 1, e => do
          match ← peek? with
          | some d =>
            if d.isDigit then
              advance
              let e := e * 10 + (d.toNat - '0'.toNat)
              if e > 2147483647 then pure none else go n e
            else pure (some e)
          | none => pure (some e)
      match ← go fuel 0 with
      | some e => double negative m ((if minus then -(e : Int) else e) - shift)
      | none =>
        if m ≠ 0 && !minus then failHere .numberOutOfRange
        else
          let _ ← digits fuel
          pure (.double (if negative then -0.0 else 0.0))

/-- Reads a number after its sign. -/
def number (fuel : Nat) (negative : Bool) : Reader Number := do
  match ← peek? with
  | none => failHere .eofInValue
  | some first =>
    if !first.isDigit then failAhead .invalidNumber
    else
      advance
      let whole ← if first = '0' then
          match ← peek? with
          | some c => if c.isDigit then failAhead .invalidNumber else pure ['0']
          | none => pure ['0']
        else do pure (first :: (← digits fuel))
      match ← peek? with
      | some '.' =>
        advance
        let fraction ← digits fuel
        if fraction.isEmpty then
          match ← peek? with
          | some _ => failAhead .invalidNumber
          | none => failAhead .eofInValue
        else
          let m := Decimal.digitsValue (whole ++ fraction)
          match ← peek? with
          | some 'e' | some 'E' => exponent fuel negative m fraction.length
          | _ => double negative m (-(fraction.length : Int))
      | some 'e' | some 'E' => exponent fuel negative (Decimal.digitsValue whole) 0
      | _ =>
        let n := Decimal.digitsValue whole
        if !negative then
          if n < Nat.pow 2 64 then pure (.unsigned n) else double false n 0
        else if n = 0 then pure (.double (-0.0))
        else if n ≤ Nat.pow 2 63 then pure (.negative (-(n : Int)))
        else double true n 0

/-- Opens an array or object: fails when nesting is too deep, otherwise reads the bracket. -/
def enter : Reader Unit := do
  let c ← get
  if c.depth ≤ 1 then failAhead .recursionLimit
  else
    set { c with depth := c.depth - 1 }
    advance

/-- Closes an array or object: reads the bracket and allows one more level of nesting. -/
def leave : Reader Unit := do
  advance
  modify fun c => { c with depth := c.depth + 1 }

mutual

/-- Reads a value after blanks. -/
def value : Nat → Reader Value
  | 0 => failHere .eofInValue
  | fuel + 1 => do
    match ← skipBlank fuel with
    | none => failAhead .eofInValue
    | some 'n' => advance; word ['u', 'l', 'l']; pure .null
    | some 't' => advance; word ['r', 'u', 'e']; pure (.bool true)
    | some 'f' => advance; word ['a', 'l', 's', 'e']; pure (.bool false)
    | some '-' => advance; pure (.number (← number fuel true))
    | some '"' => advance; pure (.string (← string fuel #[]))
    | some '[' =>
      enter
      match ← skipBlank fuel with
      | some ']' => leave; pure (.array [])
      | none => failAhead .eofInList
      | some _ =>
        let first ← value fuel
        let rest ← items fuel
        leave
        pure (.array (first :: rest))
    | some '{' =>
      enter
      match ← skipBlank fuel with
      | some '}' => leave; pure (.object [])
      | none => failAhead .eofInObject
      | some '"' =>
        let (k, v) ← field fuel
        let fields ← fields fuel [(k, v)]
        leave
        pure (.object fields)
      | some _ => failAhead .keyMustBeString
    | some c =>
      if c.isDigit then pure (.number (← number fuel false))
      else failAhead .expectedValue

/-- Reads the items of an array after its first, up to its closing bracket (left unread). -/
def items : Nat → Reader (List Value)
  | 0 => failHere .eofInList
  | fuel + 1 => do
    match ← skipBlank fuel with
    | some ']' => pure []
    | some ',' =>
      advance
      match ← skipBlank fuel with
      | some ']' => failAhead .trailingComma
      | none => failAhead .eofInValue
      | some _ =>
        let v ← value fuel
        pure (v :: (← items fuel))
    | some _ => failAhead .expectedListCommaOrEnd
    | none => failAhead .eofInList

/-- Reads one field, from the opening quote of its key. -/
def field : Nat → Reader (String × Value)
  | 0 => failHere .eofInObject
  | fuel + 1 => do
    advance
    let k ← string fuel #[]
    match ← skipBlank fuel with
    | some ':' => advance
    | some _ => failAhead .expectedColon
    | none => failAhead .eofInObject
    pure (k, ← value fuel)

/-- Reads the fields of an object after its first, up to its closing brace (left unread),
adding each to `acc`. -/
def fields : Nat → List (String × Value) → Reader (List (String × Value))
  | 0, _ => failHere .eofInObject
  | fuel + 1, acc => do
    match ← skipBlank fuel with
    | some '}' => pure acc
    | some ',' =>
      advance
      match ← skipBlank fuel with
      | some '"' =>
        let (k, v) ← field fuel
        fields fuel (Value.insertField k v acc)
      | some '}' => failAhead .trailingComma
      | some _ => failAhead .keyMustBeString
      | none => failAhead .eofInValue
    | some _ => failAhead .expectedObjectCommaOrEnd
    | none => failAhead .eofInObject

end

end Reader

/-- Reads a JSON document that fills the whole text, blanks around it allowed. -/
def read (s : String) : Except SyntaxError Value :=
  let text := s.toList.toArray
  let fuel := 2 * text.size + 4
  let run : Reader Value := do
    let v ← Reader.value fuel
    match ← Reader.skipBlank fuel with
    | some _ => Reader.failAhead .trailingCharacters
    | none => pure v
  (run.run ⟨text, 0, 0, 1, 0, 128, s.utf8ByteSize⟩).map (·.1)

end Annealing.Json
