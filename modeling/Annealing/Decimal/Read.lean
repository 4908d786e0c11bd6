/-!
# Reading decimal numbers

`ofDecimal` turns an exact decimal `± m · 10^e` into the nearest double. A decimal whose
leading digit stands above `10^309` is beyond the largest double and reads as an infinity;
one whose leading digit stands below `10^-330` is below half the smallest subnormal and
reads as a zero. Between those bounds the work is left to `Float.ofScientific`, which
rounds correctly, so enormous exponents never build enormous numbers.

`readFloat?` accepts an optional sign followed by `inf`, `infinity` or `nan` in any case, or
by digits with an optional point and an optional exponent, with at least one digit on either
side of the point. `readWord?` accepts an optional `+` and the digits of a number below
`2^64`.
-/

namespace Annealing.Decimal

/-- The double nearest to `± m · 10^e`, keeping the sign of a zero. -/
def ofDecimal (negative : Bool) (m : Nat) (e : Int) : Float :=
  let lead := e + (Nat.toDigits 10 m).length
  let magnitude : Float :=
    if m = 0 then 0.0
    else if lead > 310 then Float.ofScientific 1 false 400
    else if lead < -330 then 0.0
    else if e < 0 then Float.ofScientific m true (-e).toNat
    else Float.ofScientific m false e.toNat
  if negative then -magnitude else magnitude

/-- The value of a string of decimal digits. -/
def digitsValue (ds : List Char) : Nat :=
  ds.foldl (fun acc c => 10 * acc + (c.toNat - '0'.toNat)) 0

/-- Splits off a leading sign: whether it was a minus, and the rest. -/
def splitSign : List Char → Bool × List Char
  | '-' :: rest => (true, rest)
  | '+' :: rest => (false, rest)
  | cs => (false, cs)

/-- The exponent part after `e` or `E`: an optional sign and at least one digit. -/
def readExponent? (cs : List Char) : Option Int :=
  let (negative, digits) := splitSign cs
  if digits.isEmpty || !digits.all Char.isDigit then none
  else
    let v : Int := digitsValue digits
    some (if negative then -v else v)

/-- Reads an unsigned decimal with optional point and exponent: `(mantissa, exponent)`. -/
def readUnsigned? (cs : List Char) : Option (Nat × Int) :=
  let whole := cs.takeWhile Char.isDigit
  let rest := cs.dropWhile Char.isDigit
  let (fraction, rest) := match rest with
    | '.' :: more => (more.takeWhile Char.isDigit, more.dropWhile Char.isDigit)
    | _ => ([], rest)
  let exponent? : Option Int := match rest with
    | [] => some 0
    | c :: more => if c = 'e' || c = 'E' then readExponent? more else none
  if whole.isEmpty && fraction.isEmpty then none
  else exponent?.map fun e => (digitsValue (whole ++ fraction), e - fraction.length)

/-- Reads a decimal float, an infinity or a NaN, with an optional sign. -/
def readFloat? (s : String) : Option Float :=
  let (negative, body) := splitSign s.toList
  let word := String.ofList (body.map Char.toLower)
  if word = "inf" || word = "infinity" then
    some (if negative then -(1.0 / 0.0) else 1.0 / 0.0)
  else if word = "nan" then some (0.0 / 0.0)
  else (readUnsigned? body).map fun (m, e) => ofDecimal negative m e

/-- Reads an unsigned integer below `2^64`, with an optional `+`. -/
def readWord? (s : String) : Option Nat :=
  let digits := match s.toList with
    | '+' :: rest => rest
    | cs => cs
  if digits.isEmpty || !digits.all Char.isDigit then none
  else
    let v := digitsValue digits
    if v < Nat.pow 2 64 then some v else none

end Annealing.Decimal
