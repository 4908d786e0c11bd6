import Annealing.Decimal.Shortest

/-!
# Writing a double as text

The digits come from `Binary.shortest`; a `Layout` decides the rest: how a tie between two
equally near shortest digit strings is settled, which magnitudes are written positionally,
whether an integral value keeps a `.0`, whether a non-negative exponent has a plus sign, and
the words for NaN and infinity. A minus sign is written for every negative value, zero
included.

Two layouts are used. `Layout.positional` writes every finite value positionally without a
trailing `.0`, as messages show numbers (`1e21` is twenty-two digits, `1.0` is `1`), and
settles a tie upwards (`2^50 + 0.25` is `1125899906842624.3`). `Layout.json` writes numbers
as JSON text does: leading exponents from `-5` to `15` positionally, integral values with
`.0`, and everything else in scientific form with a signed exponent (`1e-10`,
`-9.223372036854776e+18`); it settles a tie to the even digit (`1125899906842624.2`).
-/

namespace Annealing.Decimal

/-- The choices, besides the digits, that fix how a double is written. -/
structure Layout where
  /-- How a tie between two equally near shortest digit strings is settled. -/
  tie : Tie
  /-- Leading decimal exponents `e` with `low ≤ e < high` are written positionally, the
  others in scientific form; `none` writes every value positionally. -/
  positionalExponents : Option (Int × Int)
  /-- Whether an integral value written positionally keeps a `.0`. -/
  pointZero : Bool
  /-- Whether a non-negative exponent in scientific form has a plus sign. -/
  exponentPlus : Bool
  /-- The text of a NaN. -/
  nan : String
  /-- The text of positive infinity; negative infinity has a minus sign before it. -/
  infinity : String

namespace Layout

/-- Ties upwards, every value positionally, no `.0`, NaN as `NaN`, infinity as `inf`. -/
def positional : Layout := ⟨.up, none, false, false, "NaN", "inf"⟩

/-- Ties to even, leading exponents `-5` to `15` positionally with `.0` kept, others
scientific with a signed exponent; NaN as `nan`, infinity as `inf`. -/
def json : Layout := ⟨.toEven, some (-5, 16), true, true, "nan", "inf"⟩

/-- `n` zeros. -/
def zeros (n : Nat) : String :=
  String.ofList (List.replicate n '0')

/-- Digits `ds` (first one nonzero unless the value is zero) with the leading digit at
decimal exponent `lead`, written positionally. -/
def placeDigits (l : Layout) (ds : List Char) (lead : Int) : String :=
  if lead < 0 then
    "0." ++ zeros ((-lead).toNat - 1) ++ String.ofList ds
  else
    let whole := lead.toNat + 1
    if ds.length ≤ whole then
      String.ofList ds ++ zeros (whole - ds.length) ++ (if l.pointZero then ".0" else "")
    else
      String.ofList (ds.take whole) ++ "." ++ String.ofList (ds.drop whole)

/-- Digits `ds` with the leading digit at decimal exponent `lead`, in scientific form:
`d.ddd` then `e` and the exponent, with no point for a single digit. -/
def scientific (l : Layout) (ds : List Char) (lead : Int) : String :=
  let body := match ds with
    | [] => "0"
    | [d] => String.singleton d
    | d :: rest => String.singleton d ++ "." ++ String.ofList rest
  body ++ "e" ++ (if l.exponentPlus && 0 ≤ lead then "+" else "") ++ toString lead

/-- The text of a decimal under the layout. -/
def writeScientific (l : Layout) (s : Scientific) : String :=
  let ds := Nat.toDigits 10 s.digits
  let lead := s.exponent + (ds.length : Int) - 1
  let sign := if s.negative then "-" else ""
  let inRange := match l.positionalExponents with
    | none => true
    | some (low, high) => s.digits = 0 ∨ (low ≤ lead ∧ lead < high)
  sign ++ (if inRange then l.placeDigits ds lead else l.scientific ds lead)

/-- The text of a double under the layout. -/
def write (l : Layout) (x : Float) : String :=
  match Binary.ofFloat? x with
  | some b => l.writeScientific (b.shortest l.tie)
  | none =>
    if x.isNaN then l.nan
    else if x < 0 then "-" ++ l.infinity
    else l.infinity

end Layout

end Annealing.Decimal
