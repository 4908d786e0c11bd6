/-!
# Cooling strategies

A cooling strategy says how the temperature falls as the iterations go by. Four of them
multiply or divide by a rate and need it strictly between 0 and 1 to cool at all; the
linear one ignores the rate, and the adaptive one brings the rate into range itself.
-/

namespace Annealing

/-- How the temperature falls with the iteration count. -/
inductive Strategy
  | linear
  | exponential
  | logarithmic
  | geometric
  | quadratic
  | hyperbolic
  | adaptive
  deriving DecidableEq, Repr, Inhabited

namespace Strategy

/-- Every strategy, in the order they are listed to users. -/
def all : List Strategy :=
  [linear, exponential, logarithmic, geometric, quadratic, hyperbolic, adaptive]

/-- The strategy a configuration uses when none is chosen. -/
def default : Strategy := exponential

/-- The name a user writes for the strategy. -/
def name : Strategy → String
  | linear => "Linear"
  | exponential => "Exponential"
  | logarithmic => "Logarithmic"
  | geometric => "Geometric"
  | quadratic => "Quadratic"
  | hyperbolic => "Hyperbolic"
  | adaptive => "Adaptive"

/-- The strategy with the given name; names are case-sensitive. -/
def ofName? (s : String) : Option Strategy :=
  all.find? (·.name == s)

/-- Whether the strategy needs a cooling rate strictly between 0 and 1. -/
def requiresUnitRate : Strategy → Bool
  | linear | adaptive => false
  | _ => true

theorem ofName?_name (s : Strategy) : ofName? s.name = some s := by
  cases s <;> rfl

end Strategy

end Annealing
