import ExecutionContext.Decimal.Binary64

/-!
# The fewest decimal digits that read back

The reals that round to a finite number form an interval: from halfway to the
neighbour below to halfway to the neighbour above, with its ends exactly when the
significand is even. `Decimal.shortest` looks on decimal grids of one digit, two
digits, and so on, for the two neighbours of the number, and takes the first grid
on which one of them lies in the interval. Of two such neighbours the nearer wins,
and the upper one when both are equally near. All arithmetic is exact.
-/

namespace ExecutionContext

/-- The decimal `digits * 10 ^ exponent`. -/
structure Decimal where
  digits : Nat
  exponent : Int
deriving DecidableEq

namespace Decimal

/-- A positive number and the ends of its rounding interval, as numerators over `2 ^ scale`. -/
structure Interval where
  low : Nat
  value : Nat
  high : Nat
  scale : Nat
  closed : Bool

/-- The rounding interval of the magnitude of a finite number other than zero. -/
def Interval.ofBinary (x : Binary64) : Interval :=
  let exponentField := x.magnitude / Nat.pow 2 52
  let fraction := x.magnitude % Nat.pow 2 52
  let significand := if exponentField = 0 then fraction else Nat.pow 2 52 + fraction
  let power : Int := (if exponentField = 0 then 1 else exponentField : Nat) - 1077
  let below := if fraction = 0 ∧ 1 < exponentField then 1 else 2
  let factor := Nat.pow 2 power.toNat
  { low := (4 * significand - below) * factor
    value := 4 * significand * factor
    high := (4 * significand + 2) * factor
    scale := (-power).toNat
    closed := significand % 2 = 0 }

/-- The neighbour of the number on the grid of multiples of `10 ^ exponent` that lies in
its interval, if one does. -/
def Interval.onGrid (interval : Interval) (exponent : Int) : Option Nat :=
  let shift := Nat.pow 10 (-exponent).toNat
  let step := Nat.pow 2 interval.scale * Nat.pow 10 exponent.toNat
  let value := interval.value * shift
  let lower := value / step
  let inside (point : Nat) : Bool :=
    let place := point * step
    let low := interval.low * shift
    let high := interval.high * shift
    decide (low < place ∧ place < high) ||
      (interval.closed && (decide (place = low) || decide (place = high)))
  match inside lower, inside (lower + 1) with
  | true, true => some (if 2 * value < (2 * lower + 1) * step then lower else lower + 1)
  | true, false => some lower
  | false, true => some (lower + 1)
  | false, false => none

/-- The least `k` for which the number lies below `10 ^ k`. -/
def Interval.leadingPower (interval : Interval) : Int :=
  let unit := Nat.pow 2 interval.scale
  if unit ≤ interval.value then
    (Nat.toDigits 10 (interval.value / unit)).length
  else
    match (List.range 400).find? (fun places => unit ≤ interval.value * Nat.pow 10 places) with
    | some places => 1 - (places : Int)
    | none => -400

/-- The number itself, as a decimal. -/
def Interval.exact (interval : Interval) : Decimal :=
  ⟨interval.value * Nat.pow 5 interval.scale, -(interval.scale : Int)⟩

/-- The shortest decimal in the interval that is nearest to the number. -/
def shortest (x : Binary64) : Decimal :=
  let interval := Interval.ofBinary x
  let top := interval.leadingPower
  let found := (List.range 17).findSome? fun count =>
    let exponent := top - ((count + 1 : Nat) : Int)
    (interval.onGrid exponent).map (Decimal.mk · exponent)
  found.getD interval.exact

end Decimal

end ExecutionContext
