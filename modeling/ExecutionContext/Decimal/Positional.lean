import ExecutionContext.Decimal.Shortest

/-!
# Positional text of numbers

A decimal is written with its point in place and never with an exponent: zeros
fill up to the units or behind the point, and an integral value has no point. A
floating-point number is the positional text of its shortest decimal, behind its
sign; zero keeps its sign too.
-/

namespace ExecutionContext

namespace Decimal

/-- The digits without trailing zeros, and how many zeros were cut. -/
def trimZeros (digits : List Char) : List Char × Nat :=
  let zeros := (digits.reverse.takeWhile (· = '0')).length
  (digits.take (digits.length - zeros), zeros)

/-- Place the point among the digits. -/
def place (digits : List Char) (exponent : Int) : List Char :=
  if 0 ≤ exponent then
    digits ++ List.replicate exponent.toNat '0'
  else
    let places := (-exponent).toNat
    if places < digits.length then
      digits.take (digits.length - places) ++ '.' :: digits.drop (digits.length - places)
    else
      '0' :: '.' :: (List.replicate (places - digits.length) '0' ++ digits)

/-- The positional text of a decimal other than zero. -/
def positional (decimal : Decimal) : String :=
  let (digits, zeros) := trimZeros (Nat.toDigits 10 decimal.digits)
  String.ofList (place digits (decimal.exponent + zeros))

end Decimal

def Binary64.text (x : Binary64) : String :=
  if x.isNaN then
    "NaN"
  else
    let sign := if x.isNegative then "-" else ""
    if x.isInfinite then sign ++ "inf"
    else if x.isZero then sign ++ "0"
    else sign ++ (Decimal.shortest x).positional

example : (Binary64.mk 0x3FB999999999999A).text = "0.1" := by decide +kernel
example : (Binary64.mk 0x444B1AE4D6E2EF50).text = "1000000000000000000000" := by decide +kernel
example : (Binary64.mk 0x3E60000000000000).text = "0.000000029802322387695313" := by
  decide +kernel
example : (Binary64.mk 0x8000000000000000).text = "-0" := by decide +kernel

end ExecutionContext
