/-!
# Binary floating-point numbers of 64 bits

A number is its bit pattern: one sign bit, eleven exponent bits and fifty-two
fraction bits. Two patterns are identical when their bits agree; numbers compare
by value, so the two zeros are equal and a NaN equals nothing, itself included.
-/

namespace ExecutionContext

/-- A floating-point number, given by its bits. -/
structure Binary64 where
  bits : UInt64
deriving DecidableEq, Inhabited

namespace Binary64

/-- The quiet NaN with an empty payload. -/
def nan : Binary64 := ⟨0x7FF8000000000000⟩

/-- All bits but the sign. -/
def magnitude (x : Binary64) : Nat :=
  x.bits.toNat % Nat.pow 2 63

def isNegative (x : Binary64) : Bool :=
  decide (Nat.pow 2 63 ≤ x.bits.toNat)

/-- The magnitude of the infinities; every NaN lies above it. -/
def infiniteMagnitude : Nat :=
  2047 * Nat.pow 2 52

def isNaN (x : Binary64) : Bool :=
  decide (infiniteMagnitude < x.magnitude)

def isInfinite (x : Binary64) : Bool :=
  decide (x.magnitude = infiniteMagnitude)

def isZero (x : Binary64) : Bool :=
  decide (x.magnitude = 0)

/-- Equality of the numbers that the patterns stand for. -/
def equal (x y : Binary64) : Bool :=
  !x.isNaN && !y.isNaN && (decide (x = y) || (x.isZero && y.isZero))

theorem equal_comm (x y : Binary64) : x.equal y = y.equal x := by
  have h : decide (x = y) = decide (y = x) := by
    simp [eq_comm]
  unfold equal
  rw [h]
  cases x.isNaN <;> cases y.isNaN <;> cases x.isZero <;> cases y.isZero <;> rfl

theorem equal_self (x : Binary64) : x.equal x = !x.isNaN := by
  simp [equal]

end Binary64

end ExecutionContext
