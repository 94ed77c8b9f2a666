/-! The value of a double, and its decimal expansions, in whole numbers. -/

namespace MigrationMining.Decimal

/-- A finite double is `significand · 2^exponent`, up to its sign. -/
structure Binary64 where
  negative : Bool
  significand : Nat
  exponent : Int
  deriving DecidableEq

/-- Reads the fields of a finite double; the infinities and NaN have no value. -/
def Binary64.ofBits? (bits : UInt64) : Option Binary64 :=
  let n := bits.toNat
  let fraction : Nat := n % Nat.pow 2 52
  let biased : Nat := n / Nat.pow 2 52 % Nat.pow 2 11
  let negative := n / Nat.pow 2 63 == 1
  if biased = 2047 then none
  else if biased = 0 then some ⟨negative, fraction, -1074⟩
  else some ⟨negative, fraction + Nat.pow 2 52, (biased : Int) - 1075⟩

def roundDiv (num den : Nat) : Nat :=
  let q := num / den
  let r := num % den
  if 2 * r < den then q
  else if den < 2 * r then q + 1
  else if q % 2 = 0 then q else q + 1

/-- The value times `10^places`, rounded to a whole number, ties to even. -/
def Binary64.scaled (x : Binary64) (places : Nat) : Nat :=
  if 0 ≤ x.exponent then x.significand * Nat.pow 2 x.exponent.toNat * Nat.pow 10 places
  else roundDiv (x.significand * Nat.pow 10 places) (Nat.pow 2 (-x.exponent).toNat)

end MigrationMining.Decimal
