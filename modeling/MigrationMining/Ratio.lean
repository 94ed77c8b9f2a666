/-! Shares and averages as fractions of counts. -/

namespace MigrationMining

structure Ratio where
  num : Nat
  den : Nat
  deriving DecidableEq

/-- The quotient of the two counts, and nothing over nothing is zero. -/
def Ratio.toFloat (r : Ratio) : Float :=
  if r.den = 0 then 0 else Float.ofNat r.num / Float.ofNat r.den

end MigrationMining
