/-! A limit on requests to one host: how many may be made at once before any time has passed. -/

namespace MigrationMining

structure Throttle where
  free : Nat
  deriving DecidableEq

namespace Throttle

/-- As many requests as the host takes in a second, and at least one. -/
def perSecond (rate : Nat) : Throttle := ⟨max rate 1⟩

def tryTake (t : Throttle) : Bool × Throttle := (0 < t.free, ⟨t.free - 1⟩)

def tryTakes : Nat → Throttle → List Bool
  | 0, _ => []
  | n + 1, t => t.tryTake.1 :: tryTakes n t.tryTake.2

end Throttle

end MigrationMining
