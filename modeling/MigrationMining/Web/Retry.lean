import MigrationMining.Web.FetchFailure

/-! Trying again: an attempt is repeated while it fails transiently, up to a limit. -/

namespace MigrationMining

structure RetryPolicy where
  backoff : Nat := 30
  maxAttempts : Option Nat := none
  deriving DecidableEq

namespace RetryPolicy

/-- Attempts are counted in 32 bits, and there is always a first one. -/
def limit (p : RetryPolicy) : Nat := max (p.maxAttempts.getD (Nat.pow 2 32)) 1

def attemptFrom {σ α : Type} (url : String) (attempt : StateM σ (Except FetchFailure α)) :
    (left made : Nat) → StateM σ (Except FetchFailure α)
  | 0, made => pure (.error (.exhausted url made))
  | left + 1, made => do
    match ← attempt with
    | .ok a => return .ok a
    | .error e => if e.isTransient then attemptFrom url attempt left (made + 1) else return .error e

/-- What the `made`-th attempt settles; nothing, if there is to be another one. -/
def settled? {α : Type} (p : RetryPolicy) (url : String) (made : Nat) :
    Except FetchFailure α → Option (Except FetchFailure α)
  | .ok a => some (.ok a)
  | .error e =>
    if !e.isTransient then some (.error e)
    else if p.limit ≤ made then some (.error (.exhausted url made))
    else none

def run {σ α : Type} (p : RetryPolicy) (url : String) (attempt : StateM σ (Except FetchFailure α)) :
    StateM σ (Except FetchFailure α) := attemptFrom url attempt p.limit 0

end RetryPolicy

end MigrationMining
