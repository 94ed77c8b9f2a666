import MigrationMining.Json.Basic

/-! Reading typed data out of JSON values. A record is an object that gives each known name at most once and
may have other members, or an array of the values in the order of the names. -/

namespace MigrationMining.Json

def string? : Json → Option String
  | .string s => some s
  | _ => none

/-- A whole number of at most 64 bits; `1.0` and `-0` are none. -/
def nat? : Json → Option Nat
  | .number (.integer false n) => if n < Nat.pow 2 64 then some n else none
  | _ => none

def list? {α : Type} (item : Json → Option α) : Json → Option (List α)
  | .array items => items.mapM item
  | _ => none

/-- The values of a record in the order of `names`, `none` where it gives none. -/
def record? (names : List String) : Json → Option (List (Option Json))
  | .object members =>
    if names.all fun name => members.countP (·.1 = name) ≤ 1 then
      some (names.map fun name => (members.find? (·.1 = name)).map (·.2))
    else none
  | .array items =>
    if items.length ≤ names.length then
      some (items.map some ++ List.replicate (names.length - items.length) none)
    else none
  | _ => none

end MigrationMining.Json
