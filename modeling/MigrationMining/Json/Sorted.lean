import MigrationMining.Json.Basic
import Std.Data.ExtTreeMap

/-! JSON values with the members of all objects in ascending order, each name once: the last of its members counts. -/

namespace MigrationMining.Json

def byName (members : List (String × Json)) : List (String × Json) := (Std.ExtTreeMap.ofList members compare).toList

mutual

def sorted : Json → Json
  | .array items => .array (sortedItems items)
  | .object members => .object (byName (sortedMembers members))
  | other => other

def sortedItems : List Json → List Json
  | [] => []
  | x :: xs => sorted x :: sortedItems xs

def sortedMembers : List (String × Json) → List (String × Json)
  | [] => []
  | (name, value) :: ms => (name, sorted value) :: sortedMembers ms

end

end MigrationMining.Json
