/-! JSON values. Members keep their order and may repeat a name, so that a reader can tell. -/

namespace MigrationMining

/-- A number as it is written: an integer, or `mantissa · 10^exponent` when there is a fraction or an exponent. -/
inductive Json.Number where
  | integer (negative : Bool) (magnitude : Nat)
  | decimal (negative : Bool) (mantissa : Nat) (exponent : Int)
  deriving DecidableEq

inductive Json where
  | null
  | boolean (value : Bool)
  | number (value : Json.Number)
  | string (text : String)
  | array (items : List Json)
  | object (members : List (String × Json))
  deriving Inhabited

namespace Json

def nat (n : Nat) : Json := .number (.integer false n)

def int (n : Int) : Json := .number (.integer (n < 0) n.natAbs)

def strings (texts : List String) : Json := .array (texts.map .string)

def isObject : Json → Bool
  | .object _ => true
  | _ => false

/-- The last member of that name. -/
def member? (name : String) : Json → Option Json
  | .object members => (members.reverse.find? (·.1 = name)).map (·.2)
  | _ => none

end Json

end MigrationMining
