/-! Reading whole numbers written in decimal digits. -/

namespace MigrationMining.Text

def digit? (c : Char) : Option Nat := if '0' ≤ c ∧ c ≤ '9' then some (c.toNat - 48) else none

def digitsFrom (n : Nat) : List Char → Option Nat
  | [] => some n
  | c :: r => (digit? c).bind fun d => digitsFrom (n * 10 + d) r

def number? (bits : Nat) (cs : List Char) : Option Nat :=
  let digits := match cs with
    | '+' :: r => r
    | cs => cs
  if digits.isEmpty then none else (digitsFrom 0 digits).filter (· < Nat.pow 2 bits)

end MigrationMining.Text
