import MigrationMining.Decimal.Binary64

/-! Doubles written with a fixed number of decimal places. -/

namespace MigrationMining.Decimal

def withPoint (n places : Nat) : List Char :=
  let whole := (n / Nat.pow 10 places).repr.toList
  if places = 0 then whole
  else
    let fraction := (n % Nat.pow 10 places).repr.toList
    whole ++ '.' :: (List.replicate (places - fraction.length) '0' ++ fraction)

def toPlaces (x : Float) (places : Nat) : String :=
  match Binary64.ofBits? x.toBits with
  | none => if x.isNaN then "NaN" else if x < 0 then "-inf" else "inf"
  | some b => String.ofList ((if b.negative then ['-'] else []) ++ withPoint (b.scaled places) places)

end MigrationMining.Decimal
