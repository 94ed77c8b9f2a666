import MigrationMining.Coordinate

/-! Files of client pairs: a line `old,new` for each; blank lines, comments and lines that are no pair are skipped. -/

namespace MigrationMining.Console

def pairHalf? (cs : List Char) : Option Coordinate := (Coordinate.parse (String.ofList (Text.trim cs))).toOption

def pair? (line : List Char) : Option (Coordinate × Coordinate) := do
  let line := Text.trim line
  if line.head? = some '#' then none
  let (old, new) ← Text.splitOnce ',' line
  return (← pairHalf? old, ← pairHalf? new)

def pairs (text : String) : List (Coordinate × Coordinate) := (Text.lines text.toList).filterMap pair?

end MigrationMining.Console
