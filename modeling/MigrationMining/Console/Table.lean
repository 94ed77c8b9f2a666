import MigrationMining.Json.Printer
import MigrationMining.Json.Sorted
import MigrationMining.Text.Pieces
import MigrationMining.Text.Width

/-! Tables with rounded corners: rows of objects, with a column for each member of the first. -/

namespace MigrationMining.Console

def isRows (items : List Json) : Bool := !items.isEmpty && items.all (·.isObject)

/-- A cell shows texts as they are and nothing for a value that is missing. -/
def cellText : Option Json → String
  | some (.string s) => s
  | some .null | none => ""
  | some other => other.compact

def columnNames (rows : List Json) : List String :=
  match rows with
  | .object members :: _ => members.map (·.1)
  | _ => []

namespace Table

abbrev Cell := List (List Char)

def cell (text : String) : Cell := Text.splitOn '\n' text.toList

def records (rows : List Json) : List (List Cell) :=
  let names := columnNames rows
  names.map cell :: rows.map fun row => names.map fun name => cell (cellText (row.member? name))

def cellWidth (c : Cell) : Nat := (c.map Text.width).max?.getD 0

def columnWidths (records : List (List Cell)) : List Nat :=
  match records with
  | [] => []
  | first :: _ => first.zipIdx.map fun (_, i) => (records.map fun r => (r[i]?.map cellWidth).getD 0).max?.getD 0

def rule (left middle right : Char) (widths : List Nat) : List Char :=
  left :: Text.joinWith [middle] (widths.map fun w => List.replicate (w + 2) '─') ++ [right]

def pad (width : Nat) (line : List Char) : List Char := line ++ List.replicate (width - Text.width line) ' '

def recordLines (widths : List Nat) (r : List Cell) : List (List Char) :=
  let height := (r.map (·.length)).max?.getD 1
  (List.range height).map fun i =>
    '│' :: Text.joinWith ['│'] ((r.zip widths).map fun (cell, w) => ' ' :: pad w (cell[i]?.getD []) ++ [' ']) ++ ['│']

def lines (records : List (List Cell)) : List (List Char) :=
  let widths := columnWidths records
  match records with
  | [] => []
  | header :: body =>
    rule '╭' '┬' '╮' widths :: recordLines widths header ++ [rule '├' '┼' '┤' widths] ++
      body.flatMap (recordLines widths) ++ [rule '╰' '┴' '╯' widths]

def render (rows : List Json) : String :=
  let rows := rows.map Json.sorted
  if (columnNames rows).isEmpty then ""
  else String.ofList (Text.joinWith ['\n'] (lines (records rows)))

end Table

end MigrationMining.Console
