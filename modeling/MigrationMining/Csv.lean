import MigrationMining.Text.Pieces

/-! Comma-separated records as RFC 4180 writes them, each ended by a line feed. -/

namespace MigrationMining.Csv

def needsQuotes (c : Char) : Bool := c = ',' || c = '"' || c = '\n' || c = '\r'

/-- A field that holds a separator or a quotation mark stands in quotation marks, with those inside doubled. -/
def field (s : String) : List Char :=
  let cs := s.toList
  if cs.any needsQuotes then '"' :: cs.flatMap (fun c => if c = '"' then ['"', '"'] else [c]) ++ ['"']
  else cs

def record (fields : List String) : List Char := Text.joinWith [','] (fields.map field) ++ ['\n']

def render (records : List (List String)) : String := String.ofList (records.flatMap record)

end MigrationMining.Csv
