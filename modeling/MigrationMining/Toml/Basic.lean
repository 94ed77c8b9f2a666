/-! TOML values, and how the tables of a document grow. A table remembers how it came to be, which decides how it
may be added to. -/

namespace MigrationMining

inductive Toml.Origin where
  | inline
  | header
  | implied
  | dotted
  deriving DecidableEq

inductive Toml where
  | string (text : String)
  | integer (value : Int)
  | float
  | boolean (value : Bool)
  | datetime
  | array (items : List Toml)
  | table (origin : Toml.Origin) (entries : List (String × Toml))
  | tables (rows : List (List (String × Toml)))
  deriving Inhabited

namespace Toml

abbrev Entries := List (String × Toml)

namespace Entries

def get? (es : Entries) (key : String) : Option Toml := (es.find? (·.1 = key)).map (·.2)

def set (es : Entries) (key : String) (value : Toml) : Entries :=
  es.map fun (k, v) => if k = key then (k, value) else (k, v)

def add (es : Entries) (key : String) (value : Toml) : Entries := es ++ [(key, value)]

/-- Puts a value at a dotted key. A table on the way must have been made by dotted keys, or be implied and only
passed through. -/
def put (es : Entries) (path : List String) (key : String) (value : Toml) : Option Entries :=
  match path with
  | [] => if (es.get? key).isSome then none else some (es.add key value)
  | p :: ps =>
    match es.get? p with
    | none => (put [] ps key value).map fun inner => es.add p (.table .dotted inner)
    | some (.table .dotted inner) => (put inner ps key value).map fun inner => es.set p (.table .dotted inner)
    | some (.table .implied inner) =>
      if ps.isEmpty then none else (put inner ps key value).map fun inner => es.set p (.table .implied inner)
    | some (.tables rows) =>
      match rows.getLast? with
      | none => none
      | some last =>
        if ps.isEmpty then none else (put last ps key value).map fun last => es.set p (.tables (rows.dropLast ++ [last]))
    | some _ => none

/-- Changes the table that a header's path leads to, through the last row of each repeated header. Tables on the
way that are missing are made. -/
def reach (change : Entries → Option Entries) (es : Entries) : List String → Option Entries
  | [] => change es
  | p :: ps =>
    match es.get? p with
    | none => (reach change [] ps).map fun inner => es.add p (.table .implied inner)
    | some (.table .inline _) => none
    | some (.table origin inner) => (reach change inner ps).map fun inner => es.set p (.table origin inner)
    | some (.tables rows) =>
      match rows.getLast? with
      | none => none
      | some last => (reach change last ps).map fun last => es.set p (.tables (rows.dropLast ++ [last]))
    | some _ => none

/-- Opens a table by its header, which may not have been opened before. -/
def openTable (path : List String) (key : String) (es : Entries) : Option Entries :=
  es.reach (fun es =>
    match es.get? key with
    | none => some (es.add key (.table .header []))
    | some (.table .implied inner) => some (es.set key (.table .header inner))
    | some _ => none) path

def openRow (path : List String) (key : String) (es : Entries) : Option Entries :=
  es.reach (fun es =>
    match es.get? key with
    | none => some (es.add key (.tables [[]]))
    | some (.tables rows) => some (es.set key (.tables (rows ++ [[]])))
    | some _ => none) path

end Entries

end Toml

end MigrationMining
