import MigrationMining.Coordinate
import MigrationMining.Diagnostic
import MigrationMining.Distinct
import MigrationMining.FileStore
import MigrationMining.Text.Blank

/-! A dump of a dependency graph: two files of rows, one with the releases of projects and one with the
dependencies between releases. Rows that cannot be read are reported and skipped. -/

namespace MigrationMining

structure GraphRow where
  source : String
  target : String
  scope : Option String
  deriving DecidableEq

namespace GraphRow

def stripQuotes (cs : List Char) : List Char :=
  ((cs.dropWhile (· = '"')).reverse.dropWhile (· = '"')).reverse

def fields (line : List Char) : List (List Char) := (Text.splitOn ',' line).map fun f => stripQuotes (Text.trim f)

/-- White space and quotation marks around a field are dropped; source and target must say something. -/
def parse (line : List Char) : Option GraphRow :=
  match fields line with
  | source :: target :: rest =>
    if source.isEmpty || target.isEmpty then none
    else some {
      source := String.ofList source
      target := String.ofList target
      scope := match rest with
        | [] | [] :: _ => none
        | scope :: _ => some (String.ofList scope) }
  | _ => none

/-- A dependency without a scope is one of the compiled code. -/
def isCompile (r : GraphRow) : Bool := r.scope.all (· = "compile")

end GraphRow

structure GraphScan where
  rows : List GraphRow := []
  blank : Nat := 0
  malformed : List Nat := []
  /-- After which line a line that is no text was met. -/
  stoppedAfter : Option Nat := none
  deriving DecidableEq

namespace GraphScan

def byteLines (content : ByteArray) : List (Option (List Char)) :=
  let pieces := Text.splitOn 10 content.toList
  let pieces := if pieces.getLast? = some [] then pieces.dropLast else pieces
  pieces.map fun piece => (String.fromUTF8? ⟨piece.toArray⟩).map (·.toList)

def ofLines (done : Nat) : List (Option (List Char)) → GraphScan
  | [] => {}
  | none :: _ => { stoppedAfter := some done }
  | some line :: rest =>
    let s := ofLines (done + 1) rest
    if Text.allBlank line then { s with blank := s.blank + 1 }
    else match GraphRow.parse line with
      | some row => { s with rows := row :: s.rows }
      | none => { s with malformed := (done + 1) :: s.malformed }

def ofBytes (content : ByteArray) : GraphScan := ofLines 0 (byteLines content)

/-- The diagnostics about a scanned file: where reading stopped, then how many rows were skipped. -/
def diagnostics (path : Path) (s : GraphScan) : DiagnosticLog :=
  (match s.stoppedAfter with
    | some n =>
      [⟨.malformedInput, path.text, "read stopped after line " ++ toString n ++ ": " ++ FileFailure.notText.message⟩]
    | none => []) ++
  (match s.malformed with
    | [] => []
    | first :: _ =>
      [⟨.malformedInput, path.text, "skipped " ++ toString s.malformed.length ++
        " malformed rows, first at line " ++ toString first⟩])

end GraphScan

/-- The directory of a dump. -/
structure DependencyGraph where
  dir : Path
  deriving DecidableEq

namespace DependencyGraph

def releasesFile : String := "next_all.csv"

def linksFile : String := "links_all.csv"

/-- The rows of one of the files, and what there is to report about it. -/
def rows (g : DependencyGraph) (name : String) (fs : FileStore) : List GraphRow × DiagnosticLog :=
  let path := g.dir / name
  match fs.readBytes path with
  | .ok content =>
    let s := GraphScan.ofBytes content
    (s.rows, s.diagnostics path)
  | .error .isADirectory =>
    ([], [⟨.malformedInput, path.text, "read stopped after line 0: " ++ FileFailure.isADirectory.message⟩])
  | .error e => ([], [⟨.notFound, path.text, e.message⟩])

/-- The coordinates that fields of a file name, with a diagnostic for each field that names none. -/
def coordinates (name : String) : List String → List Coordinate × DiagnosticLog
  | [] => ([], [])
  | field :: fields =>
    let (cs, log) := coordinates name fields
    match Coordinate.parse field with
    | .ok c => (c :: cs, log)
    | .error e => (cs, ⟨.malformedInput, name, e.failure.message⟩ :: log)

def mentions (p : Project) (field : String) : Bool := (p.text ++ ":").toList.isPrefixOf field.toList

/-- The releases of a project, each once, in the order in which rows name them. -/
def releases (g : DependencyGraph) (p : Project) (fs : FileStore) : List Coordinate × DiagnosticLog :=
  let (rows, scanned) := g.rows releasesFile fs
  let fields := (rows.flatMap fun r => [r.source, r.target]).filter (mentions p)
  let (cs, parsed) := coordinates releasesFile fields
  (distinct (cs.filter (·.project = p)), scanned ++ parsed)

def clients (g : DependencyGraph) (library : Coordinate) (fs : FileStore) : List Coordinate × DiagnosticLog :=
  let (rows, scanned) := g.rows linksFile fs
  let fields := (rows.filter fun r => r.target = library.text && r.isCompile).map (·.source)
  let (cs, parsed) := coordinates linksFile fields
  (distinct cs, scanned ++ parsed)

def isListed (g : DependencyGraph) (c : Coordinate) (fs : FileStore) : Bool × DiagnosticLog :=
  let (rows, scanned) := g.rows releasesFile fs
  (rows.any fun r => r.source = c.text || r.target = c.text, scanned)

def dependencies (g : DependencyGraph) (client : Coordinate) (fs : FileStore) : List Coordinate × DiagnosticLog :=
  let (rows, scanned) := g.rows linksFile fs
  let fields := (rows.filter fun r => r.source = client.text && r.isCompile).map (·.target)
  let (cs, parsed) := coordinates linksFile fields
  (cs, scanned ++ parsed)

/-- The links of dependency rows. A row whose target names no release is given up before its source is read. -/
def linksOf : List GraphRow → List Link × DiagnosticLog
  | [] => ([], [])
  | r :: rs =>
    let (ls, log) := linksOf rs
    match Coordinate.parse r.target, Coordinate.parse r.source with
    | .ok library, .ok client => (⟨library, client⟩ :: ls, log)
    | .error e, _ | _, .error e => (ls, ⟨.malformedInput, linksFile, e.failure.message⟩ :: log)

/-- The links to all releases of a project, each once, found in one pass. -/
def links (g : DependencyGraph) (p : Project) (fs : FileStore) : List Link × DiagnosticLog :=
  let (rows, scanned) := g.rows linksFile fs
  let (ls, parsed) := linksOf (rows.filter fun r => mentions p r.target && r.isCompile)
  (distinct (ls.filter (·.library.project = p)), scanned ++ parsed)

end DependencyGraph

end MigrationMining
