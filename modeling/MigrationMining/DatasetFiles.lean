import MigrationMining.Adaptation
import MigrationMining.Csv
import MigrationMining.FileStore
import MigrationMining.Json.Printer
import MigrationMining.Json.Reader

/-! The files of a mined dataset: their names, their texts, and reading candidates back. -/

namespace MigrationMining.DatasetFiles

def linksName : String := "links.csv"

def matrixName : String := "versionMatrix.csv"

def candidatesName : String := "candidates.json"

def librariesName : String := "libraries"

def clientsName : String := "clients"

def migrationsName : String := "migrations"

def linksText (links : List Link) : String :=
  Csv.render (links.map fun link => [link.library.text, link.client.text])

/-- A header of clients, and for each library version the versions of the clients that use it. -/
def matrixText (m : UsageMatrix) : String :=
  Csv.render (("" :: m.clients.toList.map (·.text)) ::
    m.rows.map fun (library, cells) => library.version :: cells.map (·.getD ""))

def candidatesText (candidates : List Candidate) : String := (Json.array (candidates.map (·.toJson))).indented

def adaptationsText (adaptations : List Adaptation) : String :=
  (Json.array (adaptations.map (·.toJson))).indented

/-- The name of the file for the adaptations between two releases of a client. -/
def pairName (old new : Coordinate) : String := old.fileStem ++ "__" ++ new.fileStem ++ ".json"

def parseCandidates (text : String) : Except Failure (List Candidate) :=
  match (Json.read text).bind (·.list? Candidate.ofJson?) with
  | some candidates => .ok candidates
  | none => .error (.serialization "not a list of candidates")

def parseAdaptations (text : String) : Except Failure (List Adaptation) :=
  match (Json.read text).bind (·.list? Adaptation.ofJson?) with
  | some adaptations => .ok adaptations
  | none => .error (.serialization "not a list of adaptations")

def readCandidates (fs : FileStore) (dir : Path) : Except Failure (List Candidate) :=
  match fs.readText (dir / candidatesName) with
  | .ok text => parseCandidates text
  | .error e => .error e.failure

end MigrationMining.DatasetFiles
