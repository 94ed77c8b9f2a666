import MigrationMining.Decimal.Places
import MigrationMining.Pipeline.Download
import MigrationMining.Pipeline.Migration

/-! Results of commands as JSON. -/

namespace MigrationMining.Console

/-- How many diagnostics there were of each kind, kinds without any left out. -/
def diagnosticCounts (log : DiagnosticLog) : Json := .object (log.summary.map fun (kind, n) => (kind.text, .nat n))

def versionRows (versions : List Coordinate) : Json :=
  .array (versions.map fun v => .object [("version", .string v.version), ("coordinate", .string v.text)])

def candidateRow (rank : Nat) (c : Candidate) : Json :=
  .object [("rank", .nat rank), ("v1", .string c.older.version), ("v2", .string c.newer.version),
    ("migrated", .nat c.migrated)]

def candidateRows (candidates : List Candidate) (limit : Nat) : Json :=
  .array ((candidates.take limit).zipIdx.map fun (c, i) => candidateRow (i + 1) c)

def orNull (text : Option String) : Json :=
  match text with
  | some s => .string s
  | none => .null

def clientsPerVersion (s : Statistics) : String :=
  "avg " ++ Decimal.toPlaces s.average.toFloat 1 ++ ", min " ++ toString s.fewest ++ ", max " ++ toString s.most

def analysisReport (a : Analysis) (topCandidates : Nat) (log : DiagnosticLog) : Json :=
  let s := a.statistics
  .object [
    ("library", .string a.dataset.library.text),
    ("versions", .nat s.versions),
    ("first_version", orNull s.firstVersion),
    ("last_version", orNull s.lastVersion),
    ("clients", .nat s.clients),
    ("links", .nat s.links),
    ("orphan_versions", .nat s.orphans.length),
    ("density", .string (Decimal.toPlaces s.density.toFloat 4)),
    ("clients_per_version", .string (clientsPerVersion s)),
    ("candidates", candidateRows a.candidates topCandidates),
    ("output_dir", .string a.directory.text),
    ("cancelled", .boolean a.cancelled),
    ("diagnostics", diagnosticCounts log)]

def downloadReport (a : Analysis) (d : DownloadSummary) (cancelled : Bool) (log : DiagnosticLog) : Json :=
  .object [
    ("library", .string a.dataset.library.text),
    ("downloaded", .nat d.fetched.length),
    ("unavailable", .strings (d.unavailable.map (·.text))),
    ("output_dir", .string a.directory.text),
    ("cancelled", .boolean cancelled),
    ("diagnostics", diagnosticCounts log)]

def pairRow (p : PairReport) : Json :=
  .object [
    ("client_old", .string p.old.text),
    ("client_new", .string p.new.text),
    ("removed", .nat p.delta.removed.size),
    ("added", .nat p.delta.added.size),
    ("updated", .nat p.delta.updated.size),
    ("tuples", .nat p.adaptations.length),
    ("output", .string ((p.output.map (·.text)).getD "skipped"))]

def migrationReport (r : MigrationReport) (log : DiagnosticLog) : Json :=
  .object [
    ("pairs", .array (r.pairs.map pairRow)),
    ("tuples", .nat r.adaptationCount),
    ("skipped", .nat r.skipped),
    ("cancelled", .boolean r.cancelled),
    ("diagnostics", diagnosticCounts log)]

structure ModelRow where
  archive : Path
  coordinate : Coordinate
  callers : Nat
  invocations : Nat
  focusCallers : Nat
  deriving DecidableEq

def ModelRow.toJson (r : ModelRow) : Json :=
  .object [
    ("archive", .string r.archive.text),
    ("coordinate", .string r.coordinate.text),
    ("callers", .nat r.callers),
    ("invocations", .nat r.invocations),
    ("focus_callers", .nat r.focusCallers)]

def modelsReport (backend : String) (archives : Nat) (rows : List ModelRow) (counts : CacheCounts) (cancelled : Bool)
    (log : DiagnosticLog) : Json :=
  .object [
    ("backend", .string backend),
    ("archives", .nat archives),
    ("models", .array (rows.map (·.toJson))),
    ("extracted", .nat counts.extractions),
    ("cache_hits", .nat (counts.memoryHits + counts.diskHits)),
    ("discarded_cache_entries", .nat counts.discarded),
    ("cancelled", .boolean cancelled),
    ("diagnostics", diagnosticCounts log)]

end MigrationMining.Console
