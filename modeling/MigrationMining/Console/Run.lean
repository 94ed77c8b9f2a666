import MigrationMining.CodeModel.Archives
import MigrationMining.CodeModel.Focus
import MigrationMining.Console.Pairs
import MigrationMining.Console.Platform
import MigrationMining.Console.Rendering
import MigrationMining.Console.Report
import MigrationMining.Pipeline.Overlap
import MigrationMining.Settings.Load

/-! Running the program: the commands on a world, what is printed, and how the program ends. -/

namespace MigrationMining.Console

/-- Why a command fails: what could not be done, and the causes below it, each explained by the next. -/
structure Complaint where
  message : String
  causes : List String := []
  deriving DecidableEq

namespace Complaint

def indented (indent : String) (text : String) : String :=
  String.intercalate ("\n" ++ indent) ((Text.splitOn '\n' text.toList).map String.ofList)

def numbered (i : Nat) (cause : String) : String :=
  let n := toString i
  String.ofList (List.replicate (5 - n.length) ' ') ++ n ++ ": " ++ indented "       " cause

def text (c : Complaint) : String :=
  match c.causes with
  | [] => "Error: " ++ c.message ++ "\n"
  | [cause] => "Error: " ++ c.message ++ "\n\nCaused by:\n    " ++ indented "    " cause ++ "\n"
  | causes =>
    "Error: " ++ c.message ++ "\n\nCaused by:\n" ++
      String.intercalate "\n" (causes.zipIdx.map fun (cause, i) => numbered i cause) ++ "\n"

def chain (f : Failure) : List String :=
  match f with
  | .file cause | .serialization cause => [f.message, cause]
  | _ => [f.message]

end Complaint

abbrev Attempt (α : Type) := ExceptT Complaint (StateM World) α

/-- What happens to the world is a step of an attempt; a failure it answers with is not yet a complaint. -/
def step {α : Type} (m : StateM World α) : Attempt α := ExceptT.lift m

def orComplain {ε α : Type} (message : String) (causes : ε → List String) (r : Except ε α) : Attempt α :=
  match r with
  | .ok a => pure a
  | .error e => throw ⟨message, causes e⟩

def libraryOf (text : String) : Attempt Project :=
  orComplain ("Invalid library coordinate '" ++ text ++ "'") (fun e => Complaint.chain e.failure) (Project.parse text)

def setupOf (p : Platform) (s : Settings) : Attempt Setup :=
  orComplain "Failed to set up the artifact source" (fun e => [e.message]) (Setup.ofSettings p.connect s)

def extractorOf (p : Platform) (s : Settings) : Attempt Extractor :=
  orComplain "Failed to set up the code model extractor" Complaint.chain (Extractor.ofSettings p.programs s.extractor)

def servicesOf (p : Platform) (s : Settings) : Attempt (Services World) := do
  let setup ← setupOf p s
  return setup.services (← extractorOf p s)

def log : Attempt DiagnosticLog := return (← get).log

def versions (p : Platform) (s : Settings) (library : String) : Attempt Json := do
  let project ← libraryOf library
  let setup ← setupOf p s
  return versionRows (← setup.source.releases project)

def analysisOf (s : Settings) (services : Services World) (library : String) (selection : Selection) :
    Attempt Analysis := do
  let p ← libraryOf library
  let a ← step (Analysis.run services s.analysis.datasetPath p selection)
  orComplain ("Analysis of " ++ p.text ++ " failed") Complaint.chain a

def analyze (p : Platform) (s : Settings) (library : String) (selection : Selection) : Attempt Json := do
  let services ← servicesOf p s
  let a ← analysisOf s services library selection
  return analysisReport a s.analysis.topCandidates (← log)

def download (p : Platform) (s : Settings) (library : String) (selection : Selection) (all : Bool) : Attempt Json := do
  let services ← servicesOf p s
  let a ← analysisOf s services library selection
  let summary ← DownloadSummary.run services a (if all then .allCandidates else .topCandidate)
  return downloadReport a summary (← services.cancelled) (← log)

/-- The stored candidates of a library, or those of an analysis made now. -/
def candidatesOf (s : Settings) (services : Services World) (library : String) (p : Project) :
    Attempt (List Candidate) := do
  match DatasetFiles.readCandidates (← get).files (Analysis.libraryDirectory s.analysis.datasetPath p) with
  | .ok candidates => return candidates
  | .error _ => return (← analysisOf s services library .all).candidates

def diffed (s : Settings) (setup : Setup) (x : Extractor) (directory : Path) (pairs : List (Coordinate × Coordinate)) :
    Attempt MigrationReport :=
  setup.diff x s.analysis.options.workers directory pairs

/-- Ranks are counted from one. -/
def migrate (p : Platform) (s : Settings) (library : String) (rank : Nat) (limit : Option Nat) : Attempt Json := do
  if rank = 0 then throw { message := "Candidate ranks start at 1" }
  let setup ← setupOf p s
  let x ← extractorOf p s
  let project ← libraryOf library
  let candidates ← candidatesOf s (setup.services x) library project
  match candidates[rank - 1]? with
  | none =>
    throw { message := project.text ++ " has " ++ toString candidates.length ++ " ranked candidates, no candidate #" ++
      toString rank }
  | some c =>
    let directory := Analysis.libraryDirectory s.analysis.datasetPath project
    let r ← diffed s setup x directory (MigrationReport.migratedPairs c limit)
    return migrationReport r (← log)

def diffPairs (p : Platform) (s : Settings) (file : Path) : Attempt Json := do
  let text ← orComplain ("Failed to read " ++ file.text) (fun (e : FileFailure) => [e.message])
    ((← get).files.readText file)
  let setup ← setupOf p s
  let x ← extractorOf p s
  let r ← diffed s setup x s.analysis.datasetPath (pairs text)
  return migrationReport r (← log)

/-- The release of an archive below a directory that downloads are stored in. -/
def archiveRelease? (archive : Path) : Option Coordinate :=
  Layout.releaseBelow? [DatasetFiles.librariesName, DatasetFiles.clientsName] archive

def focusOf (archive : Path) (g : CallGraph) (threshold : Nat) : Attempt Focus.FocusFiles := do
  let w ← get
  let (written, files) := Focus.write w.files archive g threshold
  set { w with files }
  orComplain ("Failed to write focus files for " ++ archive.text) (fun (e : FileFailure) => [e.message]) written

/-- The row of an archive of a known release; a model that cannot be extracted is reported. -/
def modelRow? (x : Extractor) (threshold : Nat) (archive : Path) (c : Coordinate) : Attempt (Option ModelRow) := do
  match ← step (World.extracting (x.callGraph ⟨c, archive⟩)) with
  | .error e =>
    World.report ⟨.extractionFailure, c.text, e.message⟩
    return none
  | .ok g =>
    let focus ← focusOf archive g threshold
    return some ⟨archive, c, g.callerCount, g.invocationCount, focus.callers⟩

/-- The rows of some archives; those outside the layout of a repository are skipped. -/
def modelRows (x : Extractor) (threshold : Nat) : List Path → Attempt (List ModelRow)
  | [] => pure []
  | archive :: rest => do
    match archiveRelease? archive with
    | none => modelRows x threshold rest
    | some c =>
      let row ← modelRow? x threshold archive c
      return row.toList ++ (← modelRows x threshold rest)

/-- Extracts the models of all archives in a directory and writes their focus files. -/
def modelsIn (x : Extractor) (s : Settings) (dir : Option Path) : Attempt Json := do
  let archives := Archives.find (← get).files (dir.getD s.analysis.datasetPath)
  let rows ← modelRows x s.analysis.focusThreshold archives
  return modelsReport x.backend.name archives.length rows (← get).models.counts false (← log)

def models (p : Platform) (s : Settings) (dir : Option Path) : Attempt Json := do
  modelsIn (← extractorOf p s) s dir

def defaultFile : Path := ⟨".depshift.toml"⟩

/-- Writes the default settings to a file that does not exist yet; the answer is what to print. -/
def initConfig (path : Option Path) : Attempt String := do
  let file := path.getD defaultFile
  if (← get).files.exists? file then throw { message := file.text ++ " already exists" }
  let written ← step (World.changeInSteps (·.save file Settings.defaultText))
  orComplain ("Failed to write " ++ file.text) (fun e => [(SettingsFailure.unreadable e).message]) written
  return "Wrote " ++ file.text ++ "\n"

/-- Runs a command with its settings; the answer is the result to print. -/
def perform (p : Platform) (s : Settings) : Command → Attempt Json
  | .versions library => versions p s library
  | .analyze library selection => analyze p s library selection
  | .download library selection all => download p s library selection all
  | .migrate library rank limit => migrate p s library rank limit
  | .diffPairs file => diffPairs p s file
  | .models dir => models p s dir
  | .initConfig _ => pure .null

def runInvocation (p : Platform) (env : Environment) (home : Option Path) (i : Invocation) : Attempt String := do
  match i.command with
  | .initConfig path => initConfig path
  | command =>
    let loaded := Settings.load p.readers { files := (← get).files, env, home } i.config
    let (s, _) ← orComplain "Failed to load configuration" (fun e => [e.message]) loaded
    return outputText i.format (← perform p s command)

structure Ended where
  status : Nat
  output : String := ""
  errors : String := ""
  deriving DecidableEq

def version : String := "0.1.0"

def run (p : Platform) (env : Environment) (home : Option Path) (args : List String) : StateM World Ended := do
  match parse env args with
  | .error (.version program) => return { status := 0, output := program ++ " " ++ version ++ "\n" }
  | .error .usage => return { status := 2 }
  | .ok invocation =>
    match ← (runInvocation p env home invocation).run with
    | .ok text => return { status := 0, output := text }
    | .error complaint => return { status := 1, errors := complaint.text }

end MigrationMining.Console
