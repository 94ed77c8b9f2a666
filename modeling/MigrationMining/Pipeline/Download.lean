import MigrationMining.Pipeline.Analysis

/-! Downloading the archives that an analysis points at. -/

namespace MigrationMining

inductive DownloadScope where
  | topCandidate
  | allCandidates
  deriving DecidableEq

structure DownloadSummary where
  fetched : List Path := []
  unavailable : List Coordinate := []
  deriving DecidableEq

namespace Analysis

def scopedCandidates (a : Analysis) : DownloadScope → List Candidate
  | .topCandidate => a.candidates.take 1
  | .allCandidates => a.candidates

def wantedLibraries (a : Analysis) (scope : DownloadScope) : List Coordinate :=
  match a.dataset.selection with
  | .single _ => a.dataset.versions
  | _ =>
    (if scope = .allCandidates then a.dataset.versions else []) ++
      (a.scopedCandidates scope).flatMap fun c => [c.older, c.newer]

def wantedClients (a : Analysis) (scope : DownloadScope) : List Coordinate :=
  match a.dataset.selection with
  | .single _ => a.dataset.links.map (·.client)
  | _ => (a.scopedCandidates scope).flatMap fun c => c.clientsAtOlder ++ c.clientsAtNewer

/-- What to download and where to, with repetitions: libraries first, then clients. -/
def queue (a : Analysis) (scope : DownloadScope) : List (Coordinate × Path) :=
  (a.wantedLibraries scope).map (·, a.directory / DatasetFiles.librariesName) ++
    (a.wantedClients scope).map (·, a.directory / DatasetFiles.clientsName)

end Analysis

namespace DownloadSummary

variable {σ : Type}

def fetch (s : Services σ) (c : Coordinate) (dir : Path) (summary : DownloadSummary) : StateM σ DownloadSummary := do
  match ← s.archive c dir with
  | some path => return { summary with fetched := summary.fetched ++ [path] }
  | none =>
    s.report ⟨.notFound, c.text, "archive unavailable"⟩
    return { summary with unavailable := summary.unavailable ++ [c] }

/-- Downloads the archives of a queue until the run is cancelled. An entry that was seen before is passed over, before it
is asked whether the run is cancelled. -/
def fetchAll (s : Services σ) (seen : List (Coordinate × Path)) (summary : DownloadSummary) :
    List (Coordinate × Path) → StateM σ DownloadSummary
  | [] => pure summary
  | entry :: queue =>
    if entry ∈ seen then fetchAll s seen summary queue
    else do
      if ← s.cancelled then return summary
      fetchAll s (entry :: seen) (← fetch s entry.1 entry.2 summary) queue

def run (s : Services σ) (a : Analysis) (scope : DownloadScope) : StateM σ DownloadSummary :=
  fetchAll s [] {} (a.queue scope)

end DownloadSummary

end MigrationMining
