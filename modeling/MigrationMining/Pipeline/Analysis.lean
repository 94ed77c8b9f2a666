import MigrationMining.DatasetFiles
import MigrationMining.Pipeline.Dataset
import MigrationMining.Statistics

/-! Analyses: a dataset with its usage matrix, its ranked candidates and its figures, and the files they go to. -/

namespace MigrationMining

structure Analysis where
  dataset : Dataset
  /-- There is no matrix for a single version. -/
  matrix : Option UsageMatrix
  candidates : List Candidate
  statistics : Statistics
  directory : Path
  cancelled : Bool

namespace Analysis

variable {σ : Type}

def libraryDirectory (root : Path) (library : Project) : Path := root / (library.group ++ "_" ++ library.artifact)

/-- Ranks the pairs of versions that are compared before the run is found cancelled. -/
def rank (s : Services σ) (m : UsageMatrix) : StateM σ (List Candidate) := do
  let made ← s.comparisons (orderedPairs m.versions).length
  return Candidate.rankUntil (made ≤ ·) m.versions m m.clients

def saveAll (s : Services σ) : List (Path × String) → StateM σ (Except Failure Unit)
  | [] => pure (.ok ())
  | (path, text) :: files => do
    match ← s.save path text with
    | .error e => return .error e
    | .ok () => saveAll s files

def compare (s : Services σ) (directory : Path) (d : Dataset) :
    StateM σ (Except Failure (UsageMatrix × List Candidate)) := do
  match UsageMatrix.build d.versions d.links with
  | .error e => return .error e.failure
  | .ok m =>
    let candidates ← rank s m
    match ← saveAll s [
        (directory / DatasetFiles.matrixName, DatasetFiles.matrixText m),
        (directory / DatasetFiles.candidatesName, DatasetFiles.candidatesText candidates)] with
    | .error e => return .error e
    | .ok () => return .ok (m, candidates)

def ofDataset (s : Services σ) (directory : Path) (d : Dataset) (matrix : Option UsageMatrix)
    (candidates : List Candidate) : StateM σ Analysis := do
  return {
    dataset := d
    matrix
    candidates
    statistics := .compute d.versions d.links candidates
    directory
    cancelled := ← s.cancelled }

/-- Collects a dataset and writes its links; unless it is of a single version, also its matrix and candidates. -/
def run (s : Services σ) (root : Path) (library : Project) (selection : Selection) :
    StateM σ (Except Failure Analysis) := do
  match ← Dataset.collect s library selection with
  | .error e => return .error e
  | .ok d =>
    let directory := libraryDirectory root library
    match ← s.save (directory / DatasetFiles.linksName) (DatasetFiles.linksText d.links) with
    | .error e => return .error e
    | .ok () =>
      match selection with
      | .single _ => return .ok (← ofDataset s directory d none [])
      | _ =>
        match ← compare s directory d with
        | .error e => return .error e
        | .ok (m, candidates) => return .ok (← ofDataset s directory d (some m) candidates)

end Analysis

end MigrationMining
