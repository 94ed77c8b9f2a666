import MigrationMining.Pipeline.Services

/-! Datasets: the releases of a library that are looked at, and the clients that link to them. -/

namespace MigrationMining

inductive Selection where
  | all
  | single (version : String)
  | pair (first second : String)
  deriving DecidableEq

def Selection.ofVersions : Option String → Option String → Selection
  | some first, some second => .pair first second
  | some version, none | none, some version => .single version
  | none, none => .all

structure Dataset where
  library : Project
  selection : Selection
  versions : List Coordinate
  links : List Link
  deriving DecidableEq

namespace Dataset

variable {σ : Type}

/-- The first of some releases that is not listed; the ones after it are not asked about. -/
def firstUnlisted (s : Services σ) : List Coordinate → StateM σ (Option Coordinate)
  | [] => pure none
  | c :: cs => do if ← s.isListed c then firstUnlisted s cs else return some c

def listed (s : Services σ) (versions : List Coordinate) : StateM σ (Except Failure (List Coordinate)) := do
  match ← firstUnlisted s versions with
  | some c => return .error (.notFound c.text)
  | none => return .ok versions

def selected (s : Services σ) (library : Project) : Selection → StateM σ (Except Failure (List Coordinate))
  | .all => do return .ok (← s.releases library)
  | .single v => listed s [library.release v]
  | .pair v w => listed s [library.release v, library.release w]

/-- The links to the versions, looked up one version after the other until the run is cancelled. -/
def linksUntilCancelled (s : Services σ) : List Coordinate → StateM σ (List Link)
  | [] => pure []
  | v :: vs => do
    if ← s.cancelled then return []
    let found ← s.clients v
    return found.map (⟨v, ·⟩) ++ (← linksUntilCancelled s vs)

/-- All links to a library; those to releases that are not listed any more are dropped. -/
def knownLinks (s : Services σ) (library : Project) (versions : List Coordinate) : StateM σ (List Link) := do
  if ← s.cancelled then return []
  return (← s.links library).filter (·.library ∈ versions)

def collect (s : Services σ) (library : Project) (selection : Selection) : StateM σ (Except Failure Dataset) := do
  match ← selected s library selection with
  | .error e => return .error e
  | .ok versions =>
    let links ← match selection with
      | .all => knownLinks s library versions
      | _ => linksUntilCancelled s versions
    return .ok { library, selection, versions, links }

end Dataset

end MigrationMining
