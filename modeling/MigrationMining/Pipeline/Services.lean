import MigrationMining.CodeModel.Cache
import MigrationMining.Diagnostic

/-! The services that mining calls. They act on a state of their own choice, so that a run can be looked at as a
function of the services' answers. -/

namespace MigrationMining

structure Services (σ : Type) where
  releases : Project → StateM σ (List Coordinate)
  clients : Coordinate → StateM σ (List Coordinate)
  links : Project → StateM σ (List Link)
  isListed : Coordinate → StateM σ Bool
  dependencies : Coordinate → StateM σ (List Coordinate)
  /-- The archive of a release, stored below a directory, `none` if it cannot be had. -/
  archive : Coordinate → Path → StateM σ (Option Path)
  declarations : Snapshot → StateM σ (Except Failure Namespace)
  callGraph : Snapshot → StateM σ (Except Failure CallGraph)
  save : Path → String → StateM σ (Except Failure Unit)
  report : Diagnostic → StateM σ Unit
  cancelled : StateM σ Bool

namespace Services

variable {σ : Type}

/-- The links to some releases, with their clients looked up release by release. -/
def linksTo (clients : Coordinate → StateM σ (List Coordinate)) : List Coordinate → StateM σ (List Link)
  | [] => pure []
  | library :: rest => do
    let found ← clients library
    return found.map (⟨library, ·⟩) ++ (← linksTo clients rest)

def linksByRelease (releases : Project → StateM σ (List Coordinate))
    (clients : Coordinate → StateM σ (List Coordinate)) (library : Project) : StateM σ (List Link) := do
  linksTo clients (← releases library)

/-- How many of `n` comparisons are made when the run is looked at before each of them. -/
def comparisons (s : Services σ) : Nat → StateM σ Nat
  | 0 => pure 0
  | n + 1 => do
    if ← s.cancelled then return 0
    return 1 + (← s.comparisons n)

end Services

inductive Exchange where
  | releases (library : Project) (answer : List Coordinate)
  | clients (library : Coordinate) (answer : List Coordinate)
  | links (library : Project) (answer : List Link)
  | isListed (release : Coordinate) (answer : Bool)
  | dependencies (release : Coordinate) (answer : List Coordinate)
  | archive (release : Coordinate) (directory : Path) (answer : Option Path)
  | declarations (snapshot : Snapshot) (answer : Except Failure Namespace)
  | callGraph (snapshot : Snapshot) (answer : Except Failure CallGraph)
  | save (path : Path) (text : String) (answer : Except Failure Unit)
  | report (diagnostic : Diagnostic)
  | cancelled (answer : Bool)

end MigrationMining
