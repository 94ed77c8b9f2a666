import MigrationMining.Pipeline.Services

/-! Services that answer from fixed functions and keep a journal of the calls. -/

namespace MigrationMining

/-- What the services answer. -/
structure Answers where
  releases : Project → List Coordinate
  clients : Coordinate → List Coordinate
  links : Option (Project → List Link)
  isListed : Coordinate → Bool
  dependencies : Coordinate → List Coordinate
  archive : Coordinate → Path → Option Path
  declarations : Snapshot → Except Failure Namespace
  callGraph : Snapshot → Except Failure CallGraph

inductive Call where
  | releases (library : Project)
  | clients (library : Coordinate)
  | links (library : Project)
  | isListed (release : Coordinate)
  | dependencies (release : Coordinate)
  | archive (release : Coordinate) (directory : Path)
  | declarations (snapshot : Snapshot)
  | callGraph (snapshot : Snapshot)
  deriving DecidableEq

structure Journal where
  files : FileStore := {}
  log : DiagnosticLog := []
  calls : List Call := []
  cancelAt : Option Nat := none
  cancelled : Bool := false

namespace Journal

def note (call : Call) : StateM Journal Unit := modify fun j =>
  let calls := j.calls ++ [call]
  { j with calls, cancelled := j.cancelled || j.cancelAt = some calls.length }

def answer {α : Type} (call : Call) (a : α) : StateM Journal α := do
  note call
  return a

def services (a : Answers) : Services Journal :=
  let releases (p : Project) := answer (.releases p) (a.releases p)
  let clients (c : Coordinate) := answer (.clients c) (a.clients c)
  { releases
    clients
    links := fun p => match a.links with
      | some links => answer (.links p) (links p)
      | none => Services.linksByRelease releases clients p
    isListed := fun c => answer (.isListed c) (a.isListed c)
    dependencies := fun c => answer (.dependencies c) (a.dependencies c)
    archive := fun c dir => answer (.archive c dir) (a.archive c dir)
    declarations := fun s => answer (.declarations s) (a.declarations s)
    callGraph := fun s => answer (.callGraph s) (a.callGraph s)
    save := fun path text j =>
      match j.files.save path text with
      | .ok files => (.ok (), { j with files })
      | .error e => (.error e.cause.failure, { j with files := e.files })
    report := fun d => modify fun j => { j with log := j.log ++ [d] }
    cancelled := return (← get).cancelled }

end Journal

end MigrationMining
