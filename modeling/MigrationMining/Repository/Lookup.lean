import MigrationMining.Pom
import MigrationMining.ReleaseIndex
import MigrationMining.Repository.Layout
import MigrationMining.UsagePage
import MigrationMining.Web.Fetch

/-! Looking up releases, clients and dependencies in a repository and a usage listing on the web. A lookup that
fails is reported and finds nothing. -/

namespace MigrationMining

structure Repository where
  url : String
  usageUrl : String
  fetcher : Fetcher

namespace Repository

def client (r : Repository) : Client := r.fetcher.client

def policy (r : Repository) : RetryPolicy := r.fetcher.policy

def releases (r : Repository) (p : Project) : StateM World (List Coordinate) := do
  match ← Fetch.text r.fetcher (Layout.metadataUrl r.url p) with
  | .ok xml => return (ReleaseIndex.versions xml).map p.release
  | .error e =>
    World.report (e.diagnostic p.text)
    return []

/-- A document that says nothing about a project is refused. -/
def readPom (c : Coordinate) (xml : String) : Except FetchFailure Pom :=
  let pom := Pom.parse xml
  if pom.coordinate.isNone && pom.dependencies.isEmpty then
    .error (.unreadable ("POM of " ++ c.text) "no project coordinates")
  else .ok pom

def pom (r : Repository) (c : Coordinate) : StateM World (Except FetchFailure Pom) := do
  match ← Fetch.text r.fetcher (Layout.fileUrl r.url c "pom") with
  | .ok xml => return readPom c xml
  | .error e => return .error e

def dependencies (r : Repository) (c : Coordinate) : StateM World (List Coordinate) := do
  match ← r.pom c with
  | .ok pom => return pom.compileDependencies
  | .error e =>
    World.report (e.diagnostic c.text)
    return []

def isListed (r : Repository) (c : Coordinate) : StateM World Bool := do
  match ← Fetch.probe r.fetcher (Layout.fileUrl r.url c "pom") with
  | .ok found => return found
  | .error e =>
    World.report (e.diagnostic c.text)
    return false

/-- The clients on one page of the usage listing; a missing page is an empty one. -/
def listedClients (r : Repository) (library : Coordinate) (page : Nat) : StateM World (List Project) := do
  let url := Layout.usageUrl r.usageUrl library page
  match ← Fetch.text r.fetcher url with
  | .ok html => return UsagePage.clients html
  | .error e =>
    if !e.isNotFound then World.report (e.diagnostic url)
    return []

def dependentsAmong (r : Repository) (library : Coordinate) : List Coordinate → StateM World (List Coordinate)
  | [] => pure []
  | c :: cs => do
    let uses := library ∈ (← r.dependencies c)
    let rest ← r.dependentsAmong library cs
    return if uses then c :: rest else rest

def dependentReleases (r : Repository) (library : Coordinate) : List Project → StateM World (List Coordinate)
  | [] => pure []
  | p :: ps => do
    let found ← r.dependentsAmong library (← r.releases p)
    return found ++ (← r.dependentReleases library ps)

/-- The client releases that depend on a library release, in the order the usage listing names the clients. -/
def clients (r : Repository) (library : Coordinate) : StateM World (List Coordinate) :=
  UsagePage.walk (r.listedClients library) (r.dependentReleases library)

def downloadArchive (r : Repository) (c : Coordinate) (target : Path) : StateM World (Except FetchFailure Nat) := do
  let dir := (FileStore.directoryOf? target).getD ⟨""⟩
  match ← World.changeInSteps (·.makeDirectories dir) with
  | .error e => return .error (.file e.message)
  | .ok () => Fetch.download r.fetcher (Layout.fileUrl r.url c "jar") target

/-- The archive of a release below `root`, downloaded unless it is there already. -/
def archive (r : Repository) (c : Coordinate) (root : Path) : StateM World (Option Path) := do
  let target := Layout.archivePath root c "jar"
  if (← get).files.exists? target then return some target
  match ← r.downloadArchive c target with
  | .ok _ => return some target
  | .error e =>
    World.report (e.diagnostic c.text)
    return none

end Repository

end MigrationMining
