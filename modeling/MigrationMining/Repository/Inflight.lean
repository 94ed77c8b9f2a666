import MigrationMining.Repository.Lookup

/-! Fetches of archives that overlap. The fetches of one target keep apart by a lock, which stands in an entry for the
target. A fetch that finds no entry makes one with a new lock; a fetch that has ended removes the entry, whoever still
waits for the lock that was in it. -/

namespace MigrationMining

/-- The locks of one target, numbered in the order in which they are made. -/
structure TargetLocks where
  /-- The lock in the entry of the target, while there is an entry. -/
  entry : Option Nat := none
  held : List Nat := []
  made : Nat := 0
  deriving DecidableEq

/-- How far a fetch has got, with the lock it has taken and whether it has found an archive. -/
inductive FetchStage where
  | arriving
  | queued (lock : Nat)
  | locked (lock : Nat)
  | downloading (lock : Nat)
  | ended (lock : Nat) (found : Bool)
  | delisted (lock : Nat) (found : Bool)
  | left (found : Bool)
  deriving DecidableEq

namespace FetchStage

/-- The next step of a fetch, with the locks after it; `none` if there is none now. It depends on whether the target
is there and, while a download is being made, on how that ends, `none` if it goes on. -/
def step (isThere : Bool) (result : Option Bool) (locks : TargetLocks) : FetchStage → Option (FetchStage × TargetLocks)
  | arriving =>
    match locks.entry with
    | some l => some (queued l, locks)
    | none => some (queued locks.made, { locks with entry := some locks.made, made := locks.made + 1 })
  | queued l => if l ∈ locks.held then none else some (locked l, { locks with held := l :: locks.held })
  | locked l => some (if isThere then ended l true else downloading l, locks)
  | downloading l => result.map fun found => (ended l found, locks)
  | ended l found => some (delisted l found, { locks with entry := none })
  | delisted l found => some (left found, { locks with held := locks.held.erase l })
  | left _ => none

/-- A fetch waits for its lock while another holds it, and for the web while it downloads. -/
def waits (locks : TargetLocks) : FetchStage → Bool
  | queued l => l ∈ locks.held
  | downloading _ => true
  | _ => false

end FetchStage

/-- A download that has begun: the file it writes to, and how many attempts it has made. -/
structure Download where
  part : Path
  made : Nat := 0

/-- A turn of a download: it begins, or makes an attempt. The answer is how it ends, or the download that goes on. -/
def Repository.downloadTurn (r : Repository) (c : Coordinate) (target : Path) :
    Option Download → StateM World (Except FetchFailure Nat ⊕ Download)
  | none => do
    match ← World.changeInSteps (·.makeDirectories ((FileStore.directoryOf? target).getD ⟨""⟩)) with
    | .error e => return .inl (.error (.file e.message))
    | .ok () =>
      let w ← get
      modify fun w => { w with downloads := w.downloads + 1 }
      return .inr { part := Fetch.scratch target w.process w.downloads }
  | some d => do
    let url := Layout.fileUrl r.url c "jar"
    match r.policy.settled? url (d.made + 1) (← Fetch.downloadOnce r.client url d.part) with
    | none => return .inr { d with made := d.made + 1 }
    | some (.ok size) => return .inl (← Fetch.install d.part target size)
    | some (.error e) =>
      Fetch.discard d.part
      return .inl (.error e)

/-- A world, and the locks of the targets that are fetched in it. A target is known by its components. -/
structure FetchWorld where
  world : World
  targets : List (List Path.Component × TargetLocks) := []

namespace FetchWorld

def locks (v : FetchWorld) (target : Path) : TargetLocks := (v.targets.lookup target.components).getD {}

def withLocks (v : FetchWorld) (target : Path) (locks : TargetLocks) : FetchWorld :=
  { v with targets := (target.components, locks) :: v.targets.filter (·.1 ≠ target.components) }

def inWorld {α : Type} (m : StateM World α) : StateM FetchWorld α := fun v =>
  let (a, world) := m v.world
  (a, { v with world })

end FetchWorld

/-- A fetch of the archive of a release to its place below `root`. -/
structure ArchiveFetch where
  release : Coordinate
  root : Path
  stage : FetchStage := .arriving
  download : Option Download := none

namespace ArchiveFetch

def target (f : ArchiveFetch) : Path := Layout.archivePath f.root f.release "jar"

/-- Goes on with the download, if one is being made: whether the archive is found, once that is known. A failure is
reported. -/
def goOn (r : Repository) (f : ArchiveFetch) : StateM World (Option Bool × Option Download) := do
  match f.stage with
  | .downloading _ =>
    match ← r.downloadTurn f.release f.target f.download with
    | .inr d => return (none, some d)
    | .inl (.ok _) => return (some true, f.download)
    | .inl (.error e) =>
      World.report (e.diagnostic f.release.text)
      return (some false, f.download)
  | _ => return (none, f.download)

def turn (r : Repository) (f : ArchiveFetch) : StateM FetchWorld ArchiveFetch := fun v =>
  let isThere := v.world.files.exists? f.target
  let ((result, download), world) := f.goOn r v.world
  match f.stage.step isThere result (v.locks f.target) with
  | some (stage, locks) => ({ f with stage, download }, { v with world }.withLocks f.target locks)
  | none => ({ f with download }, { v with world })

def outcome? (f : ArchiveFetch) : Option (Option Path) :=
  match f.stage with
  | .left found => some (if found then some f.target else none)
  | _ => none

end ArchiveFetch

end MigrationMining
