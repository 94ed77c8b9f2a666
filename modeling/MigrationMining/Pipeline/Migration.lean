import MigrationMining.Pipeline.Analysis

/-! Migrations: how the callers of a client were adapted between two of its releases, for each dependency that
changed between them. -/

namespace MigrationMining

structure PairReport where
  old : Coordinate
  new : Coordinate
  delta : DependencyDelta
  adaptations : List Adaptation
  output : Option Path

structure MigrationReport where
  pairs : List PairReport
  skipped : Nat
  cancelled : Bool

def pairSubject (old new : Coordinate) : String := old.text ++ " -> " ++ new.text

/-- A failure to extract names the release, unless it says itself that extraction failed. -/
def Failure.ofExtraction (c : Coordinate) : Failure → Failure
  | .extraction cause => .extraction cause
  | .cancelled => .cancelled
  | other => .extraction (c.text ++ ": " ++ other.message)

/-- Why a pair ends without adaptations. -/
inductive Interruption where
  | cancelled
  | noCallGraph (failure : Failure)

/-- A service that extracts call graphs; its failures name the release. -/
def tracedCallGraph {σ : Type} (callGraph : Snapshot → StateM σ (Except Failure CallGraph)) (snapshot : Snapshot) :
    StateM σ (Except Failure CallGraph) := do
  return (← callGraph snapshot).mapError (Failure.ofExtraction snapshot.coordinate)

/-- The archives of the two releases and where those of libraries go. -/
structure PairArchives where
  old : Snapshot
  new : Snapshot
  libraries : Path

namespace PairArchives

variable {σ : Type}

/-- The adaptations to one change of a library whose members are known. -/
def diff (callGraph : Snapshot → StateM σ (Except Failure CallGraph)) (p : PairArchives)
    (affected : AffectedLibrary) (members : Namespace) : StateM σ (Except Failure (List Adaptation)) := do
  match ← tracedCallGraph callGraph p.old with
  | .error e => return .error e
  | .ok old =>
    match ← tracedCallGraph callGraph p.new with
    | .error e => return .error e
    | .ok new =>
      let comparison := {
        clientOld := p.old.coordinate
        clientNew := p.new.coordinate
        library := affected.library.project
        change := affected.change }
      return .ok (Adaptation.diff comparison old new members)

/-- The members of a library; a library without any known is reported. -/
def members (s : Services σ) (p : PairArchives) (library : Coordinate) : StateM σ (Option Namespace) := do
  match ← s.archive library p.libraries with
  | none =>
    s.report ⟨.notFound, library.text, "library archive unavailable"⟩
    return none
  | some path =>
    match ← s.declarations ⟨library, path⟩ with
    | .ok members => return some members
    | .error e =>
      s.report ⟨.extractionFailure, library.text, (e.ofExtraction library).message⟩
      return none

def adaptations (s : Services σ) (p : PairArchives) :
    List AffectedLibrary → StateM σ (Except Interruption (List Adaptation))
  | [] => pure (.ok [])
  | affected :: rest => do
    if ← s.cancelled then return .error .cancelled
    match ← p.members s affected.library with
    | none => p.adaptations s rest
    | some members =>
      match ← p.diff s.callGraph affected members with
      | .error e => return .error (.noCallGraph e)
      | .ok found => return (← p.adaptations s rest).map (found ++ ·)

end PairArchives

namespace PairReport

variable {σ : Type}

/-- The archives of both releases; both are asked for even if the first cannot be had. -/
def archives (s : Services σ) (directory : Path) (old new : Coordinate) : StateM σ (Option PairArchives) := do
  let clients := directory / DatasetFiles.clientsName
  let a ← s.archive old clients
  let b ← s.archive new clients
  match a, b with
  | some a, some b => return some ⟨⟨old, a⟩, ⟨new, b⟩, directory / DatasetFiles.librariesName⟩
  | _, _ => return none

def run (s : Services σ) (directory : Path) (old new : Coordinate) : StateM σ (Except Failure PairReport) := do
  let before ← s.dependencies old
  let after ← s.dependencies new
  let delta := DependencyDelta.compute before after
  let skipped : PairReport := { old, new, delta, adaptations := [], output := none }
  match ← archives s directory old new with
  | none =>
    s.report ⟨.diffSkipped, pairSubject old new, "client archive unavailable"⟩
    return .ok skipped
  | some p =>
    match ← p.adaptations s delta.affected with
    | .error .cancelled => return .error .cancelled
    | .error (.noCallGraph e) =>
      s.report ⟨.diffSkipped, pairSubject old new, e.message⟩
      return .ok skipped
    | .ok adaptations =>
      let file := directory / DatasetFiles.migrationsName / DatasetFiles.pairName old new
      match ← s.save file (DatasetFiles.adaptationsText adaptations) with
      | .error e => return .error e
      | .ok () => return .ok { skipped with adaptations, output := some file }

/-- Diffs one pair of several: a pair that comes after the cancellation is left out, as is one that fails. -/
def attempt (s : Services σ) (directory : Path) (pair : Coordinate × Coordinate) : StateM σ (Option PairReport) := do
  if ← s.cancelled then return none
  match ← run s directory pair.1 pair.2 with
  | .ok report => return some report
  | .error .cancelled => return none
  | .error e =>
    s.report ⟨.diffSkipped, pairSubject pair.1 pair.2, e.message⟩
    return none

def attemptAll (s : Services σ) (directory : Path) :
    List (Coordinate × Coordinate) → StateM σ (List (Option PairReport))
  | [] => pure []
  | pair :: pairs => do
    let outcome ← attempt s directory pair
    return outcome :: (← attemptAll s directory pairs)

def le (a b : PairReport) : Bool :=
  ((compare a.old b.old).then (compare a.new b.new)).isLE

end PairReport

namespace MigrationReport

variable {σ : Type}

/-- The report of what became of some pairs; those without an output were skipped. -/
def ofOutcomes (outcomes : List (Option PairReport)) (cancelled : Bool) : MigrationReport :=
  let pairs := (outcomes.filterMap id).mergeSort PairReport.le
  { pairs
    skipped := pairs.countP (·.output.isNone) + (outcomes.length - pairs.length)
    cancelled }

def run (s : Services σ) (directory : Path) (pairs : List (Coordinate × Coordinate)) : StateM σ MigrationReport := do
  let outcomes ← PairReport.attemptAll s directory pairs
  return ofOutcomes outcomes (← s.cancelled)

/-- The migrated clients of a candidate, the first `limit` of them if there is a limit. -/
def migratedPairs (c : Candidate) (limit : Option Nat) : List (Coordinate × Coordinate) :=
  match limit with
  | some n => c.clientPairs.take n
  | none => c.clientPairs

def ofCandidate (s : Services σ) (root : Path) (library : Project) (c : Candidate) (limit : Option Nat) :
    StateM σ MigrationReport :=
  run s (Analysis.libraryDirectory root library) (migratedPairs c limit)

def adaptations (r : MigrationReport) : List Adaptation := r.pairs.flatMap (·.adaptations)

def adaptationCount (r : MigrationReport) : Nat := (r.pairs.map (·.adaptations.length)).foldr (· + ·) 0

end MigrationReport

end MigrationMining
