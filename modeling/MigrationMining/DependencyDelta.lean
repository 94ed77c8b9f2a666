import MigrationMining.Coordinate
import Std.Data.ExtTreeMap

/-! What changed between the direct dependencies of two releases of a client. -/

namespace MigrationMining

inductive Change where
  | added
  | removed
  | updated
  deriving DecidableEq

def Change.text : Change → String
  | .added => "ADDED"
  | .removed => "REMOVED"
  | .updated => "UPDATED"

def Change.ofText? : String → Option Change
  | "ADDED" => some .added
  | "REMOVED" => some .removed
  | "UPDATED" => some .updated
  | _ => none

structure VersionChange where
  before : String
  after : String
  deriving DecidableEq

def VersionChange.isBump (c : VersionChange) : Bool := c.before ≠ c.after

structure DependencyDelta where
  removed : CoordinateSet
  added : CoordinateSet
  updated : Std.ExtTreeMap Project VersionChange compare

/-- A library to look at, at the release it has where it is used. -/
structure AffectedLibrary where
  library : Coordinate
  change : Change
  deriving DecidableEq

namespace DependencyDelta

def onlyIn (side other : List Coordinate) : List Coordinate :=
  side.filter fun d => other.all (·.project ≠ d.project)

/-- The version of the first dependency on that project. -/
def versionIn? (side : List Coordinate) (p : Project) : Option String :=
  (side.find? (·.project = p)).map (·.version)

/-- A project on both sides moves from the version of its first old entry to that of its first new one. -/
def compute (old new : List Coordinate) : DependencyDelta :=
  { removed := Std.ExtTreeSet.ofList (onlyIn old new) compare
    added := Std.ExtTreeSet.ofList (onlyIn new old) compare
    updated := new.foldl (fun changes d =>
      match versionIn? old d.project with
      | none => changes
      | some before => changes.insertIfNew d.project ⟨before, d.version⟩) ∅ }

def isEmpty (d : DependencyDelta) : Bool := d.removed.isEmpty && d.added.isEmpty && d.updated.isEmpty

/-- Removed libraries, then added ones, then those whose version differs, each group in ascending order. -/
def affected (d : DependencyDelta) : List AffectedLibrary :=
  d.removed.toList.map (⟨·, .removed⟩) ++ d.added.toList.map (⟨·, .added⟩) ++
    (d.updated.toList.filter (·.2.isBump)).map fun (p, c) => ⟨p.release c.after, .updated⟩

end DependencyDelta

end MigrationMining
