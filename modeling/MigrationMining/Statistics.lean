import MigrationMining.Candidate

/-! Figures of a mined dataset. Usage is counted in links, so a client linked twice counts twice. -/

namespace MigrationMining

structure VersionUsage where
  version : String
  clients : Nat
  deriving DecidableEq

structure Statistics where
  versions : Nat
  firstVersion : Option String
  lastVersion : Option String
  clients : Nat
  links : Nat
  orphans : List String
  density : Ratio
  average : Ratio
  fewest : Nat
  most : Nat
  usage : List VersionUsage
  topCandidates : List Candidate
  deriving DecidableEq

namespace Statistics

/-- How many of the best candidates are kept. -/
def topCount : Nat := 10

/-- Releases with the number of their links; a release without links has no entry. -/
abbrev Tally := Std.ExtTreeMap Coordinate Nat compare

namespace Tally

def add (counts : Tally) (library : Coordinate) : Tally := counts.alter library fun n => some (n.getD 0 + 1)

def ofLinks (links : List Link) : Tally := links.foldl (fun counts link => counts.add link.library) ∅

theorem getElem?_add (counts : Tally) (library v : Coordinate) :
    (counts.add library)[v]? = if library = v then some (counts.getD v 0 + 1) else counts[v]? := by
  rw [add, Std.ExtTreeMap.getElem?_alter]
  by_cases same : library = v
  · simp [same, Std.ExtTreeMap.getD_eq_getD_getElem?]
  · have other : ¬ compare library v = .eq := by simpa [Std.compare_eq_iff_eq] using same
    rw [if_neg other, if_neg same]

end Tally

def usageOf (versions : List Coordinate) (counts : Tally) : List VersionUsage :=
  (versions.map fun v => ⟨v.version, counts.getD v 0⟩).mergeSort fun a b => b.clients ≤ a.clients

def compute (versions : List Coordinate) (links : List Link) (candidates : List Candidate) : Statistics :=
  let clients := Std.ExtTreeSet.ofList (links.map (·.client.project)) compare
  let tally := Tally.ofLinks links
  let usage := usageOf versions tally
  let counts := usage.map (·.clients)
  { versions := versions.length
    firstVersion := versions.head?.map (·.version)
    lastVersion := versions.getLast?.map (·.version)
    clients := clients.size
    links := links.length
    orphans := (versions.filter fun v => !tally.contains v).map (·.version)
    density := ⟨links.length, versions.length * clients.size⟩
    average := ⟨counts.foldr (· + ·) 0, counts.length⟩
    fewest := counts.min?.getD 0
    most := counts.max?.getD 0
    usage
    topCandidates := candidates.take topCount }

end Statistics

end MigrationMining
