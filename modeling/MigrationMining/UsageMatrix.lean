import MigrationMining.Coordinate
import MigrationMining.Failure
import MigrationMining.Ratio
import Std.Data.ExtTreeMap

/-! The usage matrix: which version of each client uses which release of a library. The last link of a cell wins. -/

namespace MigrationMining

abbrev Cell := Coordinate × Project

def Cell.order : Cell → Cell → Ordering := compareLex (compareOn Prod.fst) (compareOn Prod.snd)

instance : Std.TransCmp Cell.order :=
  inferInstanceAs (Std.TransCmp (compareLex (compareOn Prod.fst) (compareOn Prod.snd)))

instance : Std.LawfulEqCmp Cell.order where
  eq_of_compare {a b} h := by
    obtain ⟨ac, ap⟩ := a
    obtain ⟨bc, bp⟩ := b
    have h' : (compare ac bc).then (compare ap bp) = .eq := h
    simp only [Ordering.then_eq_eq, Std.compare_eq_iff_eq] at h'
    rw [h'.1, h'.2]

structure UsageMatrix where
  versions : List Coordinate
  clients : ProjectSet
  cells : Std.ExtTreeMap Cell String Cell.order

/-- A link to a release outside the analysed versions. -/
structure StrayLink where
  link : Link
  deriving DecidableEq

def StrayLink.failure (s : StrayLink) : Failure :=
  .invalidInput ("link " ++ s.link.client.text ++ " -> " ++ s.link.library.text ++
    " refers to a library version outside the analysed set")

namespace UsageMatrix

def Cell.ofLink (link : Link) : Cell := (link.library, link.client.project)

def build (versions : List Coordinate) (links : List Link) : Except StrayLink UsageMatrix :=
  match links.find? fun link => link.library ∉ versions with
  | some link => .error ⟨link⟩
  | none =>
    .ok {
      versions
      clients := Std.ExtTreeSet.ofList (links.map (·.client.project)) compare
      cells := links.foldl (fun cells link => cells.insert (Cell.ofLink link) link.client.version) ∅ }

def get? (m : UsageMatrix) (library : Coordinate) (client : Project) : Option String :=
  m.cells[(library, client)]?

def usersOf (m : UsageMatrix) (library : Coordinate) : List Project :=
  m.clients.toList.filter fun client => (m.get? library client).isSome

def filledCells (m : UsageMatrix) : Nat := m.cells.size

def density (m : UsageMatrix) : Ratio := ⟨m.filledCells, m.versions.length * m.clients.size⟩

/-- One row for each version, with one cell for each client in ascending order. -/
def rows (m : UsageMatrix) : List (Coordinate × List (Option String)) :=
  m.versions.map fun library => (library, m.clients.toList.map (m.get? library))

end UsageMatrix

end MigrationMining
