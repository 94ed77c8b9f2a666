import Mathlib.Data.Finset.Dedup
import Mathlib.Data.Finset.Prod
import MigrationMining.Proofs.ClientMoves

/-! What is read off a usage matrix: its cells, its clients, the users of a release, its rows and its counts all tell of
the links that it is built from. -/

namespace MigrationMining
namespace UsageMatrix

variable {versions : List Coordinate} {links : List Link} {m : UsageMatrix}

theorem isSome_get? {library : Coordinate} {client : Project} :
    (m.get? library client).isSome ↔ (library, client) ∈ m.cells :=
  Std.ExtTreeMap.isSome_getElem?_iff_mem

def filledIn (m : UsageMatrix) (library : Coordinate) : List Project :=
  (m.cells.keys.filter (·.1 = library)).map (·.2)

theorem mem_filledIn {library : Coordinate} {client : Project} :
    client ∈ m.filledIn library ↔ (m.get? library client).isSome := by
  simp [filledIn, isSome_get?]

theorem filledIn_ascending (m : UsageMatrix) (library : Coordinate) :
    (m.filledIn library).Pairwise (compare · · = .lt) := by
  have ordered : (m.cells.keys.filter (·.1 = library)).Pairwise (Cell.order · · = .lt) :=
    Std.ExtTreeMap.ordered_keys.filter _
  refine List.pairwise_map.2 (ordered.imp_of_mem fun {x y} hx hy before => ?_)
  have row : x.1 = y.1 := by simp_all
  have split : (compare x.1 y.1).then (compare x.2 y.2) = .lt := before
  simpa [row] using split

namespace Records

theorem mem_cells (h : Records versions links m) {cell : Cell} :
    cell ∈ m.cells ↔ ∃ link ∈ links, Cell.ofLink link = cell := by
  obtain ⟨library, client⟩ := cell
  rw [← isSome_get?, h.get?_eq, Option.isSome_map, lastClient?_isSome]
  simp [Cell.ofLink]

theorem mem_clients_of_mem_cells (h : Records versions links m) {cell : Cell} (filled : cell ∈ m.cells) :
    cell.2 ∈ m.clients := by
  obtain ⟨link, listed, rfl⟩ := h.mem_cells.1 filled
  exact (h.mem_clients _).2 ⟨link, listed, rfl⟩

theorem usersOf_eq (h : Records versions links m) (library : Coordinate) : m.usersOf library = m.filledIn library := by
  refine Project.eq_of_ascending ?_ (m.filledIn_ascending library) fun p => ?_
  · exact Std.ExtTreeSet.ordered_toList.filter _
  · rw [mem_filledIn, usersOf, List.mem_filter, Std.ExtTreeSet.mem_toList]
    exact and_iff_right_of_imp fun filled => h.mem_clients_of_mem_cells (isSome_get?.1 filled)

theorem filledCells_eq (h : Records versions links m) : m.filledCells = (links.map Cell.ofLink).toFinset.card := by
  rw [filledCells, ← Std.ExtTreeMap.length_keys, ← List.toFinset_card_of_nodup Std.ExtTreeMap.nodup_keys]
  congr 1
  ext cell
  simp [h.mem_cells]

theorem filledCells_le (h : Records versions links m) : m.filledCells ≤ versions.length * m.clients.size := by
  have inside : m.cells.keys.toFinset ⊆ versions.toFinset ×ˢ m.clients.toList.toFinset := by
    intro cell filled
    rw [List.mem_toFinset, Std.ExtTreeMap.mem_keys] at filled
    obtain ⟨link, listed, rfl⟩ := h.mem_cells.1 filled
    have client := h.mem_clients_of_mem_cells filled
    have library : (Cell.ofLink link).1 ∈ versions := h.known link listed
    simp [client, library]
  calc m.filledCells = m.cells.keys.toFinset.card := by
        rw [List.toFinset_card_of_nodup Std.ExtTreeMap.nodup_keys, Std.ExtTreeMap.length_keys, filledCells]
    _ ≤ versions.toFinset.card * m.clients.toList.toFinset.card :=
        (Finset.card_le_card inside).trans_eq (Finset.card_product _ _)
    _ ≤ versions.length * m.clients.toList.length :=
        Nat.mul_le_mul (List.toFinset_card_le _) (List.toFinset_card_le _)
    _ = versions.length * m.clients.size := by rw [Std.ExtTreeSet.length_toList]

end Records

/-- Everything that is read off the matrix is what the links say. -/
structure Shows (versions : List Coordinate) (links : List Link) (m : UsageMatrix) : Prop where
  cell : ∀ library client version, m.get? library client = some version ↔
    ∃ link, IsLast (fun link => link.library = library ∧ link.client.project = client) links link ∧
      link.client.version = version
  blank : ∀ library client, m.get? library client = none ↔
    ∀ link ∈ links, ¬ (link.library = library ∧ link.client.project = client)
  clients : ∀ p, p ∈ m.clients ↔ ∃ link ∈ links, link.client.project = p
  users : ∀ library, m.usersOf library = m.filledIn library ∧ (m.usersOf library).Nodup ∧
    ∀ p, p ∈ m.usersOf library ↔ ∃ version, m.get? library p = some version
  rows : ∃ ps : List Project, ps.Pairwise (compare · · = .lt) ∧ (∀ p, p ∈ ps ↔ p ∈ m.clients) ∧
    m.rows = versions.map fun library => (library, ps.map (m.get? library))
  filled : m.filledCells = (links.map Cell.ofLink).toFinset.card
  filled_le : m.filledCells ≤ versions.length * m.clients.size

theorem Records.shows (h : Records versions links m) : Shows versions links m where
  cell library client version := by
    simp only [h.get?_eq, Option.map_eq_some_iff, lastClient?_eq_some_iff]
    constructor
    · rintro ⟨_, ⟨link, last, rfl⟩, rfl⟩
      exact ⟨link, last, rfl⟩
    · rintro ⟨link, last, rfl⟩
      exact ⟨_, ⟨link, last, rfl⟩, rfl⟩
  blank library client := by
    rw [← Option.not_isSome_iff_eq_none, h.get?_eq, Option.isSome_map, lastClient?_isSome]
    simp
  clients := h.mem_clients
  users library := by
    rw [h.usersOf_eq]
    refine ⟨rfl, Project.nodup_of_ascending (m.filledIn_ascending library), fun p => ?_⟩
    rw [mem_filledIn, Option.isSome_iff_exists]
  rows := by
    refine ⟨m.clients.toList, Std.ExtTreeSet.ordered_toList, fun p => Std.ExtTreeSet.mem_toList, ?_⟩
    rw [UsageMatrix.rows, h.versions_eq]
  filled := h.filledCells_eq
  filled_le := h.filledCells_le

/-- Links are refused with the first one that leads to no listed release. If there is none, a matrix is built, and it
shows what the links say. -/
theorem build_refuses_or_shows (versions : List Coordinate) (links : List Link) :
    (∃ link, IsFirst (·.library ∉ versions) links link ∧
      (build versions links).mapError StrayLink.failure = .error (.invalidInput ("link " ++ link.client.text ++
        " -> " ++ link.library.text ++ " refers to a library version outside the analysed set"))) ∨
    ((∀ link ∈ links, link.library ∈ versions) ∧ ∃ m, build versions links = .ok m ∧ Shows versions links m) := by
  cases built : build versions links with
  | error stray => exact .inl ⟨stray.link, build_eq_error_iff.1 built, rfl⟩
  | ok m =>
    have records := records_of_build built
    exact .inr ⟨records.known, m, rfl, records.shows⟩

/-- Two links of a cell fill it once, with the version of the later one. -/
example : ((build [⟨"g", "a", "1"⟩] [⟨⟨"g", "a", "1"⟩, ⟨"x", "c", "2"⟩⟩, ⟨⟨"g", "a", "1"⟩, ⟨"x", "c", "1"⟩⟩]).map
    fun m => (m.get? ⟨"g", "a", "1"⟩ ⟨"x", "c"⟩, m.filledCells)).toOption = some (some "1", 1) := by decide +kernel

end UsageMatrix
end MigrationMining
