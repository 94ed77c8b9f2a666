import MigrationMining.Proofs.LinkTally
import MigrationMining.Proofs.MatrixViews

/-! The figures of a dataset count links, where the usage matrix counts the projects that are linked. Both come to the same
as long as no project is linked to a release twice, and only then. -/

namespace MigrationMining

/-- The projects that are linked to a release, once for each link. -/
def linkedProjects (links : List Link) (library : Coordinate) : List Project :=
  (links.filter (·.library = library)).map (·.client.project)

variable {versions : List Coordinate} {links : List Link} {m : UsageMatrix}

theorem length_linkedProjects (links : List Link) (library : Coordinate) :
    (linkedProjects links library).length = links.countP (·.library = library) := by
  rw [linkedProjects, List.length_map, List.countP_eq_length_filter]

theorem mem_linkedProjects {library : Coordinate} {p : Project} :
    p ∈ linkedProjects links library ↔ ∃ link ∈ links, link.library = library ∧ link.client.project = p := by
  simp [linkedProjects, and_assoc]

theorem filter_cells (links : List Link) (library : Coordinate) :
    (links.map UsageMatrix.Cell.ofLink).filter (·.1 = library) = (linkedProjects links library).map (library, ·) := by
  rw [List.filter_map, linkedProjects, List.map_map]
  refine List.map_congr_left fun link member => ?_
  have here : link.library = library := of_decide_eq_true (List.mem_filter.1 member).2
  rw [← here]
  rfl

theorem nodup_linkedProjects (once : (links.map UsageMatrix.Cell.ofLink).Nodup) (library : Coordinate) :
    (linkedProjects links library).Nodup := by
  refine List.Nodup.of_map (library, ·) ?_
  rw [← filter_cells]
  exact once.filter _

theorem toFinset_card_eq_length_iff {α : Type} [DecidableEq α] {xs : List α} :
    xs.toFinset.card = xs.length ↔ xs.Nodup :=
  Multiset.toFinset_card_eq_card_iff_nodup (m := (xs : Multiset α))

namespace UsageMatrix.Records

theorem length_usersOf (h : Records versions links m) (library : Coordinate) :
    (m.usersOf library).length = (linkedProjects links library).toFinset.card := by
  obtain ⟨-, distinct, -⟩ := h.shows.users library
  rw [← List.toFinset_card_of_nodup distinct]
  congr 1
  ext p
  rw [List.mem_toFinset, List.mem_toFinset, h.usersOf_eq, mem_filledIn, h.get?_eq, Option.isSome_map, lastClient?_isSome,
    mem_linkedProjects]

theorem length_usersOf_le (h : Records versions links m) (library : Coordinate) :
    (m.usersOf library).length ≤ links.countP (·.library = library) := by
  rw [h.length_usersOf, ← length_linkedProjects]
  exact List.toFinset_card_le _

theorem length_usersOf_eq_iff (h : Records versions links m) (library : Coordinate) :
    (m.usersOf library).length = links.countP (·.library = library) ↔ (linkedProjects links library).Nodup := by
  rw [h.length_usersOf, ← length_linkedProjects, toFinset_card_eq_length_iff]

theorem filledCells_le_length (h : Records versions links m) : m.filledCells ≤ links.length := by
  rw [h.filledCells_eq, ← List.length_map Cell.ofLink]
  exact List.toFinset_card_le _

theorem filledCells_eq_length_iff (h : Records versions links m) :
    m.filledCells = links.length ↔ (links.map Cell.ofLink).Nodup := by
  rw [h.filledCells_eq, ← toFinset_card_eq_length_iff, List.length_map]

end UsageMatrix.Records

theorem UsageMatrix.length_usersOf_le_clients (m : UsageMatrix) (library : Coordinate) :
    (m.usersOf library).length ≤ m.clients.size := by
  rw [← Std.ExtTreeSet.length_toList]
  exact List.length_filter_le _ _

namespace Statistics

/-- The figures tell of the matrix: releases have as many clients as users, and the density is that of filled cells. -/
structure AgreesWith (s : Statistics) (m : UsageMatrix) : Prop where
  usage : s.usage.Perm (m.versions.map fun v => ⟨v.version, (m.usersOf v).length⟩)
  usage_le : ∀ u ∈ s.usage, u.clients ≤ s.clients
  density : s.density = ⟨m.filledCells, m.versions.length * m.clients.size⟩
  density_le : s.density.num ≤ s.density.den

/-- The figures tell of the links: releases have as many clients as links, and the density is that of links. What the
matrix counts is never more, and as much for a release exactly when no project is linked to it twice. -/
structure CountsLinks (s : Statistics) (links : List Link) (m : UsageMatrix) : Prop where
  usage : s.usage.Perm (m.versions.map fun v => ⟨v.version, links.countP (·.library = v)⟩)
  users_le : ∀ v, (m.usersOf v).length ≤ links.countP (·.library = v) ∧ (m.usersOf v).length ≤ s.clients
  users_eq_iff : ∀ v, (m.usersOf v).length = links.countP (·.library = v) ↔ (linkedProjects links v).Nodup
  density : s.density = ⟨links.length, m.versions.length * m.clients.size⟩
  filled_le : m.filledCells ≤ s.density.num ∧ m.filledCells ≤ s.density.den

variable (candidates : List Candidate)

theorem usageOf_perm (versions : List Coordinate) (links : List Link) :
    (usageOf versions (.ofLinks links)).Perm (versions.map fun v => ⟨v.version, links.countP (·.library = v)⟩) := by
  rw [usageOf_ofLinks]
  exact (byLinks_linkOrder versions links).perm.map _

theorem clients_compute (h : UsageMatrix.Records versions links m) :
    (compute versions links candidates).clients = m.clients.size := by
  change (Std.ExtTreeSet.ofList (links.map (·.client.project)) compare : ProjectSet).size = m.clients.size
  congr 1
  refine Std.ExtTreeSet.ext_mem fun p => ?_
  simp [h.mem_clients]

theorem density_compute (h : UsageMatrix.Records versions links m) :
    (compute versions links candidates).density = ⟨links.length, m.versions.length * m.clients.size⟩ := by
  rw [← clients_compute candidates h, h.versions_eq]
  rfl

theorem countsLinks_compute (h : UsageMatrix.Records versions links m) :
    (compute versions links candidates).CountsLinks links m where
  usage := by
    rw [h.versions_eq]
    exact usageOf_perm versions links
  users_le v := by
    rw [clients_compute candidates h]
    exact ⟨h.length_usersOf_le v, m.length_usersOf_le_clients v⟩
  users_eq_iff := h.length_usersOf_eq_iff
  density := density_compute candidates h
  filled_le := by
    rw [density_compute candidates h, h.versions_eq]
    exact ⟨h.filledCells_le_length, h.filledCells_le⟩

theorem CountsLinks.agreesWith {s : Statistics} (h : s.CountsLinks links m)
    (filled : m.filledCells = links.length) (once : (links.map UsageMatrix.Cell.ofLink).Nodup) : s.AgreesWith m := by
  have users (v : Coordinate) : (m.usersOf v).length = links.countP (·.library = v) :=
    (h.users_eq_iff v).2 (nodup_linkedProjects once v)
  have usage : s.usage.Perm (m.versions.map fun v => ⟨v.version, (m.usersOf v).length⟩) := by
    simpa only [users] using h.usage
  have density : s.density = ⟨m.filledCells, m.versions.length * m.clients.size⟩ := by
    rw [filled, h.density]
  refine ⟨usage, fun u listed => ?_, density, ?_⟩
  · obtain ⟨v, -, rfl⟩ := List.mem_map.1 (usage.mem_iff.1 listed)
    exact (h.users_le v).2
  · have within := h.filled_le.2
    rw [density] at within ⊢
    exact within

/-- Of links to listed releases a matrix is built, and the figures count the links that it is built from. They agree with
the matrix if and only if no project is linked to a release twice. -/
theorem compute_agreesWith_iff (known : ∀ link ∈ links, link.library ∈ versions) :
    ∃ m, UsageMatrix.build versions links = .ok m ∧ (compute versions links candidates).CountsLinks links m ∧
      ((compute versions links candidates).AgreesWith m ↔ (links.map UsageMatrix.Cell.ofLink).Nodup) := by
  obtain ⟨m, built⟩ := UsageMatrix.exists_build_iff.2 known
  have records := UsageMatrix.records_of_build built
  have counts := countsLinks_compute candidates records
  refine ⟨m, built, counts, ?_⟩
  rw [← records.filledCells_eq_length_iff]
  constructor
  · intro agrees
    have same : (⟨links.length, _⟩ : Ratio) = ⟨m.filledCells, _⟩ := counts.density.symm.trans agrees.density
    exact (Ratio.mk.inj same).1.symm
  · intro filled
    exact counts.agreesWith filled (records.filledCells_eq_length_iff.1 filled)

theorem compute_agreesWith_iff_of_upgraded_client :
    let versions : List Coordinate := [⟨"g", "a", "1"⟩, ⟨"g", "a", "2"⟩, ⟨"g", "a", "3"⟩]
    let links : List Link := [⟨⟨"g", "a", "1"⟩, ⟨"x", "c", "1"⟩⟩, ⟨⟨"g", "a", "2"⟩, ⟨"x", "c", "1"⟩⟩,
      ⟨⟨"g", "a", "1"⟩, ⟨"x", "c", "2"⟩⟩]
    (∀ link ∈ links, link.library ∈ versions) ∧
      ∃ m, UsageMatrix.build versions links = .ok m ∧ (compute versions links []).CountsLinks links m ∧
        ((compute versions links []).AgreesWith m ↔ (links.map UsageMatrix.Cell.ofLink).Nodup) := by
  intro versions links
  have known : ∀ link ∈ links, link.library ∈ versions := by decide
  exact ⟨known, compute_agreesWith_iff [] known⟩

/-- A release that two releases of one client use has one user and is said to have two clients, and the density is two. -/
theorem not_agreesWith_of_second_client_release :
    let versions : List Coordinate := [⟨"g", "a", "1"⟩]
    let links : List Link := [⟨⟨"g", "a", "1"⟩, ⟨"x", "c", "1"⟩⟩, ⟨⟨"g", "a", "1"⟩, ⟨"x", "c", "2"⟩⟩]
    let s := compute versions links []
    versions.Nodup ∧ (∀ link ∈ links, link.library ∈ versions) ∧
      ∃ m, UsageMatrix.build versions links = .ok m ∧ m.usersOf ⟨"g", "a", "1"⟩ = [⟨"x", "c"⟩] ∧ m.filledCells = 1 ∧
        s.usage = [⟨"1", 2⟩] ∧ s.clients = 1 ∧ s.density = ⟨2, 1⟩ ∧ ¬ s.AgreesWith m := by
  intro versions links s
  have density : s.density = ⟨2, 1⟩ := by decide +kernel
  refine ⟨by decide, by decide, _, rfl, by decide +kernel, by decide +kernel, by decide +kernel, by decide +kernel, density,
    fun agrees => ?_⟩
  have within := agrees.density_le
  rw [density] at within
  exact absurd within (by decide)

end Statistics
end MigrationMining
