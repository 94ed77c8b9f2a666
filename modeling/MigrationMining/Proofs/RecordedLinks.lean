import Mathlib.Data.List.Induction
import MigrationMining.Proofs.FirstAndLast
import MigrationMining.UsageMatrix

/-! The usage matrix link by link. A link is refused or makes its client known and fills its cell, so that a matrix holds
what the links say: whose clients they are, and which link to a cell is the last. -/

namespace MigrationMining

/-- The client release of the last link from a project to a library release. -/
def lastClient? (links : List Link) (library : Coordinate) (client : Project) : Option Coordinate :=
  (links.reverse.find? fun link => link.library = library ∧ link.client.project = client).map (·.client)

theorem project_of_lastClient? {links : List Link} {library : Coordinate} {client : Project} {c : Coordinate}
    (h : lastClient? links library client = some c) : c.project = client := by
  obtain ⟨link, found, rfl⟩ := Option.map_eq_some_iff.1 h
  have h := List.find?_some found
  simp only [decide_eq_true_eq] at h
  exact h.2

theorem lastClient?_isSome {links : List Link} {library : Coordinate} {client : Project} :
    (lastClient? links library client).isSome ↔
      ∃ link ∈ links, link.library = library ∧ link.client.project = client := by
  simp [lastClient?]

theorem mem_of_lastClient? {links : List Link} {library : Coordinate} {client : Project} {c : Coordinate}
    (h : lastClient? links library client = some c) : ∃ link ∈ links, link.client = c := by
  obtain ⟨link, found, rfl⟩ := Option.map_eq_some_iff.1 h
  exact ⟨link, List.mem_reverse.1 (List.mem_of_find?_eq_some found), rfl⟩

theorem lastClient?_append (xs ys : List Link) (library : Coordinate) (p : Project) :
    lastClient? (xs ++ ys) library p = (lastClient? ys library p).or (lastClient? xs library p) := by
  simp [lastClient?, List.find?_append, Option.map_or]

theorem lastClient?_eq_some_iff {links : List Link} {library c : Coordinate} {client : Project} :
    lastClient? links library client = some c ↔
      ∃ link, IsLast (fun link => link.library = library ∧ link.client.project = client) links link ∧
        link.client = c := by
  simp only [lastClient?, Option.map_eq_some_iff, find?_reverse_eq_some_iff_isLast]

namespace UsageMatrix

variable {versions : List Coordinate} {links : List Link} {m m' : UsageMatrix} {link : Link}

def empty (versions : List Coordinate) : UsageMatrix where
  versions
  clients := ∅
  cells := ∅

/-- A link to another release than the listed ones is refused. Else its client is known from now on, and its cell holds
the version of the client, whatever it held before. -/
def record (m : UsageMatrix) (link : Link) : Except StrayLink UsageMatrix :=
  if link.library ∈ m.versions then
    .ok { m with
      clients := m.clients.insert link.client.project
      cells := m.cells.insert (Cell.ofLink link) link.client.version }
  else .error ⟨link⟩

theorem record_eq_ok_iff : m.record link = .ok m' ↔ link.library ∈ m.versions ∧
    m' = { m with
      clients := m.clients.insert link.client.project
      cells := m.cells.insert (Cell.ofLink link) link.client.version } := by
  by_cases listed : link.library ∈ m.versions <;> simp [record, listed, eq_comm]

theorem build_nil (versions : List Coordinate) : build versions [] = .ok (empty versions) := by
  simp [build, empty]

theorem build_concat (versions : List Coordinate) (links : List Link) (link : Link) :
    build versions (links ++ [link]) = build versions links >>= (record · link) := by
  have clients : (Std.ExtTreeSet.ofList ((links ++ [link]).map (·.client.project)) compare : ProjectSet) =
      (Std.ExtTreeSet.ofList (links.map (·.client.project)) compare).insert link.client.project := by
    apply Std.ExtTreeSet.ext_mem
    intro p
    simp [or_comm, eq_comm (a := p)]
  unfold build
  rw [List.find?_append]
  cases links.find? fun link => link.library ∉ versions with
  | some stray => rfl
  | none =>
    by_cases known : link.library ∈ versions
    · simp only [clients]
      simp [known, record, bind, Except.bind]
    · simp [known, record, bind, Except.bind]

theorem build_eq_foldlM (versions : List Coordinate) (links : List Link) :
    build versions links = links.foldlM record (empty versions) := by
  induction links using List.reverseRecOn with
  | nil => exact build_nil versions
  | append_singleton links link ih =>
    rw [build_concat, ih, List.foldlM_append]
    simp

theorem build_eq_error_iff {stray : StrayLink} :
    build versions links = .error stray ↔ IsFirst (·.library ∉ versions) links stray.link := by
  rw [← find?_eq_some_iff_isFirst, build]
  cases links.find? fun link => link.library ∉ versions with
  | some link =>
    obtain ⟨refused⟩ := stray
    simp
  | none => simp

/-- The matrix holds what the links say, and all of them lead to listed releases. -/
structure Records (versions : List Coordinate) (links : List Link) (m : UsageMatrix) : Prop where
  versions_eq : m.versions = versions
  known : ∀ link ∈ links, link.library ∈ versions
  mem_clients : ∀ p, p ∈ m.clients ↔ ∃ link ∈ links, link.client.project = p
  get?_eq : ∀ library client, m.get? library client = (lastClient? links library client).map (·.version)

namespace Records

theorem empty (versions : List Coordinate) : Records versions [] (empty versions) where
  versions_eq := rfl
  known := by simp
  mem_clients p := by simp [UsageMatrix.empty]
  get?_eq library client := by simp [UsageMatrix.empty, get?, lastClient?]

theorem record (h : Records versions links m) (taken : m.record link = .ok m') :
    Records versions (links ++ [link]) m' := by
  obtain ⟨rfl, known, mem_clients, get?_eq⟩ := h
  obtain ⟨listed, rfl⟩ := record_eq_ok_iff.1 taken
  refine ⟨rfl, ?_, fun p => ?_, fun library client => ?_⟩
  · intro other member
    rcases List.mem_append.1 member with earlier | last
    · exact known other earlier
    · rw [List.mem_singleton.1 last]
      exact listed
  · simp [mem_clients, or_comm]
  · have filled : (m.cells.insert (Cell.ofLink link) link.client.version)[(library, client)]? =
        if Cell.ofLink link = (library, client) then some link.client.version else m.get? library client := by
      simp only [Std.ExtTreeMap.getElem?_insert, Std.LawfulEqCmp.compare_eq_iff_eq, get?]
    -- The insert shadows what the cell of the link held and leaves all other cells alone, as the last link does.
    rw [lastClient?_append, get?, filled, get?_eq]
    by_cases same : link.library = library ∧ link.client.project = client
    · simp [lastClient?, Cell.ofLink, same]
    · simp [lastClient?, Cell.ofLink, same]

theorem foldlM {later : List Link} (h : Records versions links m) (run : later.foldlM UsageMatrix.record m = .ok m') :
    Records versions (links ++ later) m' := by
  induction later generalizing links m with
  | nil =>
    cases run
    simpa using h
  | cons link later ih =>
    rw [List.foldlM_cons] at run
    cases taken : m.record link with
    | error stray =>
      rw [taken] at run
      cases run
    | ok n =>
      rw [taken] at run
      simpa using ih (h.record taken) run

end Records

theorem records_of_build (built : build versions links = .ok m) : Records versions links m := by
  rw [build_eq_foldlM] at built
  exact (Records.empty versions).foldlM built

theorem exists_build_iff : (∃ m, build versions links = .ok m) ↔ ∀ link ∈ links, link.library ∈ versions := by
  constructor
  · rintro ⟨m, built⟩
    exact (records_of_build built).known
  · intro known
    cases built : build versions links with
    | ok m => exact ⟨m, rfl⟩
    | error stray =>
      have first := build_eq_error_iff.1 built
      exact absurd (known _ first.mem) first.1

section SameCells

variable {links' : List Link}

theorem exists_same_cell
    (cells : ∀ library client, lastClient? links library client = lastClient? links' library client)
    (listed : link ∈ links) :
    ∃ other ∈ links', other.library = link.library ∧ other.client.project = link.client.project := by
  rw [← lastClient?_isSome, ← cells, lastClient?_isSome]
  exact ⟨link, listed, rfl, rfl⟩

theorem Records.eq (h : Records versions links m) (h' : Records versions links' m')
    (cells : ∀ library client, lastClient? links library client = lastClient? links' library client) : m = m' := by
  obtain ⟨_, projects, table⟩ := m
  obtain ⟨_, projects', table'⟩ := m'
  obtain ⟨rfl, -, mem_clients, get?_eq⟩ := h
  obtain ⟨rfl, -, mem_clients', get?_eq'⟩ := h'
  have clients : projects = projects' := by
    apply Std.ExtTreeSet.ext_mem
    intro p
    refine (mem_clients p).trans (Iff.trans ⟨?_, ?_⟩ (mem_clients' p).symm)
    · rintro ⟨link, listed, rfl⟩
      obtain ⟨other, listed', -, same⟩ := exists_same_cell cells listed
      exact ⟨other, listed', same⟩
    · rintro ⟨link, listed, rfl⟩
      obtain ⟨other, listed', -, same⟩ := exists_same_cell (fun library p => (cells library p).symm) listed
      exact ⟨other, listed', same⟩
  have filled : table = table' := by
    apply Std.ExtTreeMap.ext_getElem?
    rintro ⟨library, client⟩
    exact (get?_eq library client).trans (cells library client ▸ (get?_eq' library client).symm)
  rw [clients, filled]

theorem exists_build_of_same_cells
    (cells : ∀ library client, lastClient? links library client = lastClient? links' library client)
    (accepted : ∃ m, build versions links' = .ok m) : ∃ m, build versions links = .ok m := by
  rw [exists_build_iff] at accepted ⊢
  intro link listed
  obtain ⟨other, listed', same, -⟩ := exists_same_cell cells listed
  exact same ▸ accepted other listed'

theorem toOption_build_congr
    (cells : ∀ library client, lastClient? links library client = lastClient? links' library client)
    (versions : List Coordinate) : (build versions links).toOption = (build versions links').toOption := by
  cases first : build versions links with
  | error stray =>
    cases second : build versions links' with
    | error stray' => rfl
    | ok m' =>
      obtain ⟨m, built⟩ := exists_build_of_same_cells cells ⟨m', second⟩
      cases first.symm.trans built
  | ok m =>
    obtain ⟨m', second⟩ := exists_build_of_same_cells (fun library p => (cells library p).symm) ⟨m, first⟩
    rw [second, (records_of_build first).eq (records_of_build second) cells]

end SameCells

end UsageMatrix
end MigrationMining
