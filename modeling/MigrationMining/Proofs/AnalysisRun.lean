import MigrationMining.Pipeline.Analysis
import MigrationMining.Proofs.ClientMoves
import MigrationMining.Proofs.ServiceTrace

/-! What a finished analysis consists of, whatever its services are: where its releases and links come from, which
candidates it has, and which file it writes last. -/

namespace MigrationMining

open Services

variable {σ : Type} {s : Services σ} {w w' : σ}

namespace Dataset

variable {library : Project} {selection : Selection} {versions : List Coordinate} {links : List Link}

theorem linksUntilCancelled_cons {v : Coordinate} {vs : List Coordinate}
    (h : linksUntilCancelled s (v :: vs) w = (links, w')) :
    links = [] ∨ ∃ found u u' rest, s.clients v u = (found, u') ∧ linksUntilCancelled s vs u' = (rest, w') ∧
      links = found.map (⟨v, ·⟩) ++ rest := by
  obtain ⟨cancelled, u, -, h⟩ := bind_run_eq_iff.1 h
  cases cancelled with
  | true => exact .inl (congrArg Prod.fst h).symm
  | false =>
    obtain ⟨found, u', asked, h⟩ := bind_run_eq_iff.1 h
    obtain ⟨rest, _, later, h⟩ := bind_run_eq_iff.1 h
    cases h
    exact .inr ⟨found, u, u', rest, asked, later, rfl⟩

/-- The links that are looked up release by release join the versions with clients that the services list for them. -/
theorem mem_linksUntilCancelled (h : linksUntilCancelled s versions w = (links, w')) {link : Link}
    (listed : link ∈ links) : ∃ u, link.client ∈ (s.clients link.library u).1 := by
  induction versions generalizing w links with
  | nil =>
    cases h
    cases listed
  | cons v vs ih =>
    rcases linksUntilCancelled_cons h with rfl | ⟨found, u, u', rest, asked, later, rfl⟩
    · cases listed
    · rcases List.mem_append.1 listed with listed | listed
      · obtain ⟨client, known, rfl⟩ := List.mem_map.1 listed
        exact ⟨u, by rwa [asked]⟩
      · exact ih later listed

theorem mem_knownLinks (h : knownLinks s library versions w = (links, w')) {link : Link} (listed : link ∈ links) :
    ∃ u, link ∈ (s.links library u).1 := by
  obtain ⟨cancelled, u, -, h⟩ := bind_run_eq_iff.1 h
  cases cancelled with
  | true =>
    cases h
    cases listed
  | false =>
    obtain ⟨found, u', asked, h⟩ := bind_run_eq_iff.1 h
    cases h
    exact ⟨u, by rw [asked]; exact (List.mem_filter.1 listed).1⟩

/-- A dataset of all releases has those that the services list; each of its links is one that the services know. -/
theorem collect_eq_ok {d : Dataset} (h : collect s library selection w = (.ok d, w')) :
    (selection = .all → ∃ u, d.versions = (s.releases library u).1) ∧
    ∀ link ∈ d.links, (∃ u, link ∈ (s.links library u).1) ∨ ∃ u, link.client ∈ (s.clients link.library u).1 := by
  obtain ⟨chosen, u, asked, h⟩ := bind_run_eq_iff.1 h
  cases chosen with
  | error e => cases h
  | ok versions =>
    cases selection with
    | all =>
      obtain ⟨links, v, known, h⟩ := bind_run_eq_iff.1 h
      obtain ⟨releases, v', listed, asked⟩ := bind_run_eq_iff.1 asked
      cases h
      cases asked
      exact ⟨fun _ => ⟨w, by rw [listed]⟩, fun link mem => .inl (mem_knownLinks known mem)⟩
    | single version | pair first second =>
      obtain ⟨links, v, known, h⟩ := bind_run_eq_iff.1 h
      cases h
      exact ⟨by simp, fun link mem => .inr (mem_linksUntilCancelled known mem)⟩

end Dataset

namespace Analysis

variable {root directory : Path} {library : Project} {selection : Selection}

theorem saveAll_cons {path : Path} {text : String} {files : List (Path × String)}
    (h : saveAll s ((path, text) :: files) w = (.ok (), w')) :
    ∃ u, s.save path text w = (.ok (), u) ∧ saveAll s files u = (.ok (), w') := by
  obtain ⟨saved, u, first, h⟩ := bind_run_eq_iff.1 h
  cases saved with
  | error e => cases h
  | ok _ => exact ⟨u, first, h⟩

/-- The candidates of a finished comparison are ranked from the matrix of the dataset and are written last. -/
theorem compare_eq_ok {d : Dataset} {m : UsageMatrix} {candidates : List Candidate}
    (h : compare s directory d w = (.ok (m, candidates), w')) :
    UsageMatrix.build d.versions d.links = .ok m ∧
    (∃ seen, candidates = Candidate.rankUntil seen m.versions m m.clients) ∧
    ∃ u, s.save (directory / DatasetFiles.candidatesName) (DatasetFiles.candidatesText candidates) u = (.ok (), w') := by
  unfold compare at h
  cases built : UsageMatrix.build d.versions d.links with
  | error e =>
    rw [built] at h
    cases h
  | ok matrix =>
    rw [built] at h
    obtain ⟨ranked, u, ranking, h⟩ := bind_run_eq_iff.1 h
    obtain ⟨made, _, -, ranking⟩ := bind_run_eq_iff.1 ranking
    obtain ⟨saved, v, saving, h⟩ := bind_run_eq_iff.1 h
    cases saved with
    | error e => cases h
    | ok _ =>
      obtain ⟨u', -, saving⟩ := saveAll_cons saving
      obtain ⟨u'', last, done⟩ := saveAll_cons saving
      cases ranking
      cases h
      cases done
      exact ⟨rfl, ⟨_, rfl⟩, u', last⟩

theorem compare_of_run {a : Analysis} (plural : ∀ version, selection ≠ .single version)
    (h : run s root library selection w = (.ok a, w')) :
    (∃ u, Dataset.collect s library selection w = (.ok a.dataset, u)) ∧ a.directory = libraryDirectory root library ∧
    ∃ u v m, compare s a.directory a.dataset u = (.ok (m, a.candidates), v) ∧ w' = (s.cancelled v).2 := by
  obtain ⟨collected, w₁, collecting, h⟩ := bind_run_eq_iff.1 h
  cases collected with
  | error e => cases h
  | ok d =>
    obtain ⟨saved, w₂, -, h⟩ := bind_run_eq_iff.1 h
    cases saved with
    | error e => cases h
    | ok _ =>
      cases selection with
      | single version => exact absurd rfl (plural version)
      | all | pair first second =>
        obtain ⟨compared, v, comparing, h⟩ := bind_run_eq_iff.1 h
        cases compared with
        | error e => cases h
        | ok ranked =>
          obtain ⟨_, _, noted, h⟩ := bind_run_eq_iff.1 h
          cases h
          cases noted
          exact ⟨⟨w₁, collecting⟩, rfl, w₂, v, ranked.1, comparing, rfl⟩

/-- A candidate of a finished analysis compares two releases of the dataset, and its clients are clients of links. -/
theorem mem_releases_of_run {a : Analysis} (plural : ∀ version, selection ≠ .single version)
    (h : run s root library selection w = (.ok a, w')) {c : Candidate} (ranked : c ∈ a.candidates) :
    c.older ∈ a.dataset.versions ∧ c.newer ∈ a.dataset.versions ∧
      ∀ r ∈ c.clientsAtOlder ++ c.clientsAtNewer, ∃ link ∈ a.dataset.links, link.client = r := by
  obtain ⟨-, -, u, v, m, compared, -⟩ := compare_of_run plural h
  obtain ⟨built, ⟨seen, candidates⟩, -⟩ := compare_eq_ok compared
  rw [candidates] at ranked
  obtain ⟨older, first, newer, second, rfl⟩ := Candidate.eq_between_of_mem_rankUntil ranked
  have versions : m.versions = a.dataset.versions := by rw [UsageMatrix.eq_of_build built]
  rw [versions] at first second
  have reflects := Candidate.between_reflects built m.clients older newer
  refine ⟨first, second, fun r listed => ?_⟩
  rcases List.mem_append.1 listed with listed | listed
  · exact mem_of_lastClient? (reflects.atOlder r listed)
  · exact mem_of_lastClient? (reflects.atNewer r listed)

end Analysis
end MigrationMining
