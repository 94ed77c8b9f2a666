import MigrationMining.Pipeline.Setup
import MigrationMining.Proofs.AnalysisRun
import MigrationMining.Proofs.FileText
import MigrationMining.Proofs.ListedReleases
import MigrationMining.Proofs.StoredCandidates
import MigrationMining.Proofs.WorldServices

/-! The candidates that a finished analysis leaves in its directory, and when they are read back from there as they were
ranked. -/

namespace MigrationMining

variable {σ : Type}

namespace Services

/-- The texts that are saved go to a tree of files, and asking whether to stop leaves the files alone. -/
structure KeepsFiles (s : Services σ) (files : σ → FileStore) : Prop where
  saved : ∀ {path text w w'}, s.save path text w = (.ok (), w') → (files w).save path text = .ok (files w')
  watched : ∀ w, files (s.cancelled w).2 = files w

/-- Releases, clients and links are looked up in a dependency graph. -/
structure LooksUpIn (s : Services σ) (files : σ → FileStore) (g : DependencyGraph) : Prop where
  releases : ∀ p w, (s.releases p w).1 = (g.releases p (files w)).1
  clients : ∀ c w, (s.clients c w).1 = (g.clients c (files w)).1
  links : ∀ p w, (s.links p w).1 = (g.links p (files w)).1

end Services

theorem Setup.keepsFiles (setup : Setup) (x : Extractor) : (setup.services x).KeepsFiles World.files where
  saved := setup.files_of_save x
  watched _ := rfl

theorem Setup.looksUpIn (g : DependencyGraph) (archives : Repository) (x : Extractor) :
    (Setup.services ⟨.graph g, archives⟩ x).LooksUpIn World.files g where
  releases _ _ := rfl
  clients _ _ := rfl
  links _ _ := rfl

namespace Analysis

open Services

variable {s : Services σ} {files : σ → FileStore} {root : Path} {library : Project} {selection : Selection} {w w' : σ}
  {a : Analysis}

theorem readCandidates_eq (keeps : s.KeepsFiles files) (plural : ∀ version, selection ≠ .single version)
    (done : run s root library selection w = (.ok a, w')) :
    DatasetFiles.readCandidates (files w') a.directory =
      DatasetFiles.parseCandidates (DatasetFiles.candidatesText a.candidates) := by
  obtain ⟨-, -, u, v, m, compared, rfl⟩ := compare_of_run plural done
  obtain ⟨-, -, u', saved⟩ := compare_eq_ok compared
  have text := FileStore.readText_of_save (keeps.saved saved)
  rw [keeps.watched, DatasetFiles.readCandidates, text]

theorem readable_clients (looks : ∃ g, s.LooksUpIn files g) (plural : ∀ version, selection ≠ .single version)
    (done : run s root library selection w = (.ok a, w')) {c : Candidate} (ranked : c ∈ a.candidates) :
    ∀ r ∈ c.clientsAtOlder ++ c.clientsAtNewer, r.Readable := by
  obtain ⟨g, looks⟩ := looks
  obtain ⟨⟨u, collected⟩, -, -⟩ := compare_of_run plural done
  obtain ⟨-, -, linked⟩ := mem_releases_of_run plural done ranked
  intro r listed
  obtain ⟨link, known, rfl⟩ := linked r listed
  rcases (Dataset.collect_eq_ok collected).2 link known with ⟨v, found⟩ | ⟨v, found⟩
  · rw [looks.links] at found
    obtain ⟨-, row, -, -, connects⟩ := DependencyGraph.mem_links.1 found
    exact Coordinate.readable_of_parse connects.source
  · rw [looks.clients] at found
    exact DependencyGraph.readable_of_mem_clients found

theorem readable_releases (looks : ∃ g, s.LooksUpIn files g)
    (done : run s root library .all w = (.ok a, w')) {c : Candidate} (ranked : c ∈ a.candidates) :
    c.older.Readable ∧ c.newer.Readable := by
  obtain ⟨g, looks⟩ := looks
  obtain ⟨⟨u, collected⟩, -, -⟩ := compare_of_run (by simp) done
  obtain ⟨first, second, -⟩ := mem_releases_of_run (by simp) done ranked
  obtain ⟨v, versions⟩ := (Dataset.collect_eq_ok collected).1 rfl
  have readable : ∀ r ∈ a.dataset.versions, r.Readable := by
    intro r listed
    rw [versions, looks.releases] at listed
    obtain ⟨-, field, -, -, parsed⟩ := DependencyGraph.mem_releases.1 listed
    exact Coordinate.readable_of_parse parsed
  exact ⟨readable _ first, readable _ second⟩

/-- The candidates of a finished analysis are read back from its directory, in their order, if and only if the text of
each release they name is read as that release. With a dependency graph the clients always are, so it comes down to
the two releases that are compared, and those are too if all releases are analysed. -/
theorem readCandidates_of_run (keeps : s.KeepsFiles files) (plural : ∀ version, selection ≠ .single version)
    (done : run s root library selection w = (.ok a, w')) :
    (DatasetFiles.readCandidates (files w') a.directory = .ok a.candidates ↔ ∀ c ∈ a.candidates, c.Storable) ∧
    ((∃ g, s.LooksUpIn files g) → (∀ c ∈ a.candidates, c.migrated < Nat.pow 2 64) →
      (DatasetFiles.readCandidates (files w') a.directory = .ok a.candidates ↔
        ∀ c ∈ a.candidates, c.older.Readable ∧ c.newer.Readable) ∧
      (selection = .all → DatasetFiles.readCandidates (files w') a.directory = .ok a.candidates)) := by
  have readBack : DatasetFiles.readCandidates (files w') a.directory = .ok a.candidates ↔
      ∀ c ∈ a.candidates, c.Storable := by
    rw [readCandidates_eq keeps plural done]
    exact DatasetFiles.parseCandidates_candidatesText
  refine ⟨readBack, fun looks countable => ?_⟩
  have graph : DatasetFiles.readCandidates (files w') a.directory = .ok a.candidates ↔
      ∀ c ∈ a.candidates, c.older.Readable ∧ c.newer.Readable := by
    rw [readBack]
    refine forall₂_congr fun c ranked => ?_
    have clients := readable_clients looks plural done ranked
    constructor
    · intro storable
      exact ⟨storable.readable _ (by simp [Candidate.releases]), storable.readable _ (by simp [Candidate.releases])⟩
    · rintro ⟨older, newer⟩
      exact ⟨List.forall_mem_cons.2 ⟨older, List.forall_mem_cons.2 ⟨newer, clients⟩⟩, countable c ranked⟩
  refine ⟨graph, ?_⟩
  rintro rfl
  exact graph.2 fun c ranked => readable_releases looks done ranked

/-- A client that moved from one release of a library to the next. -/
def movedClient : World where
  files := { nodes := [(["graph"], .directory),
    (["graph", "next_all.csv"], .file "\"g:a:1.0\",\"g:a:2.0\"\n".toUTF8 0),
    (["graph", "links_all.csv"], .file "\"x:c:1\",\"g:a:1.0\"\n\"x:c:2\",\"g:a:2.0\"\n".toUTF8 0)] }

def localSetup : Setup := ⟨.graph ⟨⟨"graph"⟩⟩, ⟨"", "", ⟨.plain, {}⟩⟩⟩

theorem readCandidates_of_moved_client :
    let s := localSetup.services ⟨.facts, none⟩
    ∃ a w', run s ⟨"data"⟩ ⟨"g", "a"⟩ .all movedClient = (.ok a, w') ∧
      a.candidates = [⟨⟨"g", "a", "1.0"⟩, ⟨"g", "a", "2.0"⟩, 1, [⟨"x", "c", "1"⟩], [⟨"x", "c", "2"⟩]⟩] ∧
      DatasetFiles.readCandidates w'.files a.directory = .ok a.candidates := by
  intro s
  have ranked : (run s ⟨"data"⟩ ⟨"g", "a"⟩ .all movedClient).1.toOption.map (·.candidates) =
      some [⟨⟨"g", "a", "1.0"⟩, ⟨"g", "a", "2.0"⟩, 1, [⟨"x", "c", "1"⟩], [⟨"x", "c", "2"⟩]⟩] := by decide +kernel
  rcases done : run s ⟨"data"⟩ ⟨"g", "a"⟩ .all movedClient with ⟨e | a, w'⟩
  · simp [done, Except.toOption] at ranked
  · rw [done] at ranked
    have candidates := Option.some.inj ranked
    have stored := readCandidates_of_run (localSetup.keepsFiles ⟨.facts, none⟩) (by simp) done
    refine ⟨a, w', rfl, candidates, (stored.2 ⟨_, Setup.looksUpIn _ _ _⟩ ?_).2 rfl⟩
    simp [candidates]

/-- A dump names a release with an extension, and the analysis is asked for by that spelling: the version it ranks has a
colon, and another version is read back. -/
theorem readCandidates_ne_of_colon :
    let s := localSetup.services ⟨.facts, none⟩
    let w : World := { files := { nodes := [(["graph"], .directory),
      (["graph", "next_all.csv"], .file "\"g:a:jar:1.0\",\"g:a:2.0\"\n".toUTF8 0)] } }
    (run s ⟨"data"⟩ ⟨"g", "a"⟩ (.pair "jar:1.0" "2.0") w).1.toOption.map (fun a => (a.candidates, a.directory)) =
      some ([⟨⟨"g", "a", "jar:1.0"⟩, ⟨"g", "a", "2.0"⟩, 0, [], []⟩], ⟨"data/g_a"⟩) ∧
    DatasetFiles.readCandidates (run s ⟨"data"⟩ ⟨"g", "a"⟩ (.pair "jar:1.0" "2.0") w).2.files ⟨"data/g_a"⟩ =
      .ok [⟨⟨"g", "a", "1.0"⟩, ⟨"g", "a", "2.0"⟩, 0, [], []⟩] := by
  decide +kernel

end Analysis
end MigrationMining
