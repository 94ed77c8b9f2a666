import Mathlib.Data.List.Nodup
import Mathlib.Data.List.TakeWhile
import MigrationMining.Pipeline.Setup
import MigrationMining.Proofs.AnalysisTrace
import MigrationMining.Proofs.AnalysisRun
import MigrationMining.Proofs.ListedReleases
import MigrationMining.Proofs.StoredAnalysis

/-! When the versions of a dataset are distinct, and what follows for the candidates and the rows of the matrix. A
dependency graph lists each release once; a repository lists what its metadata says, as often as it says it. -/

namespace MigrationMining

open Services

section OrderedPairs

variable {α : Type}

theorem orderedPairs_ne_iff {xs : List α} : (∀ p ∈ orderedPairs xs, p.1 ≠ p.2) ↔ xs.Nodup := by
  induction xs with
  | nil => simp [orderedPairs]
  | cons x xs ih =>
    have first : (∀ p ∈ xs.map (x, ·), p.1 ≠ p.2) ↔ x ∉ xs := by
      simp only [List.forall_mem_map]
      constructor
      · exact fun h mem => h x mem rfl
      · rintro absent y mem rfl
        exact absent mem
    simp only [orderedPairs, List.forall_mem_append, first, ih, List.nodup_cons]

theorem pairwise_orderedPairs {xs : List α} (distinct : xs.Nodup) :
    (orderedPairs xs).Pairwise fun p q => p ≠ q ∧ p ≠ q.swap := by
  induction xs with
  | nil => exact List.Pairwise.nil
  | cons x xs ih =>
    obtain ⟨absent, rest⟩ := List.nodup_cons.1 distinct
    refine List.pairwise_append.2 ⟨List.pairwise_map.2 ?_, ih rest, fun p first q later => ?_⟩
    · refine (List.Pairwise.and_mem.1 rest).imp fun {y z} h => ⟨by simp [h.2.2], ?_⟩
      rintro same
      have hx : x = z := congrArg Prod.fst same
      exact absent (hx ▸ h.2.1)
    · obtain ⟨y, -, rfl⟩ := List.mem_map.1 first
      obtain ⟨left, right⟩ := mem_of_mem_orderedPairs later
      refine ⟨fun same => absent ?_, fun same => absent ?_⟩
      · have hx : x = q.1 := congrArg Prod.fst same
        rwa [hx]
      · have hx : x = q.2 := congrArg Prod.fst same
        rwa [hx]

end OrderedPairs

namespace Candidate

/-- Two candidates are about the same two releases, in whatever order. -/
def SameReleases (c d : Candidate) : Prop :=
  c.older = d.older ∧ c.newer = d.newer ∨ c.older = d.newer ∧ c.newer = d.older

theorem SameReleases.symm {c d : Candidate} (h : SameReleases c d) : SameReleases d c := by
  rcases h with ⟨older, newer⟩ | ⟨older, newer⟩
  · exact .inl ⟨older.symm, newer.symm⟩
  · exact .inr ⟨newer.symm, older.symm⟩

theorem rankUntil_perm (seen : Nat → Bool) (versions : List Coordinate) (m : UsageMatrix) (clients : ProjectSet) :
    ∃ compared : List (Coordinate × Coordinate), compared.Sublist (orderedPairs versions) ∧
      (rankUntil seen versions m clients).Perm (compared.map fun p => between m clients p.1 p.2) := by
  refine ⟨(((orderedPairs versions).zipIdx.takeWhile fun p => !seen p.2).map (·.1)), ?_, ?_⟩
  · have part := (List.takeWhile_sublist (fun p => !seen p.2) (l := (orderedPairs versions).zipIdx)).map Prod.fst
    rwa [List.zipIdx_map_fst] at part
  · rw [List.map_map]
    exact List.mergeSort_perm _ _

section Distinct

variable {versions : List Coordinate} (distinct : versions.Nodup) (seen : Nat → Bool) (m : UsageMatrix)
  (clients : ProjectSet)

include distinct

theorem older_ne_newer {c : Candidate} (ranked : c ∈ rankUntil seen versions m clients) : c.older ≠ c.newer := by
  obtain ⟨compared, part, perm⟩ := rankUntil_perm seen versions m clients
  obtain ⟨p, pair, rfl⟩ := List.mem_map.1 (perm.mem_iff.1 ranked)
  exact orderedPairs_ne_iff.2 distinct p (part.subset pair)

theorem pairwise_not_sameReleases :
    (rankUntil seen versions m clients).Pairwise fun c d => ¬ SameReleases c d := by
  obtain ⟨compared, part, perm⟩ := rankUntil_perm seen versions m clients
  have apart : (compared.map fun p => between m clients p.1 p.2).Pairwise fun c d => ¬ SameReleases c d := by
    refine List.pairwise_map.2 (((pairwise_orderedPairs distinct).sublist part).imp fun {p q} h same => ?_)
    rcases same with ⟨older, newer⟩ | ⟨older, newer⟩
    · exact h.1 (Prod.ext older newer)
    · exact h.2 (Prod.ext older newer)
  exact (perm.pairwise_iff fun h same => h same.symm).2 apart

end Distinct

/-- When all pairs are compared, some candidate compares a version with itself unless the versions are distinct. -/
theorem older_ne_newer_iff (m : UsageMatrix) : (∀ c ∈ rank m, c.older ≠ c.newer) ↔ m.versions.Nodup := by
  refine ⟨fun h => orderedPairs_ne_iff.1 fun p pair => ?_, fun distinct c ranked => older_ne_newer distinct _ m _ ranked⟩
  refine h (between m m.clients p.1 p.2) ?_
  simp only [rank, rankUntil, byMigrated, List.mem_mergeSort, List.mem_map]
  obtain ⟨k, at_k⟩ := List.mem_iff_getElem?.1 pair
  have uncancelled : (orderedPairs m.versions).zipIdx.takeWhile (fun p => !(fun _ => false) p.2) =
      (orderedPairs m.versions).zipIdx := List.takeWhile_eq_self_iff.2 (by simp)
  rw [uncancelled]
  exact ⟨(p, k), List.mem_zipIdx_iff_getElem?.2 at_k, rfl⟩

end Candidate

/-- The versions that a selection asks for are distinct, given the releases that are listed. -/
def Selection.Distinct (releases : List Coordinate) : Selection → Prop
  | .all => releases.Nodup
  | .single _ => True
  | .pair first second => first ≠ second

namespace Dataset

variable {σ : Type} {s : Services σ} {w w' : σ} {library : Project} {selection : Selection} {d : Dataset}

theorem versions_of_collect (h : collect s library selection w = (.ok d, w')) :
    d.versions = (selection.named? library).getD (s.releases library w).1 := by
  have chosen {versions releases : List Coordinate} {u : σ} (asked : listed s versions w = (.ok releases, u)) :
      releases = versions := by
    obtain ⟨unlisted, v, -, asked⟩ := bind_run_eq_iff.1 asked
    cases unlisted with
    | none => exact (Except.ok.inj (congrArg Prod.fst asked)).symm
    | some c => cases asked
  obtain ⟨found, u, asked, h⟩ := bind_run_eq_iff.1 h
  cases found with
  | error e => cases h
  | ok versions =>
    cases selection with
    | all =>
      obtain ⟨links, v, -, h⟩ := bind_run_eq_iff.1 h
      obtain ⟨releases, v', listing, asked⟩ := bind_run_eq_iff.1 asked
      cases h
      cases asked
      exact (congrArg Prod.fst listing).symm
    | single version | pair first second =>
      obtain ⟨links, v, -, h⟩ := bind_run_eq_iff.1 h
      cases h
      exact chosen asked

theorem nodup_versions_iff (h : collect s library selection w = (.ok d, w')) :
    d.versions.Nodup ↔ selection.Distinct (s.releases library w).1 := by
  rw [versions_of_collect h]
  cases selection with
  | all => rfl
  | single version => simp [Selection.named?, Selection.Distinct]
  | pair first second => simp [Selection.named?, Selection.Distinct, Project.release]

theorem project_of_mem_versions (h : collect s library selection w = (.ok d, w'))
    (own : ∀ c ∈ (s.releases library w).1, c.project = library) : ∀ c ∈ d.versions, c.project = library := by
  rw [versions_of_collect h]
  cases selection with
  | all => exact own
  | single version => simp [Selection.named?]
  | pair first second => simp [Selection.named?]

end Dataset

theorem Repository.releases_eq (r : Repository) (library : Project) (w : World) :
    (r.releases library w).1 = match (Fetch.text r.fetcher (Layout.metadataUrl r.url library) w).1 with
      | .ok xml => (ReleaseIndex.versions xml).map library.release
      | .error _ => [] := by
  change ((Fetch.text r.fetcher (Layout.metadataUrl r.url library) >>= _) w).1 = _
  obtain ⟨answer, u, fetched, same⟩ := bind_run_eq_iff.1 rfl
  rw [← same, fetched]
  cases answer <;> rfl

namespace Source

variable {source : Source} {library : Project} {w : World}

theorem project_of_mem_releases : ∀ c ∈ (source.releases library w).1, c.project = library := by
  intro c listed
  cases source with
  | graph g => exact (DependencyGraph.mem_releases.1 listed).1
  | repository r =>
    change c ∈ (r.releases library w).1 at listed
    rw [Repository.releases_eq] at listed
    split at listed
    · obtain ⟨version, -, rfl⟩ := List.mem_map.1 listed
      rfl
    · cases listed

theorem nodup_releases_iff : (source.releases library w).1.Nodup ↔
    ∀ r, source = .repository r → ∀ xml, (Fetch.text r.fetcher (Layout.metadataUrl r.url library) w).1 = .ok xml →
      (ReleaseIndex.versions xml).Nodup := by
  cases source with
  | graph g =>
    have once : (g.releases library w.files).1.Nodup := by
      rw [DependencyGraph.releases_eq]
      exact nodup_distinct _
    exact iff_of_true once (by simp)
  | repository r =>
    change (r.releases library w).1.Nodup ↔ _
    have injective : Function.Injective library.release := fun v v' same => congrArg Coordinate.version same
    rw [Repository.releases_eq]
    cases fetched : (Fetch.text r.fetcher (Layout.metadataUrl r.url library) w).1 with
    | error e => simp [fetched]
    | ok xml => simp [fetched, List.nodup_map_iff injective]

end Source

theorem UsageMatrix.nodup_rowVersions_iff {m : UsageMatrix} {library : Project}
    (own : ∀ c ∈ m.versions, c.project = library) : (m.rows.map (·.1.version)).Nodup ↔ m.versions.Nodup := by
  have versions : m.rows.map (·.1.version) = m.versions.map (·.version) := by
    simp [rows, Function.comp_def]
  have told_apart : ∀ c ∈ m.versions, ∀ d ∈ m.versions, c.version = d.version → c = d := by
    intro c hc d hd same
    calc c = c.project.release c.version := rfl
      _ = d.project.release d.version := by rw [own c hc, own d hd, same]
      _ = d := rfl
  rw [versions]
  exact ⟨List.Nodup.of_map _, fun distinct => (List.nodup_map_iff_inj_on distinct).2 told_apart⟩

namespace Analysis

variable {σ : Type} {s : Services σ} {w w' : σ} {root : Path} {library : Project} {selection : Selection} {a : Analysis}

theorem collect_of_run (h : run s root library selection w = (.ok a, w')) :
    ∃ u, Dataset.collect s library selection w = (.ok a.dataset, u) := by
  obtain ⟨collected, u, collecting, h⟩ := bind_run_eq_iff.1 h
  cases collected with
  | error e => cases h
  | ok d =>
    obtain ⟨saved, v, -, h⟩ := bind_run_eq_iff.1 h
    cases saved with
    | error e => cases h
    | ok _ =>
      refine ⟨u, ?_⟩
      rw [collecting]
      cases selection with
      | single version =>
        obtain ⟨_, _, noted, h⟩ := bind_run_eq_iff.1 h
        cases h
        cases noted
        rfl
      | all | pair first second =>
        obtain ⟨compared, v', -, h⟩ := bind_run_eq_iff.1 h
        cases compared with
        | error e => cases h
        | ok ranked =>
          obtain ⟨_, _, noted, h⟩ := bind_run_eq_iff.1 h
          cases h
          cases noted
          rfl

/-- The candidates of an analysis are ranked from its matrix, which has the versions of the dataset; without a matrix there
are none. -/
theorem Ends.candidates_eq {result : Except Failure Analysis} {directory : Path} {es : Trace}
    (h : Ends directory library selection result es) (done : result = .ok a) :
    (a.matrix = none ∧ a.candidates = []) ∨ ∃ m seen, a.matrix = some m ∧ m.versions = a.dataset.versions ∧
      a.candidates = Candidate.rankUntil seen m.versions m m.clients := by
  cases h with
  | uncollected => cases done
  | unsaved => cases done
  | uncompared => cases done
  | single =>
    cases done
    exact .inl ⟨rfl, rfl⟩
  | compared _ _ _ compares =>
    cases done
    generalize compared : (Except.ok _ : Except Failure (UsageMatrix × List Candidate)) = outcome at compares
    cases compares with
    | stray => cases compared
    | @compared m made saved _ _ built _ _ =>
      cases saved with
      | error e => cases compared
      | ok _ =>
        cases compared
        exact .inr ⟨_, (made ≤ ·), rfl, by rw [UsageMatrix.eq_of_build built]; rfl, rfl⟩

theorem candidates_of_run (h : run s root library selection w = (.ok a, w')) :
    (a.matrix = none ∧ a.candidates = []) ∨ ∃ m seen, a.matrix = some m ∧ m.versions = a.dataset.versions ∧
      a.candidates = Candidate.rankUntil seen m.versions m m.clients := by
  obtain ⟨es, -, ends, -⟩ := run_traced s root library selection w
  rw [h] at ends
  exact ends.candidates_eq rfl

/-- The versions of a dataset are distinct exactly if the listing names none twice, where all are asked for, or if the two
that are asked for differ. A graph always lists each release once, a repository if its metadata does. Distinct versions
have one row each, none is compared with itself and no two candidates are about the same two; versions that are not
distinct have a repeated row, and one of them is compared with itself unless the comparison is cancelled. -/
theorem distinct_versions_iff {source : Source} {s : Services World} (looks : s.releases = source.releases)
    (root : Path) (library : Project) (selection : Selection) (w : World) :
    ((source.releases library w).1.Nodup ↔ ∀ r, source = .repository r → ∀ xml,
      (Fetch.text r.fetcher (Layout.metadataUrl r.url library) w).1 = .ok xml → (ReleaseIndex.versions xml).Nodup) ∧
    (∀ d w', Dataset.collect s library selection w = (.ok d, w') →
      (d.versions.Nodup ↔ selection.Distinct (source.releases library w).1)) ∧
    ∀ a w', run s root library selection w = (.ok a, w') →
      (∃ u, Dataset.collect s library selection w = (.ok a.dataset, u)) ∧
      (a.dataset.versions.Nodup →
        (∀ c ∈ a.candidates, c.older ≠ c.newer) ∧ a.candidates.Pairwise fun c d => ¬ c.SameReleases d) ∧
      ∀ m, a.matrix = some m →
        ((m.rows.map (·.1.version)).Nodup ↔ a.dataset.versions.Nodup) ∧
        ((∀ c ∈ Candidate.rank m, c.older ≠ c.newer) ↔ a.dataset.versions.Nodup) := by
  refine ⟨Source.nodup_releases_iff, fun d w' collected => ?_, fun a w' done => ?_⟩
  · rw [Dataset.nodup_versions_iff collected, looks]
  · obtain ⟨u, collected⟩ := collect_of_run done
    have own : ∀ c ∈ a.dataset.versions, c.project = library := by
      refine Dataset.project_of_mem_versions collected ?_
      rw [looks]
      exact Source.project_of_mem_releases
    refine ⟨⟨u, collected⟩, fun distinct => ?_, fun m made => ?_⟩
    · rcases candidates_of_run done with ⟨-, none⟩ | ⟨m, seen, -, versions, candidates⟩
      · simp [none]
      · rw [← versions] at distinct
        rw [candidates]
        exact ⟨fun c => Candidate.older_ne_newer distinct seen m m.clients,
          Candidate.pairwise_not_sameReleases distinct seen m m.clients⟩
    · rcases candidates_of_run done with ⟨none, -⟩ | ⟨m', seen, made', versions, -⟩
      · cases none.symm.trans made
      · obtain rfl : m = m' := Option.some.inj (made.symm.trans made')
        rw [Candidate.older_ne_newer_iff, ← versions]
        rw [← versions] at own
        exact ⟨UsageMatrix.nodup_rowVersions_iff own, Iff.rfl⟩

def repeatedMention : World where
  files := { nodes := [(["graph"], .directory),
    (["graph", "next_all.csv"], .file "\"g:a:1.0\",\"g:a:2.0\"\n\"g:a:1.0\",\"g:a:1.0\"\n".toUTF8 0)] }

theorem distinct_versions_of_repeated_mention :
    let s := localSetup.services ⟨.facts, none⟩
    s.releases = localSetup.source.releases ∧
      ∃ a w', run s ⟨"data"⟩ ⟨"g", "a"⟩ .all repeatedMention = (.ok a, w') ∧
        a.candidates = [⟨⟨"g", "a", "1.0"⟩, ⟨"g", "a", "2.0"⟩, 0, [], []⟩] ∧ a.dataset.versions.Nodup := by
  intro s
  have looks : s.releases = localSetup.source.releases := rfl
  have ranked : (run s ⟨"data"⟩ ⟨"g", "a"⟩ .all repeatedMention).1.toOption.map (·.candidates) =
      some [⟨⟨"g", "a", "1.0"⟩, ⟨"g", "a", "2.0"⟩, 0, [], []⟩] := by decide +kernel
  obtain ⟨listed, collected, ran⟩ := distinct_versions_iff looks ⟨"data"⟩ ⟨"g", "a"⟩ .all repeatedMention
  rcases done : run s ⟨"data"⟩ ⟨"g", "a"⟩ .all repeatedMention with ⟨e | a, w'⟩
  · simp [done, Except.toOption] at ranked
  · rw [done] at ranked
    obtain ⟨⟨u, collecting⟩, -⟩ := ran a w' done
    refine ⟨looks, a, w', rfl, Option.some.inj ranked, (collected _ _ collecting).2 (listed.2 ?_)⟩
    intro r graph
    cases graph

/-- The metadata of a repository lists a release twice, or a pair names one release twice: it has two rows and is compared
with itself. -/
theorem repeated_versions_compared :
    let repository : Repository := ⟨"http://repo", "http://usage", ⟨.plain, {}⟩⟩
    let metadata := "<versioning><versions><version>1.0</version><version>1.0</version></versions></versioning>"
    let w : World := { web := { pages := [("http://repo/g/a/maven-metadata.xml", [.answered 200 metadata.toUTF8 true])] } }
    let remote := Setup.services ⟨.repository repository, repository⟩ ⟨.facts, none⟩
    let repeated : List Candidate := [⟨⟨"g", "a", "1.0"⟩, ⟨"g", "a", "1.0"⟩, 0, [], []⟩]
    (run remote ⟨"data"⟩ ⟨"g", "a"⟩ .all w).1.toOption.map (fun a => (a.dataset.versions, a.candidates)) =
      some ([⟨"g", "a", "1.0"⟩, ⟨"g", "a", "1.0"⟩], repeated) ∧
    (run remote ⟨"data"⟩ ⟨"g", "a"⟩ .all w).2.files.readText ⟨"data/g_a/versionMatrix.csv"⟩ = .ok "\n1.0\n1.0\n" ∧
    (run (localSetup.services ⟨.facts, none⟩) ⟨"data"⟩ ⟨"g", "a"⟩ (.pair "1.0" "1.0") repeatedMention).1.toOption.map
      (·.candidates) = some repeated := by
  decide +kernel

end Analysis
end MigrationMining
