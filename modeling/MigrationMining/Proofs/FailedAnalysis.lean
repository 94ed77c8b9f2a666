import MigrationMining.Pipeline.Journal
import MigrationMining.Pipeline.Setup
import MigrationMining.Proofs.VersionPairs
import MigrationMining.Proofs.WorldServices

/-! How an analysis can fail: a release that is asked for is not listed, and then nothing was written, or a file cannot be
saved. The links that are collected always suit the matrix. -/

namespace MigrationMining

open Services

variable {σ : Type} {s : Services σ}

namespace Dataset

variable {library : Project} {selection : Selection} {versions : List Coordinate} {es : Trace}

theorem LinksRun.library_mem {links : List Link} (h : LinksRun versions links es) :
    ∀ link ∈ links, link.library ∈ versions := by
  induction h with
  | done => simp
  | cancelled => simp
  | next v found _ ih =>
    intro link linked
    rcases List.mem_append.1 linked with here | later
    · obtain ⟨client, -, rfl⟩ := List.mem_map.1 here
      exact List.mem_cons_self
    · exact List.mem_cons_of_mem v (ih link later)

/-- Whatever the services answer and wherever the collection is cancelled, each link leads to one of the versions. -/
theorem Collects.library_mem {d : Dataset} (h : Collects library selection (.ok d) es) :
    ∀ link ∈ d.links, link.library ∈ d.versions := by
  generalize collected : (Except.ok d : Except Failure Dataset) = result at h
  cases h with
  | all versions found =>
    cases collected
    intro link linked
    have kept := (List.mem_filter.1 linked).2
    simpa using kept
  | cancelled versions =>
    cases collected
    simp
  | unlisted => cases collected
  | listed _ _ linking =>
    cases collected
    exact linking.library_mem

theorem ListingRun.only_isListed {unlisted : Option Coordinate} (h : ListingRun versions unlisted es) :
    ∀ e ∈ es, ∃ c answer, e = .isListed c answer := by
  induction h with
  | done => simp
  | unlisted c rest => simp
  | next c _ ih => simpa using ih

theorem Collects.of_error {e : Failure} (h : Collects library selection (.error e) es) :
    (∃ c : Coordinate, e = .notFound c.text) ∧ ∀ x ∈ es, ∃ c answer, x = .isListed c answer := by
  generalize failed : (Except.error e : Except Failure Dataset) = result at h
  cases h with
  | all => cases failed
  | cancelled => cases failed
  | listed => cases failed
  | unlisted _ listing =>
    cases failed
    exact ⟨⟨_, rfl⟩, listing.only_isListed⟩

end Dataset

theorem UsageMatrix.build_ne_error {versions : List Coordinate} {links : List Link}
    (known : ∀ link ∈ links, link.library ∈ versions) (stray : StrayLink) : build versions links ≠ .error stray := by
  intro refused
  have first := build_eq_error_iff.1 refused
  exact first.1 (known _ first.mem)

/-- A text that cannot be saved is a failure of a file. The services of a setup and those of a journal are like this. -/
def Services.SavesToFiles (s : Services σ) : Prop :=
  ∀ path text w e, (s.save path text w).1 = .error e → ∃ cause, e = .file cause

theorem Setup.savesToFiles (setup : Setup) (x : Extractor) : (setup.services x).SavesToFiles := by
  intro path text w e failed
  rcases setup.save_cases x path text w with ⟨files, -, whole⟩ | ⟨interrupted, -, whole⟩
  · rw [whole] at failed
    cases failed
  · rw [whole] at failed
    exact ⟨interrupted.cause.message, (Except.error.inj failed).symm⟩

theorem Journal.savesToFiles (a : Answers) : (Journal.services a).SavesToFiles := by
  intro path text j e failed
  simp only [Journal.services] at failed
  split at failed
  · cases failed
  · next interrupted _ => exact ⟨interrupted.cause.message, (Except.error.inj failed).symm⟩

namespace Analysis

variable {root directory : Path} {library : Project} {selection : Selection} {es : Trace} {w : σ}

theorem Compares.refused_mem {d : Dataset} {e : Failure} (h : Compares directory d (.error e) es)
    (known : ∀ link ∈ d.links, link.library ∈ d.versions) : ∃ path text, Exchange.save path text (.error e) ∈ es := by
  generalize failed : (Except.error e : Except Failure (UsageMatrix × List Candidate)) = result at h
  cases h with
  | stray unbuilt => exact absurd unbuilt (UsageMatrix.build_ne_error known _)
  | @compared m made saved es fs _ _ saving =>
    cases saved with
    | ok _ => cases failed
    | error cause =>
      cases failed
      obtain ⟨path, text, refused⟩ := saving.refused_mem
      exact ⟨path, text, List.mem_append_right _ refused⟩

/-- An analysis fails because a release is not listed, before anything else is asked, or because a file is refused. -/
theorem Ends.of_error {e : Failure} (h : Ends directory library selection (.error e) es) :
    ((∃ c : Coordinate, e = .notFound c.text) ∧ ∀ x ∈ es, ∃ c answer, x = .isListed c answer) ∨
      ∃ path text, Exchange.save path text (.error e) ∈ es := by
  generalize failed : (Except.error e : Except Failure Analysis) = result at h
  cases h with
  | uncollected collects =>
    cases failed
    exact .inl collects.of_error
  | @unsaved d cause es collects =>
    cases failed
    exact .inr ⟨_, _, List.mem_append_right es (List.mem_singleton_self _)⟩
  | single => cases failed
  | uncompared _ collects compares =>
    cases failed
    obtain ⟨path, text, refused⟩ := compares.refused_mem collects.library_mem
    exact .inr ⟨path, text, List.mem_append_right _ (List.mem_cons_of_mem _ refused)⟩
  | compared => cases failed

theorem notFound_of_run (saves : s.SavesToFiles) {e : Failure} (failed : (run s root library selection w).1 = .error e)
    (other : ∀ cause, e ≠ .file cause) :
    (∃ c : Coordinate, e = .notFound c.text) ∧
      ∀ x ∈ (run s.noted root library selection (w, [])).2.2, ∃ c answer, x = .isListed c answer := by
  obtain ⟨es, noted, ends, steps⟩ := run_traced s root library selection w
  rw [noted, List.nil_append]
  rw [failed] at ends
  rcases ends.of_error with unlisted | ⟨path, text, refused⟩
  · exact unlisted
  · obtain ⟨u, u', step⟩ := steps.step_of_mem refused
    have answered : (s.save path text u).1 = .error e := congrArg Prod.fst step
    obtain ⟨cause, same⟩ := saves path text u e answered
    exact absurd same (other cause)

/-- Each collected link leads to one of the collected versions, and so an analysis never ends with an invalid input,
whatever the services answer and wherever it is cancelled. When something is not found, nothing but the listing of
releases was asked about until then, so that no file has been saved and the files are what they were. -/
theorem unwritten_of_notFound (saves : s.SavesToFiles) (root : Path) (library : Project) (selection : Selection) (w : σ) :
    (∀ d w', Dataset.collect s library selection w = (.ok d, w') → ∀ link ∈ d.links, link.library ∈ d.versions) ∧
    (∀ cause, (run s root library selection w).1 ≠ .error (.invalidInput cause)) ∧
    ∀ what, (run s root library selection w).1 = .error (.notFound what) →
      (∀ x ∈ (run s.noted root library selection (w, [])).2.2, ∃ c answer, x = .isListed c answer) ∧
      ∀ files : σ → FileStore, (∀ c u, files (s.isListed c u).2 = files u) →
        files (run s root library selection w).2 = files w := by
  refine ⟨fun d w' collected => ?_, fun cause failed => ?_, fun what failed => ?_⟩
  · obtain ⟨es, -, collects, -⟩ := Dataset.collect_traced s library selection w
    rw [collected] at collects
    exact collects.library_mem
  · obtain ⟨⟨c, same⟩, -⟩ := notFound_of_run saves failed (by simp)
    cases same
  · obtain ⟨-, only⟩ := notFound_of_run saves failed (by simp)
    refine ⟨only, fun files kept => ?_⟩
    obtain ⟨es, noted, -, steps⟩ := run_traced s root library selection w
    rw [noted, List.nil_append] at only
    refine steps.keeps (I := fun u => files u = files w) (fun e mem u u' step same => ?_) rfl
    obtain ⟨c, answer, rfl⟩ := only e mem
    have after : (s.isListed c u).2 = u' := congrArg Prod.snd step
    rw [← after, kept, same]

/-- Links of an outdated listing, to a release and to a library that are not listed. -/
def outdatedLinks : Answers where
  releases p := [p.release "1.0"]
  clients _ := [⟨"x", "c", "1"⟩]
  links := some fun p => [⟨p.release "0.9", ⟨"x", "c", "1"⟩⟩, ⟨⟨"h", "b", "1.0"⟩, ⟨"x", "c", "1"⟩⟩,
    ⟨p.release "1.0", ⟨"x", "c", "1"⟩⟩]
  isListed c := c.version = "1.0"
  dependencies _ := []
  archive _ _ := none
  declarations _ := .ok ∅
  callGraph _ := .ok ∅

def analysedBefore : Journal where
  files := { nodes := [(["data"], .directory), (["data", "g_a"], .directory),
    (["data", "g_a", "links.csv"], .file "g:a:1.0,x:c:1\n".toUTF8 0)] }

/-- An analysis of two releases, the second of which is gone, leaves the files of the earlier analysis; outdated links are
no invalid input. -/
theorem unwritten_of_release_gone :
    let s := Journal.services outdatedLinks
    s.SavesToFiles ∧ (run s ⟨"data"⟩ ⟨"g", "a"⟩ (.pair "1.0" "0.9") analysedBefore).1 = .error (.notFound "g:a:0.9") ∧
      (run s ⟨"data"⟩ ⟨"g", "a"⟩ (.pair "1.0" "0.9") analysedBefore).2.files = analysedBefore.files ∧
      ∀ cause, (run s ⟨"data"⟩ ⟨"g", "a"⟩ .all analysedBefore).1 ≠ .error (.invalidInput cause) := by
  intro s
  have saves := Journal.savesToFiles outdatedLinks
  have failed : (run s ⟨"data"⟩ ⟨"g", "a"⟩ (.pair "1.0" "0.9") analysedBefore).1 = .error (.notFound "g:a:0.9") := rfl
  obtain ⟨-, -, gone⟩ := unwritten_of_notFound saves ⟨"data"⟩ ⟨"g", "a"⟩ (.pair "1.0" "0.9") analysedBefore
  obtain ⟨-, valid, -⟩ := unwritten_of_notFound saves ⟨"data"⟩ ⟨"g", "a"⟩ .all analysedBefore
  exact ⟨saves, failed, (gone _ failed).2 Journal.files fun _ _ => rfl, valid⟩

end Analysis
end MigrationMining
