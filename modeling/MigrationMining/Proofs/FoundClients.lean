import MigrationMining.Proofs.SteadyWeb
import MigrationMining.Proofs.WholeResponses
import MigrationMining.Repository.Lookup

/-! The clients that a repository finds for a library on a web that does not change, and what it reports on the way. -/

namespace MigrationMining

namespace Fetch

variable {client : Client} {f : Fetcher} {url : String} {w : World} {e : FetchFailure}

theorem eq_notFound_of_getOnce (failed : (getOnce client url w).1 = .error e) (gone : e.isNotFound) :
    e = .notFound url := by
  cases asked : client.request url with
  | error reason =>
    rw [getOnce_of_refused asked] at failed
    cases failed
    cases gone
  | ok u =>
    rw [getOnce_of_request asked] at failed
    generalize (w.web.ask ⟨.get, u⟩).1 = response at failed
    cases response with
    | dropped =>
      cases failed
      cases gone
    | answered status body isWhole =>
      dsimp only [content] at failed
      split at failed
      · cases failed
      · split at failed
        · cases failed
        · cases failed
          unfold FetchFailure.ofStatus at gone ⊢
          split at gone
          · next missing => exact if_pos missing
          · split at gone <;> cases gone

theorem isNotFound_iff_of_text (failed : (text f url w).1 = .error e) :
    e.isNotFound ↔ e = .ofStatus 404 url ∨ e = .ofStatus 410 url := by
  obtain ⟨attempt, same, each⟩ : ∃ attempt, text f url = f.policy.run url attempt ∧
      ∀ v e, (attempt v).1 = .error e → e.isNotFound → e = .notFound url := by
    refine ⟨_, rfl, fun v e failed gone => ?_⟩
    obtain ⟨once, u, asked, rest⟩ := Services.bind_run_eq_iff.1 rfl
    rw [← rest] at failed
    rcases once with e' | ⟨body, isWhole⟩
    · cases failed
      exact eq_notFound_of_getOnce (by rw [asked]) gone
    · cases isWhole with
      | true => cases failed
      | false =>
        cases failed
        cases gone
  constructor
  · intro gone
    left
    rw [same] at failed
    rcases f.policy.run_cases url attempt w with ⟨k, -, -, -, last⟩ | ⟨-, exhausted⟩
    · rw [last] at failed
      exact each _ e failed gone
    · rw [exhausted] at failed
      cases failed
      cases gone
  · rintro (rfl | rfl) <;> rfl

end Fetch

namespace Repository

section Answers

variable (r : Repository) (answer : String → Except FetchFailure String)

/-- The clients on a page of the usage listing; one that cannot be had has none. -/
def clientsOn (library : Coordinate) (page : Nat) : List Project :=
  match answer (Layout.usageUrl r.usageUrl library page) with
  | .ok html => UsagePage.clients html
  | .error _ => []

/-- A page that cannot be had is reported, unless its status says that there is none: 404 or 410. -/
def pageReport (library : Coordinate) (page : Nat) : DiagnosticLog :=
  let url := Layout.usageUrl r.usageUrl library page
  match answer url with
  | .ok _ => []
  | .error e => if e = .ofStatus 404 url ∨ e = .ofStatus 410 url then [] else [e.diagnostic url]

def releasesOf (p : Project) : List Coordinate :=
  match answer (Layout.metadataUrl r.url p) with
  | .ok xml => (ReleaseIndex.versions xml).map p.release
  | .error _ => []

def releasesReport (p : Project) : DiagnosticLog :=
  match answer (Layout.metadataUrl r.url p) with
  | .ok _ => []
  | .error e => [e.diagnostic p.text]

def pomOf (c : Coordinate) : Except FetchFailure Pom :=
  (answer (Layout.fileUrl r.url c "pom")).bind (readPom c)

/-- The POM of a release can be read and has the library as a direct dependency of the compiled code. -/
def dependsOn (library c : Coordinate) : Bool :=
  match pomOf r answer c with
  | .ok pom => pom.dependencies.any fun d => d.scope = "compile" && d.coordinate = library
  | .error _ => false

def pomReport (c : Coordinate) : DiagnosticLog :=
  match pomOf r answer c with
  | .ok _ => []
  | .error e => [e.diagnostic c.text]

/-- What is reported while the releases of a project are looked through. -/
def projectReport (p : Project) : DiagnosticLog :=
  releasesReport r answer p ++ (releasesOf r answer p).flatMap (pomReport r answer)

end Answers

section Steady

variable {r : Repository} {answer : String → Except FetchFailure String}

abbrev Finds (r : Repository) (answer : String → Except FetchFailure String) {α : Type} (m : StateM World α) (a : α)
    (notes : DiagnosticLog) : Prop :=
  Gives (fun w => w.web.Steady r.fetcher answer) World.log m a notes

theorem finds_releases (p : Project) :
    Finds r answer (r.releases p) (releasesOf r answer p) (releasesReport r answer p) := by
  refine (Web.gives_text r.fetcher answer _).bind ?_
  unfold releasesOf
  cases answer (Layout.metadataUrl r.url p) with
  | ok xml => exact Gives.pure _
  | error e => exact (Web.gives_report _).bind (Gives.pure _)

theorem finds_pom (c : Coordinate) : Finds r answer (r.pom c) (pomOf r answer c) [] := by
  refine (Web.gives_text r.fetcher answer _).bind ?_
  unfold pomOf
  cases answer (Layout.fileUrl r.url c "pom") <;> exact Gives.pure _

variable (r answer) in
/-- A release is kept if its dependencies name the library; those of a POM that cannot be read name nothing. -/
theorem exists_finds_dependencies (library c : Coordinate) : ∃ ds,
    Finds r answer (r.dependencies c) ds (pomReport r answer c) ∧ (library ∈ ds ↔ dependsOn r answer library c) := by
  have read : Finds r answer (r.pom c) (pomOf r answer c) [] := finds_pom c
  unfold pomReport dependsOn
  cases found : pomOf r answer c with
  | ok pom =>
    rw [found] at read
    refine ⟨pom.compileDependencies, read.bind (Gives.pure _), ?_⟩
    simp [Pom.compileDependencies, Pom.Dependency.isCompile, and_assoc]
  | error e =>
    rw [found] at read
    exact ⟨[], read.bind ((Web.gives_report _).bind (Gives.pure _)), by simp⟩

theorem finds_dependentsAmong (library : Coordinate) (cs : List Coordinate) :
    Finds r answer (r.dependentsAmong library cs) (cs.filter (dependsOn r answer library))
      (cs.flatMap (pomReport r answer)) := by
  induction cs with
  | nil => exact Gives.pure _
  | cons c cs ih =>
    obtain ⟨ds, read, uses⟩ := exists_finds_dependencies r answer library c
    rw [List.flatMap_cons]
    refine read.bind ?_
    rw [← List.append_nil (cs.flatMap _)]
    refine ih.bind ?_
    rw [List.filter_cons]
    by_cases keeps : library ∈ ds
    · rw [if_pos (uses.1 keeps)]
      rw [if_pos keeps]
      exact Gives.pure _
    · rw [if_neg fun used => keeps (uses.2 used)]
      rw [if_neg keeps]
      exact Gives.pure _

theorem finds_dependentReleases (library : Coordinate) (ps : List Project) :
    Finds r answer (r.dependentReleases library ps)
      (ps.flatMap fun p => (releasesOf r answer p).filter (dependsOn r answer library))
      (ps.flatMap (projectReport r answer)) := by
  induction ps with
  | nil => exact Gives.pure _
  | cons p ps ih =>
    rw [List.flatMap_cons, List.flatMap_cons, projectReport, List.append_assoc]
    refine (finds_releases p).bind ((finds_dependentsAmong library _).bind ?_)
    rw [← List.append_nil (ps.flatMap (projectReport r answer))]
    exact ih.bind (Gives.pure _)

theorem finds_listedClients (library : Coordinate) (page : Nat) :
    Finds r answer (r.listedClients library page) (clientsOn r answer library page)
      (pageReport r answer library page) := by
  intro w steady
  have looked : (Fetch.text r.fetcher (Layout.usageUrl r.usageUrl library page) w).1 = answer _ :=
    (Web.gives_text r.fetcher answer _ w steady).1
  refine (Web.gives_text r.fetcher answer _).bind ?_ w steady
  unfold clientsOn
  cases answered : answer (Layout.usageUrl r.usageUrl library page) with
  | ok html => exact Gives.pure _
  | error e =>
    rw [answered] at looked
    dsimp only
    by_cases gone : e.isNotFound
    · rw [if_pos ((Fetch.isNotFound_iff_of_text looked).1 gone), if_neg (by simp [gone])]
      exact Gives.pure _
    · rw [if_neg fun missing => gone ((Fetch.isNotFound_iff_of_text looked).2 missing), if_pos (by simp [gone])]
      exact (Web.gives_report _).bind (Gives.pure _)

theorem pageReport_of_mem {library : Coordinate} {page : Nat} {p : Project} (mem : p ∈ clientsOn r answer library page) :
    pageReport r answer library page = [] := by
  unfold clientsOn at mem
  unfold pageReport
  split at mem
  · next looked => simp only [looked]
  · cases mem

end Steady

/-- On a web whose answers do not change, let `n` be the first page of the usage listing of a library that lists no new
client. The clients found are these: of the projects that the pages list, each when it is listed first, the releases in
the order of their metadata whose POM can be read and has the library as a direct compile dependency. Each lookup that
fails is reported once, except that of a missing page; it finds nothing. -/
theorem clients_of_steady (r : Repository) (library : Coordinate) {answer : String → Except FetchFailure String}
    {w : World} (steady : w.web.Steady r.fetcher answer) {n : Nat}
    (last : UsagePage.IsLastPage (clientsOn r answer library) n) (numbered : n < UsagePage.pageLimit) :
    let listed := distinct (UsagePage.listed (clientsOn r answer library) n)
    (r.clients library w).1 = (listed.flatMap (releasesOf r answer)).filter (dependsOn r answer library) ∧
      (r.clients library w).2.log = w.log ++ listed.flatMap (projectReport r answer) ++ pageReport r answer library n := by
  obtain ⟨found, reported, -⟩ := UsagePage.gives_walk (finds_listedClients library) (finds_dependentReleases library)
    last numbered w steady
  have quiet : ∀ page ∈ List.range' 1 (n - 1), pageReport r answer library page ++
      (UsagePage.added (clientsOn r answer library) page).flatMap (projectReport r answer) =
      (UsagePage.added (clientsOn r answer library) page).flatMap (projectReport r answer) := by
    intro page within
    rw [List.mem_range'_1] at within
    obtain ⟨p, mem, -⟩ := last.first page within.1 (by omega)
    rw [pageReport_of_mem mem, List.nil_append]
  constructor
  · rw [← last.flatMap_added, List.flatMap_assoc, List.filter_flatMap]
    simp only [List.filter_flatMap]
    exact found
  · rw [← last.flatMap_added, List.flatMap_assoc, ← List.flatMap_congr quiet, List.append_assoc]
    exact reported

/-- A usage listing of one page with two projects. Of one there is metadata, with a release that has the library as a
dependency and one whose POM says nothing; the metadata of the other cannot be had. -/
def patchyListing : World where
  web := { pages := [
    ("http://usage.test/artifact/g/a/1/usages?p=1", [.answered 200 (subtitle "x" "c" ++ subtitle "y" "e").toUTF8 true]),
    ("http://repo.test/x/c/maven-metadata.xml",
      [.answered 200 "<versions><version>1</version><version>2</version></versions>".toUTF8 true]),
    ("http://repo.test/y/e/maven-metadata.xml", [.answered 503 .empty true]),
    ("http://repo.test/x/c/1/c-1.pom", [.answered 200 ("<dependencies><dependency><groupId>g</groupId>" ++
      "<artifactId>a</artifactId><version>1</version></dependency></dependencies>").toUTF8 true]),
    ("http://repo.test/x/c/2/c-2.pom", [.answered 200 "<project/>".toUTF8 true])] }
where
  subtitle (group artifact : String) : String :=
    "<p class=\"im-subtitle\"><a>" ++ group ++ "</a><a>" ++ artifact ++ "</a></p>"

theorem clients_of_patchyListing :
    let r : Repository := ⟨"http://repo.test", "http://usage.test", ⟨.plain, ⟨0, some 1⟩⟩⟩
    let library : Coordinate := ⟨"g", "a", "1"⟩
    let answer : String → Except FetchFailure String := fun url => (patchyListing.web.lookup r.fetcher url).1
    patchyListing.web.Steady r.fetcher answer ∧ UsagePage.IsLastPage (clientsOn r answer library) 2 ∧
      2 < UsagePage.pageLimit ∧ (r.clients library patchyListing).1 = [⟨"x", "c", "1"⟩] ∧
      (r.clients library patchyListing).2.log = [
        ⟨.malformedInput, "x:c:2", "Failed to parse POM of x:c:2: no project coordinates"⟩,
        ⟨.transient, "y:e", "Gave up on http://repo.test/y/e/maven-metadata.xml after 1 attempts"⟩] := by
  intro r library answer
  have fixed : patchyListing.web.IsFixed := by
    unfold Web.IsFixed
    decide
  have steady : patchyListing.web.Steady r.fetcher answer := fixed.steady r.fetcher
  have one : clientsOn r answer library 1 = [⟨"x", "c"⟩, ⟨"y", "e"⟩] := by decide +kernel
  have two : clientsOn r answer library 2 = [] := by decide +kernel
  have last : UsagePage.IsLastPage (clientsOn r answer library) 2 := by
    refine ⟨by decide, by simp [two], fun k pos before => ?_⟩
    obtain rfl : k = 1 := by omega
    exact ⟨⟨"x", "c"⟩, by simp [one], by simp⟩
  have numbered : 2 < UsagePage.pageLimit := by decide
  have listed : distinct (UsagePage.listed (clientsOn r answer library) 2) = [⟨"x", "c"⟩, ⟨"y", "e"⟩] := by
    rw [UsagePage.listed_succ, UsagePage.listed_succ, one, two]
    decide
  obtain ⟨found, reported⟩ := clients_of_steady r library steady last numbered
  rw [listed] at found reported
  have outcome : ([⟨"x", "c"⟩, ⟨"y", "e"⟩].flatMap (releasesOf r answer)).filter (dependsOn r answer library) =
        [⟨"x", "c", "1"⟩] ∧
      patchyListing.log ++ [⟨"x", "c"⟩, ⟨"y", "e"⟩].flatMap (projectReport r answer) ++ pageReport r answer library 2 = [
        ⟨.malformedInput, "x:c:2", "Failed to parse POM of x:c:2: no project coordinates"⟩,
        ⟨.transient, "y:e", "Gave up on http://repo.test/y/e/maven-metadata.xml after 1 attempts"⟩] := by
    decide +kernel
  exact ⟨steady, last, numbered, found.trans outcome.1, reported.trans outcome.2⟩

end Repository

end MigrationMining
