import MigrationMining.Proofs.AdaptationOrigin
import MigrationMining.Proofs.SteadyWeb
import MigrationMining.Proofs.WorldServices

/-! Client releases whose POM cannot be read. The failure is reported and the release counts as one without
dependencies, so that the dependencies of the other release are all that the pair is compared for. -/

namespace MigrationMining

def World.LogGrows (w w' : World) : Prop := w.log <+: w'.log

theorem World.LogGrows.allows : Allows LogGrows where
  refl w := List.prefix_refl w.log
  trans _ _ _ first second := List.IsPrefix.trans first second
  asks w _ := List.prefix_refl w.log
  reports w log := List.prefix_append w.log log

/-- Services that look dependencies up in a repository, and that take nothing out of the log. -/
structure Services.ReliesOn (s : Services World) (r : Repository) : Prop where
  dependencies : s.dependencies = r.dependencies
  logged : ∀ {w e w'}, s.Step w e w' → w.LogGrows w'

theorem Setup.reliesOn {setup : Setup} {r : Repository} (x : Extractor) (remote : setup.source = .repository r) :
    (setup.services x).ReliesOn r where
  dependencies := by
    change setup.source.dependencies = r.dependencies
    rw [remote]
    rfl
  logged step := by
    refine World.LogGrows.allows.of_step step (fun c root _ _ => ?_) (fun _ => List.prefix_refl _)
      fun _ _ _ _ => List.prefix_refl _
    exact World.LogGrows.allows.archive
      (.of_files (fun _ _ => List.prefix_refl _) (fun _ _ => List.prefix_refl _) _) setup.archives

namespace Repository

theorem log_pom (r : Repository) (c : Coordinate) (w : World) : (r.pom c w).2.log = w.log := by
  have onWeb : World.OnWeb (r.pom c) := by
    refine World.OnWeb.bind (Fetch.onWeb_text _ _) fun answer => ?_
    cases answer <;> exact fun _ => rfl
  rw [onWeb w]

theorem dependencies_of_unreadable {r : Repository} {c : Coordinate} {w : World} {e : FetchFailure}
    (unreadable : (r.pom c w).1 = .error e) :
    (r.dependencies c w).1 = [] ∧ (r.dependencies c w).2.log = w.log ++ [e.diagnostic c.text] := by
  obtain ⟨answer, v, asked, rest⟩ := Services.bind_run_eq_iff.1 (Eq.refl (r.dependencies c w))
  obtain rfl : answer = .error e := by rw [← unreadable, asked]
  have quiet : v.log = w.log := by rw [← r.log_pom c w, asked]
  rw [← rest, ← quiet]
  exact ⟨rfl, rfl⟩

end Repository

namespace PairReport

variable {s : Services World} {r : Repository} {directory : Path} {old new : Coordinate} {w : World} {p : PairReport}

theorem run_after_lookups (remote : s.ReliesOn r) (directory : Path) (old new : Coordinate) (w : World) :
    DiffsFor directory old new (r.dependencies old w).1 (r.dependencies new (r.dependencies old w).2).1
        (run s directory old new w).1 (run s.noted directory old new (w, [])).2.2 ∧
      (r.dependencies new (r.dependencies old w).2).2.LogGrows (run s directory old new w).2 := by
  obtain ⟨es, noted, ends, steps⟩ := run_traced s directory old new w
  rw [noted, List.nil_append]
  obtain ⟨before, after, a, b, rest, rfl, how⟩ := ends.diffsFor
  cases steps with
  | @cons _ u _ _ _ first steps =>
    cases steps with
    | @cons _ v _ _ _ second steps =>
      rw [← remote.dependencies]
      obtain rfl : (s.dependencies old w).2 = u := congrArg Prod.snd first
      obtain rfl : (s.dependencies new (s.dependencies old w).2).2 = v := congrArg Prod.snd second
      obtain rfl : (s.dependencies old w).1 = before := congrArg Prod.fst first
      obtain rfl : (s.dependencies new (s.dependencies old w).2).1 = after := congrArg Prod.fst second
      refine ⟨⟨a, b, rest, rfl, how⟩, ?_⟩
      exact steps.keeps (fun _ _ _ _ step grown => grown.trans (remote.logged step)) (List.prefix_refl _)

theorem shownBy_of_run (remote : s.ReliesOn r) (done : (run s directory old new w).1 = .ok p)
    {x : Adaptation} (found : x ∈ p.adaptations) :
    ∃ a : AffectedLibrary, x.comparison.library = a.library.project ∧ x.comparison.change = a.change ∧
      a.ShownBy (r.dependencies old w).1 (r.dependencies new (r.dependencies old w).2).1 := by
  obtain ⟨a, affected, comparison⟩ := comparison_of_run done found
  rw [delta_of_run done, remote.dependencies] at affected
  exact ⟨a, by rw [comparison], by rw [comparison], DependencyDelta.shownBy_of_mem_affected affected⟩

theorem added_of_unreadable_old (remote : s.ReliesOn r)
    (done : (run s directory old new w).1 = .ok p) {e : FetchFailure} (unreadable : (r.pom old w).1 = .error e)
    {x : Adaptation} (found : x ∈ p.adaptations) : x.comparison.change = .added ∧
      ∃ d ∈ (r.dependencies new (r.dependencies old w).2).1, d.project = x.comparison.library := by
  obtain ⟨a, library, change, shown⟩ := shownBy_of_run remote done found
  rw [(Repository.dependencies_of_unreadable unreadable).1] at shown
  obtain ⟨added, used⟩ := shown.added_of_nil_old
  exact ⟨change.trans added, a.library, used, library.symm⟩

theorem removed_of_unreadable_new (remote : s.ReliesOn r)
    (done : (run s directory old new w).1 = .ok p) {e : FetchFailure}
    (unreadable : (r.pom new (r.dependencies old w).2).1 = .error e) {x : Adaptation} (found : x ∈ p.adaptations) :
    x.comparison.change = .removed ∧ ∃ d ∈ (r.dependencies old w).1, d.project = x.comparison.library := by
  obtain ⟨a, library, change, shown⟩ := shownBy_of_run remote done found
  rw [(Repository.dependencies_of_unreadable unreadable).1] at shown
  obtain ⟨removed, used⟩ := shown.removed_of_nil_new
  exact ⟨change.trans removed, a.library, used, library.symm⟩

/-- A POM that cannot be read is reported once and yields no dependencies, and the pair is diffed all the same. What the pair
writes is what it reports: without the POM of the old release only libraries that the new one would have added, without that
of the new release only libraries that the old one would have dropped, and without both nothing. -/
theorem adaptations_of_unreadable_pom (remote : s.ReliesOn r) (directory : Path) (old new : Coordinate) (w : World) :
    (DiffsFor directory old new (r.dependencies old w).1 (r.dependencies new (r.dependencies old w).2).1
        (run s directory old new w).1 (run s.noted directory old new (w, [])).2.2 ∧
      (r.dependencies new (r.dependencies old w).2).2.LogGrows (run s directory old new w).2) ∧
    (∀ path text, (path, text) ∈ Trace.written (run s.noted directory old new (w, [])).2.2 →
      ∃ p, (run s directory old new w).1 = .ok p ∧ text = DatasetFiles.adaptationsText p.adaptations) ∧
    (∀ e, (r.pom old w).1 = .error e →
      (r.dependencies old w).1 = [] ∧ (r.dependencies old w).2.log = w.log ++ [e.diagnostic old.text] ∧
      w.log ++ [e.diagnostic old.text] <+: (run s directory old new w).2.log ∧
      ∀ p, (run s directory old new w).1 = .ok p → ∀ x ∈ p.adaptations, x.comparison.change = .added ∧
        ∃ d ∈ (r.dependencies new (r.dependencies old w).2).1, d.project = x.comparison.library) ∧
    (∀ e, (r.pom new (r.dependencies old w).2).1 = .error e →
      (r.dependencies new (r.dependencies old w).2).1 = [] ∧
      (r.dependencies new (r.dependencies old w).2).2.log = (r.dependencies old w).2.log ++ [e.diagnostic new.text] ∧
      (r.dependencies old w).2.log ++ [e.diagnostic new.text] <+: (run s directory old new w).2.log ∧
      ∀ p, (run s directory old new w).1 = .ok p → ∀ x ∈ p.adaptations, x.comparison.change = .removed ∧
        ∃ d ∈ (r.dependencies old w).1, d.project = x.comparison.library) ∧
    ∀ e e', (r.pom old w).1 = .error e → (r.pom new (r.dependencies old w).2).1 = .error e' →
      ∀ p, (run s directory old new w).1 = .ok p → p.adaptations = [] := by
  have goesOn := run_after_lookups remote directory old new w
  refine ⟨goesOn, fun path text => written_of_run, fun e oldUnread => ?_, fun e newUnread => ?_,
    fun e e' oldUnread newUnread p done => ?_⟩
  · obtain ⟨none, reported⟩ := Repository.dependencies_of_unreadable oldUnread
    have later : (r.dependencies old w).2.LogGrows (r.dependencies new (r.dependencies old w).2).2 :=
      World.LogGrows.allows.dependencies r new _
    exact ⟨none, reported, reported ▸ later.trans goesOn.2, fun p done x => added_of_unreadable_old remote done oldUnread⟩
  · obtain ⟨none, reported⟩ := Repository.dependencies_of_unreadable newUnread
    exact ⟨none, reported, reported ▸ goesOn.2, fun p done x => removed_of_unreadable_new remote done newUnread⟩
  · rw [List.eq_nil_iff_forall_not_mem]
    intro x found
    have added := (added_of_unreadable_old remote done oldUnread found).1
    have removed := (removed_of_unreadable_new remote done newUnread found).1
    rw [added] at removed
    cases removed

/-- Archives and code models of a client whose only caller goes over from one member of a library to another, with
dependencies looked up in a repository. -/
def swappedCall (r : Repository) : Services World where
  releases _ := pure []
  clients _ := pure []
  links _ := pure []
  isListed _ := pure true
  dependencies := r.dependencies
  archive c directory := pure (some (directory / c.text))
  declarations _ := pure (.ok (Std.ExtTreeSet.ofList ["a.foo", "a.bar"] compare))
  callGraph x := pure (.ok (.ofFacts [("m", if x.coordinate.version = "1" then "a.foo" else "a.bar")]))
  save _ _ := pure (.ok ())
  report := World.report
  cancelled := pure false

def oneDependency : String :=
  "<project><dependencies><dependency><groupId>g</groupId><artifactId>a</artifactId><version>1</version>" ++
  "</dependency></dependencies></project>"

/-- A repository that has the POM of the second release of a client only. -/
def secondPomOnly : World where
  web := { pages := [("http://repo.test/x/c/2/c-2.pom", [.answered 200 oneDependency.toUTF8 true])] }

def testRepository : Repository := ⟨"http://repo.test", "", ⟨.plain, ⟨0, some 1⟩⟩⟩

theorem reliesOn_swappedCall (r : Repository) : (swappedCall r).ReliesOn r where
  dependencies := rfl
  logged {w e w'} step := by
    cases e with
    | dependencies c found =>
      have led := World.LogGrows.allows.dependencies r c w
      rwa [show r.dependencies c w = (found, w') from step] at led
    | report d =>
      obtain ⟨-, rfl⟩ := Prod.mk.inj step.symm
      exact List.prefix_append _ _
    | releases | clients | links | isListed | archive | declarations | callGraph | save | cancelled =>
      obtain ⟨-, rfl⟩ := Prod.mk.inj step.symm
      exact List.prefix_refl _

theorem adaptations_of_missing_old_pom :
    (testRepository.dependencies ⟨"x", "c", "1"⟩ secondPomOnly).1 = [] ∧
    [⟨.notFound, "x:c:1", "Not found: http://repo.test/x/c/1/c-1.pom"⟩] <+:
      (run (swappedCall testRepository) ⟨"out"⟩ ⟨"x", "c", "1"⟩ ⟨"x", "c", "2"⟩ secondPomOnly).2.log ∧
    ∃ p, (run (swappedCall testRepository) ⟨"out"⟩ ⟨"x", "c", "1"⟩ ⟨"x", "c", "2"⟩ secondPomOnly).1 = .ok p ∧
      p.delta = DependencyDelta.compute [] [⟨"g", "a", "1"⟩] ∧ ∀ x ∈ p.adaptations, x.comparison.change = .added := by
  have missing : (testRepository.pom ⟨"x", "c", "1"⟩ secondPomOnly).1 =
      .error (.notFound "http://repo.test/x/c/1/c-1.pom") := rfl
  have listed : (testRepository.dependencies ⟨"x", "c", "2"⟩
      (testRepository.dependencies ⟨"x", "c", "1"⟩ secondPomOnly).2).1 = [⟨"g", "a", "1"⟩] := by decide +kernel
  have completed : (run (swappedCall testRepository) ⟨"out"⟩ ⟨"x", "c", "1"⟩ ⟨"x", "c", "2"⟩ secondPomOnly).1.isOk := by
    decide +kernel
  obtain ⟨⟨⟨a, b, rest, -, -, how⟩, -⟩, -, oldUnread, -, -⟩ := adaptations_of_unreadable_pom
    (reliesOn_swappedCall testRepository) ⟨"out"⟩ ⟨"x", "c", "1"⟩ ⟨"x", "c", "2"⟩ secondPomOnly
  obtain ⟨none, -, reported, added⟩ := oldUnread _ missing
  rcases done : (run (swappedCall testRepository) ⟨"out"⟩ ⟨"x", "c", "1"⟩ ⟨"x", "c", "2"⟩ secondPomOnly).1 with e | p
  · rw [done] at completed
    cases completed
  · rw [done, none, listed] at how
    exact ⟨none, reported, p, rfl, how.2.2.1, fun x found => (added p done x found).1⟩

/-- The library of the new release counts as added, since the missing POM of the old release could name none. -/
theorem added_by_missing_pom :
    (testRepository.pom ⟨"x", "c", "1"⟩ secondPomOnly).1 = .error (.notFound "http://repo.test/x/c/1/c-1.pom") ∧
      (run (swappedCall testRepository) ⟨"out"⟩ ⟨"x", "c", "1"⟩ ⟨"x", "c", "2"⟩ secondPomOnly).1.toOption.map
          (fun p => (p.adaptations, p.output)) =
        some ([⟨⟨⟨"x", "c", "1"⟩, ⟨"x", "c", "2"⟩, ⟨"g", "a"⟩, .added⟩, "m", "a.bar", ["a.foo"], ["a.bar"]⟩],
          some ⟨"out/migrations/x_c_1__x_c_2.json"⟩) := by
  refine ⟨rfl, ?_⟩
  decide +kernel

end PairReport
end MigrationMining
