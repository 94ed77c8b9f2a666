import MigrationMining.Proofs.PairLibraries

/-! A pair of client releases is diffed completely or skipped as a whole: which of the two, what is returned, what is
written and what is reported follows from the answers of the services alone. -/

namespace MigrationMining
namespace PairReport
open Services PairArchives

def opening (directory : Path) (old new : Coordinate) (before after : List Coordinate) (a b : Option Path) : Trace :=
  [.dependencies old before, .dependencies new after, .archive old (directory / DatasetFiles.clientsName) a,
    .archive new (directory / DatasetFiles.clientsName) b]

def archivesAt (directory : Path) (old new : Coordinate) (a b : Path) : PairArchives where
  old := ⟨old, a⟩
  new := ⟨new, b⟩
  libraries := directory / DatasetFiles.librariesName

def outputFile (directory : Path) (old new : Coordinate) : Path :=
  directory / DatasetFiles.migrationsName / DatasetFiles.pairName old new

def ofDependencies (old new : Coordinate) (before after : List Coordinate) : PairReport where
  old := old
  new := new
  delta := DependencyDelta.compute before after
  adaptations := []
  output := none

/-- A run over a pair, with its result and its exchanges. -/
inductive Ends (directory : Path) (old new : Coordinate) : Except Failure PairReport → Trace → Prop where
  | noArchive (before after : List Coordinate) (a b : Option Path) (missing : a = none ∨ b = none) :
      Ends directory old new (.ok (ofDependencies old new before after))
        (opening directory old new before after a b ++
          [.report ⟨.diffSkipped, pairSubject old new, "client archive unavailable"⟩])
  | cancelled (before after : List Coordinate) (a b : Path) {es : Trace}
      (run : (archivesAt directory old new a b).LibrariesRun (DependencyDelta.compute before after).affected
        (.error .cancelled) es) :
      Ends directory old new (.error .cancelled) (opening directory old new before after (some a) (some b) ++ es)
  | noCallGraph (before after : List Coordinate) (a b : Path) {e : Failure} {es : Trace}
      (run : (archivesAt directory old new a b).LibrariesRun (DependencyDelta.compute before after).affected
        (.error (.noCallGraph e)) es) :
      Ends directory old new (.ok (ofDependencies old new before after))
        (opening directory old new before after (some a) (some b) ++
          (es ++ [.report ⟨.diffSkipped, pairSubject old new, e.message⟩]))
  | unsaved (before after : List Coordinate) (a b : Path) (e : Failure) {found : List Adaptation} {es : Trace}
      (run : (archivesAt directory old new a b).LibrariesRun (DependencyDelta.compute before after).affected
        (.ok found) es) :
      Ends directory old new (.error e)
        (opening directory old new before after (some a) (some b) ++
          (es ++ [.save (outputFile directory old new) (DatasetFiles.adaptationsText found) (.error e)]))
  | saved (before after : List Coordinate) (a b : Path) {found : List Adaptation} {es : Trace}
      (run : (archivesAt directory old new a b).LibrariesRun (DependencyDelta.compute before after).affected
        (.ok found) es) :
      Ends directory old new
        (.ok { ofDependencies old new before after with
          adaptations := found, output := some (outputFile directory old new) })
        (opening directory old new before after (some a) (some b) ++
          (es ++ [.save (outputFile directory old new) (DatasetFiles.adaptationsText found) (.ok ())]))

section Specifications

variable {σ : Type} (s : Services σ) (directory : Path) (old new : Coordinate)

theorem archives_traced :
    Traced s (archives s.noted directory old new) (archives s directory old new) fun p es =>
      ∃ a b, es = [.archive old (directory / DatasetFiles.clientsName) a,
          .archive new (directory / DatasetFiles.clientsName) b] ∧
        match p with
        | none => a = none ∨ b = none
        | some p => ∃ x y, a = some x ∧ b = some y ∧ p = archivesAt directory old new x y := by
  refine Traced.call fun a => Traced.call fun b => ?_
  rcases a with _ | x
  · exact Traced.pure ⟨_, _, rfl, .inl rfl⟩
  · rcases b with _ | y
    · exact Traced.pure ⟨_, _, rfl, .inr rfl⟩
    · exact Traced.pure ⟨_, _, rfl, x, y, rfl, rfl, rfl⟩

theorem run_traced :
    Traced s (run s.noted directory old new) (run s directory old new) (Ends directory old new) := by
  refine Traced.call fun before => Traced.call fun after => ?_
  refine (archives_traced s directory old new).bind fun p es h => ?_
  obtain ⟨a, b, rfl, h⟩ := h
  cases p with
  | none => exact Traced.report (Traced.pure (.noArchive before after a b h))
  | some p =>
    obtain ⟨x, y, rfl, rfl, rfl⟩ := h
    refine (adaptations_traced s _ _).bind fun outcome es libraries => ?_
    rcases outcome with (_ | e) | found
    · refine Traced.pure ?_
      rw [List.append_nil]
      exact .cancelled before after x y libraries
    · exact Traced.report (Traced.pure (.noCallGraph before after x y libraries))
    · refine Traced.call fun answer => ?_
      cases answer with
      | error e => exact Traced.pure (.unsaved before after x y e libraries)
      | ok _ => exact Traced.pure (.saved before after x y libraries)

theorem run_notes : Notes (run s.noted directory old new) (run s directory old new) (Ends directory old new) :=
  (run_traced s directory old new).notes

end Specifications

/-- Every affected library was looked at in turn, one that was left out with one diagnostic, and the adaptations of
the others were written in order. The exchanges are those after the opening. -/
structure Completed (p : PairArchives) (looked : List (AffectedLibrary × Finding)) (directory : Path)
    (r : PairReport) (es : Trace) : Prop where
  libraries : looked.map (·.1) = r.delta.affected
  exchanges : es = looked.flatMap (fun x => x.2.exchanges p x.1) ++
    [.save (outputFile directory r.old r.new) (DatasetFiles.adaptationsText r.adaptations) (.ok ())]
  adaptations : r.adaptations = looked.flatMap fun x => x.2.adaptations p x.1
  reports : es.reports = looked.filterMap fun x => x.2.diagnostic? x.1
  written : es.written = [(outputFile directory r.old r.new, DatasetFiles.adaptationsText r.adaptations)]
  output : r.output = some (outputFile directory r.old r.new)

/-- Nothing was returned or saved, and the last diagnostic is the only one that says so. -/
structure Skipped (r : PairReport) (es : Trace) : Prop where
  adaptations : r.adaptations = []
  output : r.output = none
  notSaved : ∀ path text answer, Exchange.save path text answer ∉ es
  reports : ∃ (earlier : DiagnosticLog) (message : String),
    es.reports = earlier ++ [⟨.diffSkipped, pairSubject r.old r.new, message⟩] ∧
      ∀ d ∈ earlier, d.kind ≠ .diffSkipped

/-- An archive of a client release cannot be had, or a call graph of one cannot although an affected library has
members. -/
def Blocked (old new : Coordinate) (a b : Option Path) (affected : List AffectedLibrary) (es : Trace) : Prop :=
  a = none ∨ b = none ∨
    ∃ library ∈ affected.map (·.library), ∃ path members,
      Exchange.declarations ⟨library, path⟩ (.ok members) ∈ es ∧
        ∃ client ∈ [old, new], ∃ path failure, Exchange.callGraph ⟨client, path⟩ (.error failure) ∈ es

section Ending

variable {directory : Path} {old new : Coordinate} {before after : List Coordinate} {a b : Path} {es : Trace}

theorem skipped_of_noArchive (old new : Coordinate) (before after : List Coordinate) :
    Skipped (ofDependencies old new before after)
      [.report ⟨.diffSkipped, pairSubject old new, "client archive unavailable"⟩] where
  adaptations := rfl
  output := rfl
  notSaved := by simp
  reports := ⟨[], "client archive unavailable", rfl, by simp⟩

theorem skipped_of_noCallGraph {e : Failure} (run : (archivesAt directory old new a b).LibrariesRun
      (DependencyDelta.compute before after).affected (.error (.noCallGraph e)) es) :
    Skipped (ofDependencies old new before after)
      (es ++ [.report ⟨.diffSkipped, pairSubject old new, e.message⟩]) := by
  obtain ⟨looked, affected, unseen, path, members, fs, -, noGraph, rfl⟩ := run.findings_of_noCallGraph
  refine ⟨rfl, rfl, ?_, ?_⟩
  · intro target text answer h
    simp only [List.mem_append] at h
    rcases h with (h | h) | h
    · exact (ne_of_mem_findings h).2 _ _ _ rfl
    · cases noGraph <;> simp [membersFound] at h
    · simp at h
  · refine ⟨looked.filterMap fun x => x.2.diagnostic? x.1, e.message, ?_, ?_⟩
    · rw [Trace.reports_append, Trace.reports_append, reports_findings]
      cases noGraph <;> simp [membersFound, Trace.reports, ofDependencies]
    · intro d hd
      obtain ⟨⟨affected, finding⟩, -, h⟩ := List.mem_filterMap.mp hd
      exact diagnostic?_kind_ne h

theorem blocked_of_noCallGraph {e : Failure} {affected : List AffectedLibrary}
    (run : (archivesAt directory old new a b).LibrariesRun affected (.error (.noCallGraph e)) es) (fs : Trace) :
    Blocked old new (some a) (some b) affected (es ++ fs) := by
  obtain ⟨looked, last, unseen, path, members, graphs, rfl, noGraph, rfl⟩ := run.findings_of_noCallGraph
  refine .inr (.inr ⟨last.library, by simp, path, members, by simp [membersFound], ?_⟩)
  cases noGraph with
  | old e => exact ⟨old, by simp, a, e, by simp [archivesAt]⟩
  | new g e => exact ⟨new, by simp, b, e, by simp [archivesAt]⟩

theorem completed_of_saved {found : List Adaptation} (run : (archivesAt directory old new a b).LibrariesRun
      (DependencyDelta.compute before after).affected (.ok found) es) :
    ∃ looked, Completed (archivesAt directory old new a b) looked directory
      { ofDependencies old new before after with
        adaptations := found, output := some (outputFile directory old new) }
      (es ++ [.save (outputFile directory old new) (DatasetFiles.adaptationsText found) (.ok ())]) := by
  obtain ⟨looked, same, rfl, rfl⟩ := run.findings_of_ok
  refine ⟨looked, same, rfl, rfl, ?_, ?_, rfl⟩
  · rw [Trace.reports_append, reports_findings]
    simp [Trace.reports]
  · rw [Trace.written_append, written_findings]
    rfl

theorem not_blocked_of_saved {found : List Adaptation} {affected : List AffectedLibrary} {file : Path} {text : String}
    (run : (archivesAt directory old new a b).LibrariesRun affected (.ok found) es) :
    ¬ Blocked old new (some a) (some b) affected (es ++ [.save file text (.ok ())]) := by
  obtain ⟨looked, -, -, rfl⟩ := run.findings_of_ok
  rintro (h | h | ⟨library, -, path, members, -, client, -, archive, failure, h⟩)
  · cases h
  · cases h
  · rcases List.mem_append.mp h with h | h
    · exact (ne_of_mem_findings h).1 _ _ rfl
    · simp at h

end Ending

/-- A pair is diffed for the changes between two lists of dependencies, which are not looked up again: its archives are asked
for, and it is completed, or skipped because the answers block it, unless the run is called off or the file of the pair
cannot be written. -/
def DiffsFor (directory : Path) (old new : Coordinate) (before after : List Coordinate) (outcome : Except Failure PairReport)
    (es : Trace) : Prop :=
  ∃ (a b : Option Path) (rest : Trace), es = opening directory old new before after a b ++ rest ∧
    (∀ c found, Exchange.dependencies c found ∉ rest) ∧
    match outcome with
    | .ok r => r.old = old ∧ r.new = new ∧ r.delta = DependencyDelta.compute before after ∧
      ((∃ x y looked, a = some x ∧ b = some y ∧ Completed (archivesAt directory old new x y) looked directory r rest) ∧
          ¬ Blocked old new a b r.delta.affected rest ∨
        Skipped r rest ∧ Blocked old new a b r.delta.affected rest)
    | .error e => Exchange.cancelled true ∈ rest ∨ ∃ path text, Exchange.save path text (.error e) ∈ rest

theorem Ends.diffsFor {directory : Path} {old new : Coordinate} {outcome : Except Failure PairReport} {es : Trace}
    (ends : Ends directory old new outcome es) : ∃ before after, DiffsFor directory old new before after outcome es := by
  cases ends with
  | noArchive before after a b missing =>
    exact ⟨before, after, a, b, _, rfl, by simp, rfl, rfl, rfl,
      .inr ⟨skipped_of_noArchive .., missing.imp_right .inl⟩⟩
  | cancelled before after a b run =>
    exact ⟨before, after, some a, some b, _, rfl, fun c found => run.dependencies_notMem, .inl run.cancelled_mem⟩
  | noCallGraph before after a b run =>
    refine ⟨before, after, some a, some b, _, rfl, fun c found => ?_, rfl, rfl, rfl,
      .inr ⟨skipped_of_noCallGraph run, blocked_of_noCallGraph run _⟩⟩
    simp [run.dependencies_notMem]
  | unsaved before after a b e run =>
    refine ⟨before, after, some a, some b, _, rfl, fun c found => ?_,
      .inr ⟨_, _, List.mem_append_right _ (List.mem_singleton_self _)⟩⟩
    simp [run.dependencies_notMem]
  | saved before after a b run =>
    obtain ⟨looked, completed⟩ := completed_of_saved run
    refine ⟨before, after, some a, some b, _, rfl, fun c found => ?_, rfl, rfl, rfl,
      .inl ⟨⟨a, b, looked, rfl, rfl, completed⟩, not_blocked_of_saved run⟩⟩
    simp [run.dependencies_notMem]

/-- A run over a pair that is never seen cancelled and whose file can be written is complete or skips the pair, and it
skips the pair if and only if the answers of the services block it. -/
theorem run_completed_or_skipped {σ : Type} (s : Services σ) (directory : Path) (old new : Coordinate) (w : σ)
    (es : Trace) (trace : (run s.noted directory old new (w, [])).2.2 = es)
    (uncancelled : Exchange.cancelled true ∉ es)
    (writable : ∀ path text e, Exchange.save path text (.error e) ∉ es) :
    ∃ (r : PairReport) (before after : List Coordinate) (a b : Option Path) (rest : Trace),
      (run s directory old new w).1 = .ok r ∧ r.old = old ∧ r.new = new ∧
      r.delta = DependencyDelta.compute before after ∧
      es = opening directory old new before after a b ++ rest ∧
      ((∃ x y looked, a = some x ∧ b = some y ∧ Completed (archivesAt directory old new x y) looked directory r rest) ∧
          ¬ Blocked old new a b r.delta.affected rest ∨
        Skipped r rest ∧ Blocked old new a b r.delta.affected rest) := by
  obtain ⟨fs, noted, ends⟩ := run_notes s directory old new w []
  rw [noted, List.nil_append] at trace
  subst trace
  obtain ⟨before, after, a, b, rest, opened, -, how⟩ := ends.diffsFor
  cases outcome : (run s directory old new w).1 with
  | error e =>
    rw [outcome] at how
    rcases how with called | ⟨path, text, refused⟩
    · exact absurd (opened ▸ List.mem_append_right _ called) uncancelled
    · exact absurd (opened ▸ List.mem_append_right _ refused) (writable path text e)
  | ok r =>
    rw [outcome] at how
    obtain ⟨first, second, delta, ending⟩ := how
    exact ⟨r, before, after, a, b, rest, rfl, first, second, delta, opened, ending⟩

/-- Services for a client that drops two libraries; its third call graph cannot be had, whatever the release. -/
def fleetingCallGraphs : Services Nat where
  releases _ := pure []
  clients _ := pure []
  links _ := pure []
  isListed _ := pure true
  dependencies c := pure (if c.version = "1" then [⟨"g", "a", "1"⟩, ⟨"g", "b", "1"⟩] else [])
  archive c directory := pure (some (directory / c.text))
  declarations _ := pure (.ok (Std.ExtTreeSet.ofList ["m"] compare))
  callGraph x := fun asked =>
    let facts := if x.coordinate.version = "1" then [("f", "m"), ("f", "n")] else [("f", "n")]
    (if asked = 2 then .error (.extraction "no model") else .ok (CallGraph.ofFacts facts), asked + 1)
  save _ _ := pure (.ok ())
  report _ := pure ()
  cancelled := pure false

theorem run_skipped_at_second_library :
    ∃ (r : PairReport) (before after : List Coordinate) (a b : Option Path) (rest : Trace),
      (run fleetingCallGraphs ⟨"out"⟩ ⟨"x", "c", "1"⟩ ⟨"x", "c", "2"⟩ 0).1 = .ok r ∧
      (run fleetingCallGraphs.noted ⟨"out"⟩ ⟨"x", "c", "1"⟩ ⟨"x", "c", "2"⟩ (0, [])).2.2 =
        opening ⟨"out"⟩ ⟨"x", "c", "1"⟩ ⟨"x", "c", "2"⟩ before after a b ++ rest ∧
      Skipped r rest ∧ Blocked ⟨"x", "c", "1"⟩ ⟨"x", "c", "2"⟩ a b r.delta.affected rest := by
  have goesOn : (run fleetingCallGraphs.noted ⟨"out"⟩ ⟨"x", "c", "1"⟩ ⟨"x", "c", "2"⟩ (0, [])).2.2.any
      Exchange.refuses = false := by decide +kernel
  have noOutput : (run fleetingCallGraphs ⟨"out"⟩ ⟨"x", "c", "1"⟩ ⟨"x", "c", "2"⟩ 0).1.toOption.map (·.output) =
      some none := by decide +kernel
  obtain ⟨r, before, after, a, b, rest, ran, -, -, -, trace, ending⟩ := run_completed_or_skipped
    fleetingCallGraphs ⟨"out"⟩ ⟨"x", "c", "1"⟩ ⟨"x", "c", "2"⟩ 0 _ rfl
    (fun h => List.any_eq_false.mp goesOn _ h rfl) (fun _ _ _ h => List.any_eq_false.mp goesOn _ h rfl)
  rcases ending with ⟨⟨x, y, looked, -, -, completed⟩, -⟩ | ⟨skipped, blocked⟩
  · rw [ran] at noOutput
    simp [Except.toOption, completed.output] at noOutput
  · exact ⟨r, before, after, a, b, rest, ran, trace, skipped, blocked⟩

end PairReport
end MigrationMining
