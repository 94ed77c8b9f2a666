import MigrationMining.Pipeline.Migration
import MigrationMining.Proofs.ServiceTrace

/-! The affected libraries of a client pair, one after the other: each is left out or compared, until all are done or
the run stops at one of them. -/

namespace MigrationMining
namespace PairArchives
open Services

inductive Dropped where
  | noArchive
  | noDeclarations (path : Path) (failure : Failure)

namespace Dropped

def exchanges (directory : Path) (library : Coordinate) : Dropped → Trace
  | noArchive => [.archive library directory none]
  | noDeclarations path e => [.archive library directory (some path), .declarations ⟨library, path⟩ (.error e)]

def diagnostic (library : Coordinate) : Dropped → Diagnostic
  | noArchive => ⟨.notFound, library.text, "library archive unavailable"⟩
  | noDeclarations _ e => ⟨.extractionFailure, library.text, (e.ofExtraction library).message⟩

theorem diagnostic_kind_ne (library : Coordinate) (why : Dropped) : (why.diagnostic library).kind ≠ .diffSkipped := by
  cases why <;> simp [diagnostic]

end Dropped

def membersFound (p : PairArchives) (library : Coordinate) (path : Path) (members : Namespace) : Trace :=
  [.archive library p.libraries (some path), .declarations ⟨library, path⟩ (.ok members)]

def comparison (p : PairArchives) (affected : AffectedLibrary) : Comparison where
  clientOld := p.old.coordinate
  clientNew := p.new.coordinate
  library := affected.library.project
  change := affected.change

/-- The answers without a call graph of one of the two releases, and the failure that is told. -/
inductive NoGraph (p : PairArchives) : Failure → Trace → Prop where
  | old (e : Failure) : NoGraph p (e.ofExtraction p.old.coordinate) [.callGraph p.old (.error e)]
  | new (g : CallGraph) (e : Failure) :
      NoGraph p (e.ofExtraction p.new.coordinate) [.callGraph p.old (.ok g), .callGraph p.new (.error e)]

/-- What becomes of an affected library when the run goes on. -/
inductive Finding where
  | dropped (why : Dropped)
  | compared (path : Path) (members : Namespace) (old new : CallGraph)

namespace Finding

def exchanges (p : PairArchives) (affected : AffectedLibrary) : Finding → Trace
  | dropped why =>
    .cancelled false :: (why.exchanges p.libraries affected.library ++ [.report (why.diagnostic affected.library)])
  | compared path members old new =>
    .cancelled false :: (p.membersFound affected.library path members ++
      [.callGraph p.old (.ok old), .callGraph p.new (.ok new)])

def adaptations (p : PairArchives) (affected : AffectedLibrary) : Finding → List Adaptation
  | dropped _ => []
  | compared _ members old new => Adaptation.diff (p.comparison affected) old new members

def diagnostic? (affected : AffectedLibrary) : Finding → Option Diagnostic
  | dropped why => some (why.diagnostic affected.library)
  | compared .. => none

end Finding

section Specifications

variable {σ : Type} (s : Services σ) (p : PairArchives)

theorem members_traced (library : Coordinate) :
    Traced s (p.members s.noted library) (p.members s library) fun found es =>
      match found with
      | none => ∃ why : Dropped, es = why.exchanges p.libraries library ++ [.report (why.diagnostic library)]
      | some members => ∃ path, es = p.membersFound library path members := by
  refine Traced.call fun archive => ?_
  cases archive with
  | none => exact Traced.report (Traced.pure ⟨.noArchive, rfl⟩)
  | some path =>
    refine Traced.call fun declared => ?_
    cases declared with
    | error e => exact Traced.report (Traced.pure ⟨.noDeclarations path e, rfl⟩)
    | ok members => exact Traced.pure ⟨path, rfl⟩

theorem tracedCallGraph_traced (snapshot : Snapshot) :
    Traced s (tracedCallGraph s.noted.callGraph snapshot) (tracedCallGraph s.callGraph snapshot) fun g es =>
      ∃ answer, g = answer.mapError (Failure.ofExtraction snapshot.coordinate) ∧ es = [.callGraph snapshot answer] :=
  Traced.call fun answer => Traced.pure ⟨answer, rfl, rfl⟩

theorem diff_traced (affected : AffectedLibrary) (members : Namespace) :
    Traced s (p.diff s.noted.callGraph affected members) (p.diff s.callGraph affected members) fun found es =>
      match found with
      | .error e => p.NoGraph e es
      | .ok found => ∃ old new, found = Adaptation.diff (p.comparison affected) old new members ∧
          es = [.callGraph p.old (.ok old), .callGraph p.new (.ok new)] := by
  refine (tracedCallGraph_traced s p.old).bind ?_
  rintro _ _ ⟨answer, rfl, rfl⟩
  cases answer with
  | error e => exact Traced.pure (.old e)
  | ok old =>
    refine (tracedCallGraph_traced s p.new).bind ?_
    rintro _ _ ⟨answer, rfl, rfl⟩
    cases answer with
    | error e => exact Traced.pure (.new old e)
    | ok new => exact Traced.pure ⟨old, new, rfl, rfl⟩

end Specifications

/-- Where a run over affected libraries stops, with its result and its last exchanges. -/
inductive Halts (p : PairArchives) :
    List AffectedLibrary → Except Interruption (List Adaptation) → Trace → Prop where
  | done : Halts p [] (.ok []) []
  | cancelled (affected : AffectedLibrary) (rest : List AffectedLibrary) :
      Halts p (affected :: rest) (.error .cancelled) [.cancelled true]
  | interrupted (affected : AffectedLibrary) (rest : List AffectedLibrary) (path : Path) (members : Namespace)
      {e : Failure} {es : Trace} (noGraph : p.NoGraph e es) :
      Halts p (affected :: rest) (.error (.noCallGraph e))
        (.cancelled false :: (p.membersFound affected.library path members ++ es))

/-- A run over affected libraries, with its result and its exchanges. -/
inductive LibrariesRun (p : PairArchives) :
    List AffectedLibrary → Except Interruption (List Adaptation) → Trace → Prop where
  | halt {libraries : List AffectedLibrary} {found : Except Interruption (List Adaptation)} {es : Trace}
      (halts : p.Halts libraries found es) : LibrariesRun p libraries found es
  | next (affected : AffectedLibrary) (finding : Finding) {rest : List AffectedLibrary}
      {found : Except Interruption (List Adaptation)} {es : Trace} (later : LibrariesRun p rest found es) :
      LibrariesRun p (affected :: rest) (found.map (finding.adaptations p affected ++ ·))
        (finding.exchanges p affected ++ es)

theorem adaptations_traced {σ : Type} (s : Services σ) (p : PairArchives) (libraries : List AffectedLibrary) :
    Traced s (p.adaptations s.noted libraries) (p.adaptations s libraries) (p.LibrariesRun libraries) := by
  induction libraries with
  | nil => exact Traced.pure (.halt .done)
  | cons affected rest ih =>
    refine Traced.call fun cancelled => ?_
    cases cancelled with
    | true => exact Traced.pure (.halt (.cancelled affected rest))
    | false =>
      refine (members_traced s p affected.library).bind fun members looked h => ?_
      cases members with
      | none =>
        obtain ⟨why, rfl⟩ := h
        refine ih.mono fun found es later => ?_
        have step := LibrariesRun.next affected (.dropped why) later
        have same : found.map ([] ++ ·) = found := by cases found <;> rfl
        rw [← same]
        exact step
      | some members =>
        obtain ⟨path, rfl⟩ := h
        refine (diff_traced s p affected members).bind fun outcome graphs h => ?_
        cases outcome with
        | error e =>
          refine Traced.pure ?_
          rw [List.append_nil]
          exact .halt (.interrupted affected rest path members h)
        | ok found =>
          obtain ⟨old, new, rfl, rfl⟩ := h
          refine ih.bind fun laterFound es later => Traced.pure ?_
          have step := LibrariesRun.next affected (.compared path members old new) later
          simpa [Finding.exchanges, Finding.adaptations] using step

namespace LibrariesRun

variable {p : PairArchives} {libraries : List AffectedLibrary} {es : Trace}

theorem findings {outcome : Except Interruption (List Adaptation)} (run : p.LibrariesRun libraries outcome es) :
    ∃ (looked : List (AffectedLibrary × Finding)) (rest : List AffectedLibrary)
      (last : Except Interruption (List Adaptation)) (tail : Trace),
      libraries = looked.map (·.1) ++ rest ∧
      outcome = last.map ((looked.flatMap fun x => x.2.adaptations p x.1) ++ ·) ∧
      es = looked.flatMap (fun x => x.2.exchanges p x.1) ++ tail ∧ p.Halts rest last tail := by
  induction run with
  | @halt libraries outcome es halts =>
    refine ⟨[], libraries, outcome, es, rfl, ?_, rfl, halts⟩
    cases outcome <;> rfl
  | next affected finding later ih =>
    obtain ⟨looked, rest, last, tail, rfl, rfl, rfl, halts⟩ := ih
    refine ⟨(affected, finding) :: looked, rest, last, tail, rfl, ?_, ?_, halts⟩
    · cases last <;> simp [Except.map]
    · rw [List.flatMap_cons, List.append_assoc]

theorem cancelled_mem (run : p.LibrariesRun libraries (.error .cancelled) es) : Exchange.cancelled true ∈ es := by
  obtain ⟨looked, rest, last, tail, -, same, rfl, halts⟩ := run.findings
  cases halts with
  | done => cases same
  | cancelled => simp
  | interrupted => cases same

theorem dependencies_notMem {outcome : Except Interruption (List Adaptation)} (run : p.LibrariesRun libraries outcome es)
    {c : Coordinate} {found : List Coordinate} : Exchange.dependencies c found ∉ es := by
  induction run with
  | halt halts =>
    cases halts with
    | done => simp
    | cancelled => simp
    | interrupted affected rest path members noGraph => cases noGraph <;> simp [membersFound]
  | next affected finding _ ih =>
    rcases finding with (_ | ⟨path, e⟩) | ⟨path, members, old, new⟩ <;>
      simp [ih, Finding.exchanges, Dropped.exchanges, membersFound]

theorem findings_of_ok {found : List Adaptation} (run : p.LibrariesRun libraries (.ok found) es) :
    ∃ looked : List (AffectedLibrary × Finding), looked.map (·.1) = libraries ∧
      found = looked.flatMap (fun x => x.2.adaptations p x.1) ∧
      es = looked.flatMap fun x => x.2.exchanges p x.1 := by
  obtain ⟨looked, rest, last, tail, rfl, same, rfl, halts⟩ := run.findings
  cases halts with
  | done => exact ⟨looked, by simp, by simpa [Except.map] using same, by simp⟩
  | cancelled => cases same
  | interrupted => cases same

theorem findings_of_noCallGraph {e : Failure} (run : p.LibrariesRun libraries (.error (.noCallGraph e)) es) :
    ∃ (looked : List (AffectedLibrary × Finding)) (affected : AffectedLibrary) (unseen : List AffectedLibrary)
      (path : Path) (members : Namespace) (fs : Trace),
      libraries = looked.map (·.1) ++ affected :: unseen ∧ p.NoGraph e fs ∧
      es = looked.flatMap (fun x => x.2.exchanges p x.1) ++
        .cancelled false :: (p.membersFound affected.library path members ++ fs) := by
  obtain ⟨looked, rest, last, tail, rfl, same, rfl, halts⟩ := run.findings
  cases halts with
  | done => cases same
  | cancelled => cases same
  | interrupted affected rest path members noGraph =>
    cases same
    exact ⟨looked, affected, rest, path, members, _, rfl, noGraph, rfl⟩

end LibrariesRun

theorem reports_findings (p : PairArchives) (looked : List (AffectedLibrary × Finding)) :
    Trace.reports (looked.flatMap fun x => x.2.exchanges p x.1) = looked.filterMap fun x => x.2.diagnostic? x.1 := by
  induction looked with
  | nil => rfl
  | cons x looked ih =>
    obtain ⟨affected, finding⟩ := x
    rw [List.flatMap_cons, Trace.reports_append, ih]
    rcases finding with (_ | ⟨path, e⟩) | ⟨path, members, old, new⟩ <;> rfl

theorem ne_of_mem_findings {p : PairArchives} {looked : List (AffectedLibrary × Finding)} {x : Exchange}
    (h : x ∈ looked.flatMap fun x => x.2.exchanges p x.1) :
    (∀ snapshot e, x ≠ .callGraph snapshot (.error e)) ∧ ∀ path text answer, x ≠ .save path text answer := by
  rw [List.mem_flatMap] at h
  obtain ⟨⟨affected, finding⟩, -, h⟩ := h
  constructor
  · rintro snapshot failure rfl
    rcases finding with (_ | ⟨path, e⟩) | ⟨path, members, old, new⟩ <;>
      simp [Finding.exchanges, Dropped.exchanges, membersFound] at h
  · rintro target text answer rfl
    rcases finding with (_ | ⟨path, e⟩) | ⟨path, members, old, new⟩ <;>
      simp [Finding.exchanges, Dropped.exchanges, membersFound] at h

theorem written_findings (p : PairArchives) (looked : List (AffectedLibrary × Finding)) :
    Trace.written (looked.flatMap fun x => x.2.exchanges p x.1) = [] := by
  refine Trace.written_eq_nil fun path text answer h => ?_
  exact (ne_of_mem_findings h).2 path text answer rfl

theorem diagnostic?_kind_ne {affected : AffectedLibrary} {finding : Finding} {d : Diagnostic}
    (h : finding.diagnostic? affected = some d) : d.kind ≠ .diffSkipped := by
  cases finding with
  | dropped why =>
    cases h
    exact why.diagnostic_kind_ne affected.library
  | compared => cases h

end PairArchives
end MigrationMining
