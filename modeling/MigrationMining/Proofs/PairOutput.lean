import MigrationMining.Proofs.PairOutcome

/-! What a diff of one pair leaves behind: the file with the adaptations that it reports, or one diagnostic that says
that the pair is skipped, or nothing of either when it fails. -/

namespace MigrationMining

def Trace.skips (es : Trace) : DiagnosticLog := es.reports.filter (·.kind = .diffSkipped)

namespace Trace

@[simp] theorem skips_append (es fs : Trace) : skips (es ++ fs) = skips es ++ skips fs := by simp [skips]

@[simp] theorem skips_cancelled (answer : Bool) (es : Trace) : skips (.cancelled answer :: es) = skips es := rfl

theorem length_skips (es : Trace) : es.skips.length = es.reports.count .diffSkipped := by
  rw [skips, ← List.countP_eq_length_filter, DiagnosticLog.count]

theorem Perm.skips {es fs : Trace} (h : es.Perm fs) : es.skips.Perm fs.skips := (h.filterMap _).filter _

end Trace

namespace PairReport
open Services PairArchives

def skippedPair (pair : Coordinate × Coordinate) (message : String) : Diagnostic :=
  ⟨.diffSkipped, pairSubject pair.1 pair.2, message⟩

variable {directory : Path} {old new : Coordinate} {pair : Coordinate × Coordinate} {es : Trace}

theorem skips_findings (p : PairArchives) (looked : List (AffectedLibrary × Finding)) :
    Trace.skips (looked.flatMap fun x => x.2.exchanges p x.1) = [] := by
  rw [Trace.skips, reports_findings, List.filter_eq_nil_iff]
  intro d listed
  obtain ⟨x, -, found⟩ := List.mem_filterMap.1 listed
  simpa using diagnostic?_kind_ne found

theorem Skipped.skips {r : PairReport} (skipped : Skipped r es) :
    ∃ message, es.skips = [skippedPair (r.old, r.new) message] := by
  obtain ⟨earlier, message, reports, others⟩ := skipped.reports
  refine ⟨message, ?_⟩
  rw [Trace.skips, reports, List.filter_append, List.filter_eq_nil_iff.2 (by simpa using others)]
  rfl

/-- The file of the pair is written, and it has the adaptations of the report. -/
structure Writes (directory : Path) (r : PairReport) (es : Trace) : Prop where
  output : r.output = some (outputFile directory r.old r.new)
  written : es.written = [(outputFile directory r.old r.new, DatasetFiles.adaptationsText r.adaptations)]
  skips : es.skips = []

/-- No file is written, and the pair is reported once as skipped. -/
structure Skips (pair : Coordinate × Coordinate) (es : Trace) : Prop where
  written : es.written = []
  skips : ∃ message, es.skips = [skippedPair pair message]

theorem Writes.of_completed {p : PairArchives} {looked : List (AffectedLibrary × Finding)} {r : PairReport}
    (completed : Completed p looked directory r es) : Writes directory r es where
  output := completed.output
  written := completed.written
  skips := by
    rw [completed.exchanges, Trace.skips_append, skips_findings]
    rfl

theorem Skips.of_skipped {r : PairReport} (skipped : Skipped r es) : Skips (r.old, r.new) es where
  written := Trace.written_eq_nil skipped.notSaved
  skips := skipped.skips

theorem Writes.opened {r : PairReport} (writes : Writes directory r es) (before after : List Coordinate)
    (a b : Option Path) : Writes directory r (opening directory old new before after a b ++ es) :=
  ⟨writes.output, writes.written, writes.skips⟩

theorem Skips.opened (skips : Skips pair es) (before after : List Coordinate) (a b : Option Path) :
    Skips pair (opening directory old new before after a b ++ es) :=
  ⟨skips.written, skips.skips⟩

theorem Ends.of_ok {r : PairReport} (ends : Ends directory old new (.ok r) es) :
    Writes directory r es ∨ (r.output = none ∧ r.adaptations = []) ∧ Skips (old, new) es := by
  cases ends with
  | noArchive before after a b missing =>
    exact .inr ⟨⟨rfl, rfl⟩, (Skips.of_skipped (skipped_of_noArchive old new before after)).opened before after a b⟩
  | noCallGraph before after a b run =>
    exact .inr ⟨⟨rfl, rfl⟩, (Skips.of_skipped (skipped_of_noCallGraph run)).opened before after (some a) (some b)⟩
  | saved before after a b run =>
    obtain ⟨looked, completed⟩ := completed_of_saved run
    exact .inl ((Writes.of_completed completed).opened before after (some a) (some b))

theorem Ends.of_error {e : Failure} (ends : Ends directory old new (.error e) es) :
    es.written = [] ∧ es.skips = [] ∧
      (Exchange.cancelled true ∈ es ∨ ∃ path text, Exchange.save path text (.error e) ∈ es) := by
  cases ends with
  | cancelled before after a b run =>
    obtain ⟨looked, rest, last, tail, -, same, rfl, halts⟩ := run.findings
    cases halts with
    | done => cases same
    | cancelled =>
      refine ⟨?_, ?_, .inl (by simp)⟩
      · rw [Trace.written_append, Trace.written_append, written_findings]
        rfl
      · rw [Trace.skips_append, Trace.skips_append, skips_findings]
        rfl
    | interrupted => cases same
  | unsaved before after a b e run =>
    obtain ⟨looked, -, -, rfl⟩ := run.findings_of_ok
    refine ⟨?_, ?_, .inr ⟨_, _, List.mem_append_right _ (List.mem_append_right _ (List.mem_singleton_self _))⟩⟩
    · rw [Trace.written_append, Trace.written_append, written_findings]
      rfl
    · rw [Trace.skips_append, Trace.skips_append, skips_findings]
      rfl

end PairReport
end MigrationMining
