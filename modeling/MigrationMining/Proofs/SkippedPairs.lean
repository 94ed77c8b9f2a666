import MigrationMining.Pipeline.Journal
import MigrationMining.Pipeline.Setup
import MigrationMining.Proofs.ConcurrentPairs
import MigrationMining.Proofs.WorldServices

/-! How many pairs of several are skipped: as many as are reported as skipped and as many as get no file, however the
diffs of the pairs overlap. -/

namespace MigrationMining

namespace PairReport

variable {directory : Path}

/-- An attempt writes the file of its pair and reports what it wrote, or nothing is written and nothing is reported. -/
theorem Attempt.Possible.writes_or_not {a : Attempt} (possible : a.Possible directory) :
    (∃ r, a.outcome = some r ∧ (r.old, r.new) = a.pair ∧ Writes directory r a.exchanges) ∨
      (∀ r, a.outcome = some r → r.output = none ∧ r.adaptations = []) ∧ a.exchanges.written = [] := by
  obtain ⟨pair, outcome, es⟩ := a
  have ends : AttemptEnds directory pair outcome es := possible.ends
  cases ends with
  | calledOff => exact .inr ⟨by simp, rfl⟩
  | reported diffed =>
    rcases diffed.ends.of_ok with writes | ⟨nothing, skips⟩
    · exact .inl ⟨_, rfl, diffed.pair_eq, writes.output, writes.written, writes.skips⟩
    · refine .inr ⟨?_, skips.written⟩
      rintro _ ⟨⟩
      exact nothing
  | stopped diffed => exact .inr ⟨by simp, diffed.ends.of_error.1⟩
  | failed other diffed =>
    refine .inr ⟨by simp, ?_⟩
    rw [Trace.written_cancelled, Trace.written_append, diffed.ends.of_error.1]
    rfl

/-- An attempt that is never seen cancelled and that does not write its file reports its pair as skipped. -/
theorem Attempt.Possible.skips {a : Attempt} (possible : a.Possible directory) (unwritten : a.exchanges.written = [])
    (uncancelled : Exchange.cancelled true ∉ a.exchanges)
    (told : ∀ path text, Exchange.save path text (.error .cancelled) ∉ a.exchanges) :
    ∃ message, a.exchanges.skips = [skippedPair a.pair message] := by
  obtain ⟨pair, outcome, es⟩ := a
  have ends : AttemptEnds directory pair outcome es := possible.ends
  cases ends with
  | calledOff => simp at uncancelled
  | reported diffed =>
    rcases diffed.ends.of_ok with writes | ⟨-, skips⟩
    · cases writes.written.symm.trans unwritten
    · exact skips.skips
  | stopped diffed =>
    simp only [List.mem_cons, not_or] at uncancelled told
    obtain ⟨-, -, called | ⟨path, text, refused⟩⟩ := diffed.ends.of_error
    · exact absurd called uncancelled.2
    · exact absurd refused (told path text).2
  | @failed e _ other diffed =>
    refine ⟨e.message, ?_⟩
    rw [Trace.skips_cancelled, Trace.skips_append, diffed.ends.of_error.2.1]
    rfl

end PairReport

/-- A file that cannot be written is not taken for a cancellation. The services of a setup and those of a journal are
like this: whatever is wrong with a file is a failure of that file. -/
def Services.WriteErrorsTold {σ : Type} (s : Services σ) : Prop :=
  ∀ path text w, (s.save path text w).1 ≠ .error .cancelled

theorem Setup.writeErrorsTold (setup : Setup) (x : Extractor) : (setup.services x).WriteErrorsTold := by
  intro path text w
  rcases setup.save_cases x path text w with ⟨files, -, whole⟩ | ⟨e, -, whole⟩ <;> simp [whole, FileFailure.failure]

theorem Journal.writeErrorsTold (a : Answers) : (Journal.services a).WriteErrorsTold := by
  intro path text j
  simp only [Journal.services]
  split <;> simp [FileFailure.failure]

namespace MigrationReport
open Services PairReport

theorem perm_ofOutcomes (outcomes : List (Option PairReport)) (cancelled : Bool) :
    (ofOutcomes outcomes cancelled).pairs.Perm (outcomes.filterMap id) := List.mergeSort_perm _ _

theorem countP_ofOutcomes (outcomes : List (Option PairReport)) (cancelled : Bool) (p : PairReport → Bool) :
    (ofOutcomes outcomes cancelled).pairs.countP p = outcomes.countP (·.any p) := by
  rw [(perm_ofOutcomes outcomes cancelled).countP_eq, List.countP_filterMap]
  refine List.countP_congr fun outcome _ => ?_
  cases outcome <;> simp

theorem skipped_ofOutcomes (outcomes : List (Option PairReport)) (cancelled : Bool) :
    (ofOutcomes outcomes cancelled).skipped + outcomes.countP (·.any (·.output.isSome)) = outcomes.length := by
  have reports := (perm_ofOutcomes outcomes cancelled).length_eq
  have fewer : (outcomes.filterMap id).length ≤ outcomes.length := List.length_filterMap_le _ _
  have split : (ofOutcomes outcomes cancelled).pairs.length =
      (ofOutcomes outcomes cancelled).pairs.countP (·.output.isSome) +
        (ofOutcomes outcomes cancelled).pairs.countP (·.output.isNone) := by
    rw [List.length_eq_countP_add_countP (·.output.isSome)]
    exact congrArg _ (List.countP_congr fun p _ => by simp)
  rw [countP_ofOutcomes] at split
  change (ofOutcomes outcomes cancelled).pairs.countP (·.output.isNone) +
    (outcomes.length - (ofOutcomes outcomes cancelled).pairs.length) + _ = _
  omega

variable {σ : Type} {s : Services σ} {directory : Path} {limit : Nat} {pairs : List (Coordinate × Coordinate)} {w w' : σ}
  {attempts : List Attempt} {es : Trace} {r : MigrationReport}

theorem Concurrent.writes_or_skips (told : s.WriteErrorsTold) (run : Concurrent s directory limit pairs w attempts es r w')
    (uncancelled : Exchange.cancelled true ∉ es) {a : Attempt} (made : a ∈ attempts) :
    (∃ p, a.outcome = some p ∧ (p.old, p.new) = a.pair ∧ Writes directory p a.exchanges) ∨
      (∀ p, a.outcome = some p → p.output = none ∧ p.adaptations = []) ∧ Skips a.pair a.exchanges := by
  obtain ⟨fs, rfl, -, -, shared, possible, steps⟩ := run.consistent
  have among {e : Exchange} (mem : e ∈ a.exchanges) : e ∈ fs ++ [.cancelled r.cancelled] :=
    List.mem_append_left _ (shared.mem_iff.1 (List.mem_flatMap.2 ⟨a, made, mem⟩))
  refine (possible a made).writes_or_not.imp_right fun ⟨nothing, unwritten⟩ => ⟨nothing, unwritten, ?_⟩
  refine (possible a made).skips unwritten (fun mem => uncancelled (among mem)) fun path text mem => ?_
  obtain ⟨u, u', refused⟩ := steps.step_of_mem (among mem)
  exact told path text u (congrArg Prod.fst refused)

section Counts

variable (settled : ∀ a ∈ attempts,
  (∃ p, a.outcome = some p ∧ (p.old, p.new) = a.pair ∧ Writes directory p a.exchanges) ∨
    (∀ p, a.outcome = some p → p.output = none ∧ p.adaptations = []) ∧ Skips a.pair a.exchanges)

include settled

theorem subjects_skips : (Trace.skips (attempts.flatMap (·.exchanges))).map (·.subject) =
    (attempts.filter (·.exchanges.written.isEmpty)).map fun a => pairSubject a.pair.1 a.pair.2 := by
  induction attempts with
  | nil => rfl
  | cons a attempts ih =>
    obtain ⟨here, others⟩ := List.forall_mem_cons.1 settled
    rw [List.flatMap_cons, Trace.skips_append, List.map_append, ih others]
    rcases here with ⟨p, -, -, writes⟩ | ⟨-, skips⟩
    · simp [writes.written, writes.skips]
    · obtain ⟨message, skipped⟩ := skips.skips
      simp [skips.written, skipped, skippedPair]

theorem countP_outputs : attempts.countP (fun a => a.outcome.any (·.output.isSome)) =
    attempts.countP (fun a => !a.exchanges.written.isEmpty) := by
  refine List.countP_congr fun a made => ?_
  rcases settled a made with ⟨p, outcome, -, writes⟩ | ⟨nothing, skips⟩
  · simp [outcome, writes.written, writes.output]
  · cases outcome : a.outcome with
    | none => simp [skips.written]
    | some p => simp [skips.written, (nothing p outcome).1]

end Counts

/-- However the diffs of some pairs overlap, an uncancelled run reports one pair as skipped for each pair that gets no
file, and those are the skipped pairs that it counts. The other pairs have an output, and only they have adaptations. -/
theorem skipped_eq_unwritten (told : s.WriteErrorsTold) (run : Concurrent s directory limit pairs w attempts es r w')
    (uncancelled : Exchange.cancelled true ∉ es) :
    (attempts.map (·.pair)).Perm pairs ∧ es.written.Perm (attempts.flatMap (·.exchanges.written)) ∧
    (es.skips.map (·.subject)).Perm ((attempts.filter (·.exchanges.written.isEmpty)).map fun a =>
      pairSubject a.pair.1 a.pair.2) ∧
    es.reports.count .diffSkipped = r.skipped ∧ r.skipped = attempts.countP (·.exchanges.written.isEmpty) ∧
    (∀ p ∈ r.pairs, p.output = none → p.adaptations = []) ∧
    pairs.length = r.pairs.countP (·.output.isSome) + r.skipped := by
  obtain ⟨fs, trace, report, paired, shared, -, -⟩ := run.consistent
  have settled := fun a made => run.writes_or_skips told uncancelled (a := a) made
  have subjects : (es.skips.map (·.subject)).Perm ((attempts.filter (·.exchanges.written.isEmpty)).map fun a =>
      pairSubject a.pair.1 a.pair.2) := by
    have last : Trace.skips [.cancelled r.cancelled] = [] := rfl
    rw [← subjects_skips settled, trace, Trace.skips_append, last, List.append_nil]
    exact (Trace.Perm.skips shared.symm).map _
  have files : es.written.Perm (attempts.flatMap (·.exchanges.written)) := by
    have last : Trace.written [.cancelled r.cancelled] = [] := rfl
    rw [← Trace.written_flatMap, trace, Trace.written_append, last, List.append_nil]
    exact Trace.Perm.written shared.symm
  have reported : es.reports.count .diffSkipped = attempts.countP (·.exchanges.written.isEmpty) := by
    have same := subjects.length_eq
    rwa [List.length_map, List.length_map, Trace.length_skips, ← List.countP_eq_length_filter] at same
  have outputs : r.pairs.countP (·.output.isSome) = attempts.countP (fun a => !a.exchanges.written.isEmpty) := by
    rw [← countP_outputs settled, report, countP_ofOutcomes, List.countP_map]
    rfl
  have counted : r.skipped + r.pairs.countP (·.output.isSome) = attempts.length := by
    have total := skipped_ofOutcomes (attempts.map (·.outcome)) r.cancelled
    rwa [← countP_ofOutcomes _ r.cancelled, ← report, List.length_map] at total
  have split : attempts.length = attempts.countP (·.exchanges.written.isEmpty) +
      attempts.countP (fun a => !a.exchanges.written.isEmpty) := by
    rw [List.length_eq_countP_add_countP (·.exchanges.written.isEmpty)]
    exact congrArg _ (List.countP_congr fun a _ => by simp)
  have length : attempts.length = pairs.length := by rw [← paired.length_eq, List.length_map]
  refine ⟨paired, files, subjects, by omega, by omega, ?_, by omega⟩
  intro p listed unsaved
  rw [report, (perm_ofOutcomes _ _).mem_iff, List.mem_filterMap] at listed
  obtain ⟨_, outcome, rfl⟩ := listed
  obtain ⟨a, made, outcome⟩ := List.mem_map.1 outcome
  rcases settled a made with ⟨q, same, -, writes⟩ | ⟨nothing, -⟩
  · rw [outcome] at same
    cases same
    rw [writes.output] at unsaved
    cases unsaved
  · exact (nothing p outcome).2

/-- Services without an archive of the ninth releases and that cannot write the file of `y:c`. -/
def patchyServices : Services Unit where
  releases _ := pure []
  clients _ := pure []
  links _ := pure []
  isListed _ := pure true
  dependencies c := pure (if c.version = "1" then [⟨"g", "a", "1"⟩] else [])
  archive c directory := pure (if c.version = "9" then none else some (directory / c.text))
  declarations _ := pure (.ok (Std.ExtTreeSet.ofList ["m"] compare))
  callGraph x := pure (.ok (CallGraph.ofFacts (if x.coordinate.version = "1" then [("f", "m")] else [])))
  save path _ := pure (if path = outputFile ⟨"out"⟩ ⟨"y", "c", "1"⟩ ⟨"y", "c", "2"⟩ then
    .error FileFailure.isADirectory.failure else .ok ())
  report _ := pure ()
  cancelled := pure false

theorem writeErrorsTold_patchyServices : patchyServices.WriteErrorsTold := by
  intro path text w
  change (if path = outputFile ⟨"out"⟩ ⟨"y", "c", "1"⟩ ⟨"y", "c", "2"⟩ then
    Except.error FileFailure.isADirectory.failure else Except.ok ()) ≠ .error .cancelled
  split <;> simp [FileFailure.failure]

def mixedPairs : List (Coordinate × Coordinate) :=
  [(⟨"y", "c", "1"⟩, ⟨"y", "c", "2"⟩), (⟨"x", "c", "1"⟩, ⟨"x", "c", "9"⟩), (⟨"x", "c", "1"⟩, ⟨"x", "c", "2"⟩)]

theorem skipped_of_mixedPairs : ∃ attempts es r,
    Concurrent patchyServices ⟨"out"⟩ 3 mixedPairs () attempts es r () ∧ attempts.map (·.pair) = mixedPairs.reverse ∧
    es.reports.count .diffSkipped = 2 ∧ r.skipped = 2 ∧ attempts.countP (·.exchanges.written.isEmpty) = 2 ∧
    r.pairs.countP (·.output.isSome) = 1 := by
  obtain ⟨attempts, order, run⟩ := Concurrent.of_order patchyServices ⟨"out"⟩ mixedPairs.reverse_perm (Nat.le_refl 3) ()
  have goesOn : (MigrationReport.run patchyServices.noted ⟨"out"⟩ mixedPairs.reverse ((), [])).2.2.any
      (· matches .cancelled true) = false := by decide +kernel
  have twice : (MigrationReport.run patchyServices.noted ⟨"out"⟩ mixedPairs.reverse ((), [])).2.2.reports.count
      .diffSkipped = 2 := by decide +kernel
  obtain ⟨-, -, -, reported, unwritten, -, total⟩ := skipped_eq_unwritten writeErrorsTold_patchyServices run
    fun h => List.any_eq_false.mp goesOn _ h rfl
  have skipped := reported.symm.trans twice
  refine ⟨attempts, _, _, run, order, twice, skipped, unwritten.symm.trans skipped, ?_⟩
  change 3 = _ at total
  omega

end MigrationReport
end MigrationMining
