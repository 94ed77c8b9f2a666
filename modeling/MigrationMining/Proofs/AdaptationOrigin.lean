import MigrationMining.Proofs.AdaptedCallers
import MigrationMining.Proofs.DependencyGroups
import MigrationMining.Proofs.PairOutput

/-! Where an adaptation of a client pair comes from: it is found for an affected library, and that library is a
dependency of a release that has it. -/

namespace MigrationMining

/-- The dependencies of two releases that show a library to be affected: a removed library is one of the old release, an
added or updated one is one of the new release, and the other release decides which of the three it is. -/
inductive AffectedLibrary.ShownBy (old new : List Coordinate) : AffectedLibrary → Prop where
  | removed {d : Coordinate} (used : d ∈ old) (gone : ∀ n ∈ new, n.project ≠ d.project) : ShownBy old new ⟨d, .removed⟩
  | added {d : Coordinate} (used : d ∈ new) (unknown : ∀ o ∈ old, o.project ≠ d.project) : ShownBy old new ⟨d, .added⟩
  | updated {d : Coordinate} (used : d ∈ new) (known : ∃ o ∈ old, o.project = d.project) : ShownBy old new ⟨d, .updated⟩

namespace AffectedLibrary.ShownBy

variable {side : List Coordinate} {a : AffectedLibrary}

theorem added_of_nil_old (h : a.ShownBy [] side) : a.change = .added ∧ a.library ∈ side := by
  cases h with
  | removed used => cases used
  | added used => exact ⟨rfl, used⟩
  | updated used known =>
    obtain ⟨o, listed, -⟩ := known
    cases listed

theorem removed_of_nil_new (h : a.ShownBy side []) : a.change = .removed ∧ a.library ∈ side := by
  cases h with
  | removed used => exact ⟨rfl, used⟩
  | added used => cases used
  | updated used => cases used

end AffectedLibrary.ShownBy

namespace DependencyDelta

variable {old new : List Coordinate}

theorem shownBy_of_mem_affected {a : AffectedLibrary} (h : a ∈ (compute old new).affected) : a.ShownBy old new := by
  obtain ⟨d, change⟩ := a
  have asked := mem_affected.1 h
  cases change with
  | removed =>
    rw [requested_removed, Std.ExtTreeSet.mem_toList] at asked
    obtain ⟨used, gone⟩ := mem_removed.1 asked
    exact .removed used gone
  | added =>
    rw [requested_added, Std.ExtTreeSet.mem_toList] at asked
    obtain ⟨used, unknown⟩ := mem_added.1 asked
    exact .added used unknown
  | updated =>
    obtain ⟨o, first, first', -⟩ := mem_requested_updated_iff.1 asked
    exact .updated first'.mem ⟨o, first.mem, first.1⟩

end DependencyDelta

theorem Adaptation.comparison_of_mem_diff {c : Comparison} {old new : CallGraph} {members : Namespace} {x : Adaptation}
    (h : x ∈ diff c old new members) : x.comparison = c := by
  rw [diff_eq] at h
  obtain ⟨⟨caller, callees⟩, -, found⟩ := List.mem_filterMap.1 h
  simp only [ofCaller?] at found
  split at found
  · cases found
  · split at found
    · cases found
    · cases found
      rfl

namespace PairReport

open Services PairArchives

variable {σ : Type} {s : Services σ} {directory : Path} {old new : Coordinate} {w : σ} {r : PairReport}

theorem delta_of_run (done : (run s directory old new w).1 = .ok r) :
    r.delta = .compute (s.dependencies old w).1 (s.dependencies new (s.dependencies old w).2).1 := by
  obtain ⟨w', whole⟩ : ∃ w', run s directory old new w = (.ok r, w') := ⟨_, Prod.ext done rfl⟩
  obtain ⟨before, u, first, whole⟩ := bind_run_eq_iff.1 whole
  obtain ⟨after, v, second, whole⟩ := bind_run_eq_iff.1 whole
  obtain ⟨archives, _, -, whole⟩ := bind_run_eq_iff.1 whole
  have delta : r.delta = .compute before after := by
    cases archives with
    | none =>
      obtain ⟨_, _, -, whole⟩ := bind_run_eq_iff.1 whole
      cases whole
      rfl
    | some p =>
      obtain ⟨outcome, _, -, whole⟩ := bind_run_eq_iff.1 whole
      rcases outcome with (_ | e) | found
      · cases whole
      · obtain ⟨_, _, -, whole⟩ := bind_run_eq_iff.1 whole
        cases whole
        rfl
      · obtain ⟨saved, _, -, whole⟩ := bind_run_eq_iff.1 whole
        cases saved <;> cases whole
        rfl
  rw [delta, first, second]

theorem comparison_of_run (done : (run s directory old new w).1 = .ok r) {x : Adaptation} (found : x ∈ r.adaptations) :
    ∃ a ∈ r.delta.affected, x.comparison = ⟨old, new, a.library.project, a.change⟩ := by
  obtain ⟨es, -, ends⟩ := run_notes s directory old new w []
  rw [done] at ends
  cases ends with
  | noArchive => cases found
  | noCallGraph => cases found
  | saved before after a b run =>
    obtain ⟨looked, affected, rfl, -⟩ := run.findings_of_ok
    obtain ⟨⟨library, finding⟩, listed, found⟩ := List.mem_flatMap.1 found
    refine ⟨library, ?_, ?_⟩
    · change library ∈ (DependencyDelta.compute before after).affected
      rw [← affected]
      exact List.mem_map.2 ⟨_, listed, rfl⟩
    · cases finding with
      | dropped why => cases found
      | compared path members g g' => exact Adaptation.comparison_of_mem_diff found

theorem written_of_run {path : Path} {text : String}
    (written : (path, text) ∈ Trace.written (run s.noted directory old new (w, [])).2.2) :
    ∃ r, (run s directory old new w).1 = .ok r ∧ text = DatasetFiles.adaptationsText r.adaptations := by
  obtain ⟨es, noted, ends⟩ := run_notes s directory old new w []
  rw [noted, List.nil_append] at written
  cases outcome : (run s directory old new w).1 with
  | error e =>
    rw [outcome] at ends
    rw [ends.of_error.1] at written
    cases written
  | ok r =>
    rw [outcome] at ends
    refine ⟨r, rfl, ?_⟩
    rcases ends.of_ok with writes | ⟨-, skips⟩
    · rw [writes.written, List.mem_singleton] at written
      exact congrArg Prod.snd written
    · rw [skips.written] at written
      cases written

end PairReport
end MigrationMining
