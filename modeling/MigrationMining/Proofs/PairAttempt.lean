import MigrationMining.Proofs.PairOutput

/-! An attempt at a pair of client releases, one of several: the ways it can go under any answers of the services, and
all ways in which it ends. -/

namespace MigrationMining
namespace PairReport
open Services PairArchives

/-- Some services answer a diff of a pair so that it has a result after these exchanges. -/
def Diffed (directory : Path) (pair : Coordinate × Coordinate) (result : Except Failure PairReport) (es : Trace) :
    Prop :=
  ∃ (σ : Type) (s : Services σ) (w v : σ), run s.noted directory pair.1 pair.2 (w, []) = (result, (v, es))

/-- An attempt at a pair, with what became of it and its exchanges. -/
structure Attempt where
  pair : Coordinate × Coordinate
  outcome : Option PairReport
  exchanges : Trace

def Attempt.Possible (directory : Path) (a : Attempt) : Prop :=
  ∃ (σ : Type) (s : Services σ) (w v : σ), attempt s.noted directory a.pair (w, []) = (a.outcome, (v, a.exchanges))

/-- An attempt at a pair, with what becomes of it and its exchanges. -/
inductive AttemptEnds (directory : Path) (pair : Coordinate × Coordinate) : Option PairReport → Trace → Prop where
  | calledOff : AttemptEnds directory pair none [.cancelled true]
  | reported {r : PairReport} {es : Trace} (diffed : Diffed directory pair (.ok r) es) :
      AttemptEnds directory pair (some r) (.cancelled false :: es)
  | stopped {es : Trace} (diffed : Diffed directory pair (.error .cancelled) es) :
      AttemptEnds directory pair none (.cancelled false :: es)
  | failed {e : Failure} {es : Trace} (other : e ≠ .cancelled) (diffed : Diffed directory pair (.error e) es) :
      AttemptEnds directory pair none (.cancelled false :: (es ++ [.report (skippedPair pair e.message)]))

section Specifications

variable {σ : Type} (s : Services σ) (directory : Path)

theorem attempt_traced (pair : Coordinate × Coordinate) :
    Traced s (attempt s.noted directory pair) (attempt s directory pair) (AttemptEnds directory pair) := by
  refine Traced.call fun cancelled => ?_
  cases cancelled with
  | true => exact Traced.pure .calledOff
  | false =>
    refine (run_traced s directory pair.1 pair.2).history.bind ?_
    rintro result es ⟨w, v, noted⟩
    have diffed : Diffed directory pair result es := ⟨σ, s, w, v, noted⟩
    rcases result with e | r
    · by_cases stopped : e = .cancelled
      · subst stopped
        refine Traced.pure ?_
        rw [List.append_nil]
        exact .stopped diffed
      · have ends := AttemptEnds.failed stopped diffed
        cases e with
        | cancelled => exact absurd rfl stopped
        | file | serialization | configuration | notFound | transient | malformedInput | extraction | invalidInput =>
          exact Traced.report (Traced.pure ends)
    · refine Traced.pure ?_
      rw [List.append_nil]
      exact .reported diffed

theorem attemptAll_traced (pairs : List (Coordinate × Coordinate)) :
    Traced s (attemptAll s.noted directory pairs) (attemptAll s directory pairs) fun outcomes es =>
      ∃ attempts : List Attempt, attempts.map (·.pair) = pairs ∧ attempts.map (·.outcome) = outcomes ∧
        es = attempts.flatMap (·.exchanges) ∧ ∀ a ∈ attempts, a.Possible directory := by
  induction pairs with
  | nil => exact Traced.pure ⟨[], rfl, rfl, rfl, by simp⟩
  | cons pair pairs ih =>
    refine (attempt_traced s directory pair).history.bind ?_
    rintro outcome es ⟨w, v, noted⟩
    refine ih.bind ?_
    rintro _ _ ⟨attempts, rfl, rfl, rfl, possible⟩
    refine Traced.pure ⟨⟨pair, outcome, es⟩ :: attempts, rfl, rfl, ?_, ?_⟩
    · rw [List.append_nil, List.flatMap_cons]
    · exact List.forall_mem_cons.2 ⟨⟨σ, s, w, v, noted⟩, possible⟩

end Specifications

variable {directory : Path} {pair : Coordinate × Coordinate} {es : Trace}

theorem Diffed.ends {result : Except Failure PairReport} (diffed : Diffed directory pair result es) :
    Ends directory pair.1 pair.2 result es := by
  obtain ⟨σ, s, w, v, noted⟩ := diffed
  exact ((run_traced s directory pair.1 pair.2).of_noted noted).2.1

theorem Attempt.Possible.ends {a : Attempt} (possible : a.Possible directory) :
    AttemptEnds directory a.pair a.outcome a.exchanges := by
  obtain ⟨σ, s, w, v, noted⟩ := possible
  exact ((attempt_traced s directory a.pair).of_noted noted).2.1

theorem Diffed.pair_eq {r : PairReport} (diffed : Diffed directory pair (.ok r) es) : (r.old, r.new) = pair := by
  cases diffed.ends <;> rfl

theorem Attempt.Possible.pair_eq {a : Attempt} (possible : a.Possible directory) {r : PairReport}
    (reported : a.outcome = some r) : (r.old, r.new) = a.pair := by
  obtain ⟨pair, outcome, es⟩ := a
  obtain rfl : outcome = some r := reported
  have ends : AttemptEnds directory pair (some r) es := possible.ends
  cases ends with
  | reported diffed => exact diffed.pair_eq

end PairReport
end MigrationMining
