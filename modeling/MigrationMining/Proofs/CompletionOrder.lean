import MigrationMining.Proofs.PairReplay
import MigrationMining.Proofs.SkippedPairs

/-! The report of several pairs does not depend on how many of them are diffed at once, nor on the order in which the
diffs come to their ends, if what becomes of a pair depends on the pair alone. -/

namespace MigrationMining

namespace PairReport

def releaseOrder : PairReport → PairReport → Ordering := compareLex (compareOn old) (compareOn new)

instance : Std.TransCmp releaseOrder :=
  inferInstanceAs (Std.TransCmp (compareLex (compareOn PairReport.old) (compareOn PairReport.new)))

theorem le_iff {a b : PairReport} : le a b ↔ (releaseOrder a b).isLE := Iff.rfl

theorem le_trans (a b c : PairReport) (first : le a b) (second : le b c) : le a c :=
  le_iff.2 (Std.TransCmp.isLE_trans (le_iff.1 first) (le_iff.1 second))

theorem le_total (a b : PairReport) : (le a b || le b a) = true := by
  have swapped : releaseOrder b a = (releaseOrder a b).swap := Std.OrientedCmp.eq_swap
  rw [Bool.or_eq_true, le_iff, le_iff, swapped]
  cases releaseOrder a b <;> simp

theorem releases_eq_of_le {a b : PairReport} (first : le a b) (second : le b a) : a.old = b.old ∧ a.new = b.new := by
  have same : releaseOrder a b = .eq := Std.OrientedCmp.isLE_antisymm (le_iff.1 first) (le_iff.1 second)
  have both : (compare a.old b.old).then (compare a.new b.new) = .eq := same
  simpa only [Ordering.then_eq_eq, Std.compare_eq_iff_eq] using both

end PairReport

namespace Services

variable {σ : Type} {s : Services σ}

/-- What is answered in one state is answered in every state. -/
def Stateless (s : Services σ) : Prop := ∀ {u v : σ} {e : Exchange} (w : σ), s.Step u e v → ∃ w', s.Step w e w'

theorem Stateless.steps (stateless : s.Stateless) {es : Trace} (answered : ∀ e ∈ es, ∃ u v, s.Step u e v) (w : σ) :
    ∃ w', s.Steps w es w' := by
  induction es generalizing w with
  | nil => exact ⟨w, .nil w⟩
  | cons e es ih =>
    obtain ⟨⟨u, v, here⟩, others⟩ := List.forall_mem_cons.1 answered
    obtain ⟨x, first⟩ := stateless w here
    obtain ⟨w', rest⟩ := ih others x
    exact ⟨w', .cons first rest⟩

end Services

namespace MigrationReport
open Services PairReport

/-- Of reports that are told apart by their releases, the ordered list does not depend on the order in which they come. -/
theorem ofOutcomes_eq_of_perm {outcomes outcomes' : List (Option PairReport)} (reordered : outcomes.Perm outcomes')
    (distinct : ∀ p q, some p ∈ outcomes → some q ∈ outcomes → p.old = q.old → p.new = q.new → p = q) (cancelled : Bool) :
    ofOutcomes outcomes cancelled = ofOutcomes outcomes' cancelled := by
  have same : (outcomes.filterMap id).mergeSort PairReport.le = (outcomes'.filterMap id).mergeSort PairReport.le := by
    refine List.Perm.eq_of_pairwise ?_ (List.pairwise_mergeSort le_trans le_total _)
      (List.pairwise_mergeSort le_trans le_total _) ?_
    · intro p q first second le ge
      rw [List.mem_mergeSort, List.mem_filterMap] at first second
      obtain ⟨_, first, rfl⟩ := first
      obtain ⟨_, second, rfl⟩ := second
      obtain ⟨old, new⟩ := releases_eq_of_le le ge
      exact distinct p q first (reordered.mem_iff.2 second) old new
    · exact ((List.mergeSort_perm _ _).trans (reordered.filterMap _)).trans (List.mergeSort_perm _ _).symm
  rw [ofOutcomes, ofOutcomes, same, reordered.length_eq]

variable {σ : Type} {s : Services σ} {directory : Path} {limit : Nat} {pairs order : List (Coordinate × Coordinate)}
  {w w' : σ} {attempts : List Attempt} {es : Trace} {r : MigrationReport}
  {f : Coordinate × Coordinate → Except Failure PairReport}

/-- However the diffs of some pairs overlap in a run that is not cancelled, the result of each is that of its pair. -/
def Determined (s : Services σ) (directory : Path) (pairs : List (Coordinate × Coordinate)) (w : σ)
    (f : Coordinate × Coordinate → Except Failure PairReport) : Prop :=
  ∀ (limit : Nat) (order : List (Coordinate × Coordinate)) (pool : Pool σ), order.Perm pairs →
    Pool.Reaches s directory limit (Pool.initial w order) pool → Exchange.cancelled true ∉ pool.trace →
    ∀ u ∈ pool.running, ∀ es result, .cancelled false :: es <+: u.exchanges → Diffed directory u.pair result es →
      result = f u.pair

theorem Determined.of_stateless (stateless : s.Stateless) :
    Determined s directory pairs w fun pair => (PairReport.run s directory pair.1 pair.2 w).1 := by
  intro limit order pool _ reaches _ u running es result begun diffed
  have consistent := Pool.Consistent.initial.reaches reaches
  have answered : ∀ e ∈ es, ∃ v v', s.Step v e v' := fun e mem =>
    consistent.steps.step_of_mem <| consistent.exchanges.mem_iff.1 <| List.mem_append_right _ <|
      List.mem_flatMap.2 ⟨u, running, begun.subset (List.mem_cons_of_mem _ mem)⟩
  obtain ⟨w', steps⟩ := stateless.steps answered w
  exact (congrArg Prod.fst (run_of_ends diffed.ends steps)).symm

theorem Determined.outcome_eq (determined : Determined s directory pairs w f) (reordered : order.Perm pairs)
    {pool : Pool σ} (reaches : Pool.Reaches s directory limit (Pool.initial w order) pool)
    (uncancelled : Exchange.cancelled true ∉ pool.trace) {a : Attempt} (possible : a.Possible directory)
    (running : ⟨a.pair, a.exchanges⟩ ∈ pool.running) : a.outcome = (f a.pair).toOption := by
  have result := determined limit order pool reordered reaches uncancelled _ running
  have consistent := Pool.Consistent.initial.reaches reaches
  have among {e : Exchange} (mem : e ∈ a.exchanges) : e ∈ pool.trace :=
    consistent.exchanges.mem_iff.1 (List.mem_append_right _ (List.mem_flatMap.2 ⟨_, running, mem⟩))
  obtain ⟨pair, outcome, es⟩ := a
  have ends : AttemptEnds directory pair outcome es := possible.ends
  cases ends with
  | calledOff => exact absurd (among (List.mem_singleton_self _)) uncancelled
  | reported diffed =>
    rw [← result _ _ (List.prefix_refl _) diffed]
    rfl
  | stopped diffed =>
    rw [← result _ _ (List.prefix_refl _) diffed]
    rfl
  | failed other diffed =>
    rw [← result _ _ (List.prefix_append _ _) diffed]
    rfl

theorem Determined.outcomes_of_reaches (determined : Determined s directory pairs w f) (reordered : order.Perm pairs)
    {pool : Pool σ} (reaches : Pool.Reaches s directory limit (Pool.initial w order) pool)
    (uncancelled : Exchange.cancelled true ∉ pool.trace) : ∀ a ∈ pool.finished, a.outcome = (f a.pair).toOption := by
  induction reaches with
  | refl => simp [Pool.initial]
  | tail reaches step ih =>
    cases step with
    | start => exact ih uncancelled
    | call => exact ih fun mem => uncancelled (List.mem_append_left _ mem)
    | finish ended =>
      refine List.forall_mem_append.2 ⟨ih uncancelled, List.forall_mem_singleton.2 ?_⟩
      exact determined.outcome_eq reordered reaches uncancelled ended (by simp)

theorem Determined.outcomes (determined : Determined s directory pairs w f) (reordered : order.Perm pairs)
    (run : Concurrent s directory limit order w attempts es r w') (uncancelled : Exchange.cancelled true ∉ es) :
    attempts.map (·.outcome) = (attempts.map (·.pair)).map fun pair => (f pair).toOption := by
  rw [List.map_map]
  refine List.map_congr_left fun a made => ?_
  cases run with
  | mk reaches watched =>
    exact determined.outcomes_of_reaches reordered reaches (fun mem => uncancelled (List.mem_append_left _ mem)) a made

/-- A report of pairs is the same however many of them are diffed at once and in whatever order their diffs end, and it is
that of diffing them one after the other in any order. -/
theorem concurrent_eq_run (determined : Determined s directory pairs w f)
    (run : Concurrent s directory limit pairs w attempts es r w') (uncancelled : Exchange.cancelled true ∉ es)
    (reordered : order.Perm pairs)
    (uncancelled' : Exchange.cancelled true ∉ (MigrationReport.run s.noted directory order (w, [])).2.2) :
    r = (MigrationReport.run s directory order w).1 := by
  obtain ⟨attempts', same, run'⟩ := Concurrent.of_run s directory limit order w
  obtain ⟨-, -, report, paired, -, possible, -⟩ := run.consistent
  obtain ⟨-, -, report', -⟩ := run'.consistent
  have outcomes := determined.outcomes (.refl _) run uncancelled
  have outcomes' := determined.outcomes reordered run' uncancelled'
  have permuted : (attempts.map (·.outcome)).Perm (attempts'.map (·.outcome)) := by
    rw [outcomes, outcomes', same]
    exact (paired.trans reordered.symm).map _
  rw [report, report', run.cancelled_eq_false uncancelled, run'.cancelled_eq_false uncancelled']
  refine ofOutcomes_eq_of_perm permuted ?_ false
  -- Two reports of the same releases are reports of the same pair, and its outcome is one of them.
  have reported {p : PairReport} (mem : some p ∈ attempts.map (·.outcome)) : some p = (f (p.old, p.new)).toOption := by
    obtain ⟨a, made, outcome⟩ := List.mem_map.1 mem
    rw [(possible a made).pair_eq outcome, ← outcome]
    rw [List.map_map] at outcomes
    exact List.map_inj_left.1 outcomes a made
  intro p q first second old new
  refine Option.some.inj ?_
  rw [reported first, reported second, old, new]

theorem stateless_patchyServices : patchyServices.Stateless := fun _ answered => ⟨_, answered⟩

def repeatedPairs : List (Coordinate × Coordinate) := mixedPairs ++ mixedPairs.take 2

/-- Five pairs that are diffed at once and end in the reverse order are reported as if they were diffed in order. -/
theorem concurrent_eq_run_of_repeatedPairs : ∃ attempts es r,
    Concurrent patchyServices ⟨"out"⟩ 5 repeatedPairs () attempts es r () ∧
    attempts.map (·.pair) = repeatedPairs.reverse ∧ r = (MigrationReport.run patchyServices ⟨"out"⟩ repeatedPairs ()).1 := by
  obtain ⟨attempts, order, run⟩ :=
    Concurrent.of_order patchyServices ⟨"out"⟩ repeatedPairs.reverse_perm (Nat.le_refl 5) ()
  have goesOn : (MigrationReport.run patchyServices.noted ⟨"out"⟩ repeatedPairs.reverse ((), [])).2.2.any
      (· matches .cancelled true) = false := by decide +kernel
  have goesOn' : (MigrationReport.run patchyServices.noted ⟨"out"⟩ repeatedPairs ((), [])).2.2.any
      (· matches .cancelled true) = false := by decide +kernel
  have same := concurrent_eq_run (.of_stateless stateless_patchyServices) run
    (fun h => List.any_eq_false.mp goesOn _ h rfl) (.refl _) (fun h => List.any_eq_false.mp goesOn' _ h rfl)
  exact ⟨attempts, _, _, run, order, same⟩

end MigrationReport
end MigrationMining
