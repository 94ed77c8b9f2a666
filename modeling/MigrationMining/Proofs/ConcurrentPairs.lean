import Mathlib.Logic.Relation
import MigrationMining.Proofs.PairAttempt

/-! Several pairs that are diffed at once. A pool starts attempts in the order of the pairs, has a limited number of
them running, and lets any of them go on with its next call or come to its end. What the attempts do is what the code
does: the calls an attempt has made and the next one are the beginning of a way that `PairReport.attempt` can go. -/

namespace MigrationMining
namespace MigrationReport
open Services PairReport

structure Underway where
  pair : Coordinate × Coordinate
  exchanges : Trace

structure Pool (σ : Type) where
  state : σ
  waiting : List (Coordinate × Coordinate)
  running : List Underway
  finished : List Attempt
  trace : Trace

namespace Pool

variable {σ : Type}

def initial (w : σ) (pairs : List (Coordinate × Coordinate)) : Pool σ := ⟨w, pairs, [], [], []⟩

/-- What a pool can do next. -/
inductive Step (s : Services σ) (directory : Path) (limit : Nat) : Pool σ → Pool σ → Prop where
  | start {w : σ} {pair : Coordinate × Coordinate} {waiting : List (Coordinate × Coordinate)} {running : List Underway}
      {finished : List Attempt} {es : Trace} (room : running.length < limit) :
      Step s directory limit ⟨w, pair :: waiting, running, finished, es⟩
        ⟨w, waiting, running ++ [⟨pair, []⟩], finished, es⟩
  | call {w w' : σ} {waiting : List (Coordinate × Coordinate)} {before after : List Underway} {u : Underway}
      {finished : List Attempt} {es : Trace} {e : Exchange} (answered : s.Step w e w')
      (next : ∃ a : Attempt, a.Possible directory ∧ a.pair = u.pair ∧ u.exchanges ++ [e] <+: a.exchanges) :
      Step s directory limit ⟨w, waiting, before ++ u :: after, finished, es⟩
        ⟨w', waiting, before ++ ⟨u.pair, u.exchanges ++ [e]⟩ :: after, finished, es ++ [e]⟩
  | finish {w : σ} {waiting : List (Coordinate × Coordinate)} {before after : List Underway} {a : Attempt}
      {finished : List Attempt} {es : Trace} (ended : a.Possible directory) :
      Step s directory limit ⟨w, waiting, before ++ ⟨a.pair, a.exchanges⟩ :: after, finished, es⟩
        ⟨w, waiting, before ++ after, finished ++ [a], es⟩

def Reaches (s : Services σ) (directory : Path) (limit : Nat) : Pool σ → Pool σ → Prop :=
  Relation.ReflTransGen (Step s directory limit)

section Invariant

variable {s : Services σ} {directory : Path} {limit : Nat} {w : σ} {pairs : List (Coordinate × Coordinate)}
  {pool pool' : Pool σ}

/-- Every pair is in one place, every exchange belongs to one attempt and was answered when it was made. -/
structure Consistent (s : Services σ) (directory : Path) (w : σ) (pairs : List (Coordinate × Coordinate))
    (pool : Pool σ) : Prop where
  pairs : (pool.finished.map (·.pair) ++ pool.running.map (·.pair) ++ pool.waiting).Perm pairs
  exchanges : (pool.finished.flatMap (·.exchanges) ++ pool.running.flatMap (·.exchanges)).Perm pool.trace
  possible : ∀ a ∈ pool.finished, a.Possible directory
  steps : s.Steps w pool.trace pool.state

theorem Consistent.initial : Consistent s directory w pairs (initial w pairs) where
  pairs := by simp [Pool.initial]
  exchanges := by simp [Pool.initial]
  possible := by simp [Pool.initial]
  steps := .nil w

theorem Consistent.step (h : Consistent s directory w pairs pool) (step : Step s directory limit pool pool') :
    Consistent s directory w pairs pool' := by
  cases step with
  | start room => exact ⟨by simpa using h.pairs, by simpa using h.exchanges, h.possible, h.steps⟩
  | @call _ _ _ _ after u finished _ e answered next =>
    refine ⟨by simpa using h.pairs, ?_, h.possible, h.steps.append (.cons answered (.nil _))⟩
    refine List.Perm.trans ?_ (h.exchanges.append_right [e])
    simp only [List.flatMap_append, List.flatMap_cons, List.append_assoc]
    exact (((List.perm_append_comm).append_left _).append_left _).append_left _
  | @finish _ _ before _ a finished _ ended =>
    refine ⟨List.Perm.trans ?_ h.pairs, List.Perm.trans ?_ h.exchanges, ?_, h.steps⟩
    · simp only [List.map_append, List.map_cons, List.map_nil, List.append_assoc, List.cons_append, List.nil_append]
      exact List.perm_middle.symm.append_left _
    · simp only [List.flatMap_append, List.flatMap_cons, List.flatMap_nil, List.append_assoc, List.append_nil]
      exact List.perm_append_comm_assoc .. |>.append_left _
    · simpa [or_imp, forall_and] using ⟨h.possible, ended⟩

theorem Consistent.reaches (h : Consistent s directory w pairs pool) (reaches : Reaches s directory limit pool pool') :
    Consistent s directory w pairs pool' := by
  induction reaches with
  | refl => exact h
  | tail _ step ih => exact ih.step step

end Invariant

section Schedules

variable {s : Services σ} {directory : Path} {limit : Nat} {w v : σ} {waiting : List (Coordinate × Coordinate)}
  {before after : List Underway} {finished : List Attempt} {es : Trace}

theorem reaches_calls {a : Attempt} (possible : a.Possible directory) {made fs : Trace} (rest : Trace)
    (exchanges : a.exchanges = made ++ fs ++ rest) (steps : s.Steps w fs v) :
    Reaches s directory limit ⟨w, waiting, before ++ ⟨a.pair, made⟩ :: after, finished, es⟩
      ⟨v, waiting, before ++ ⟨a.pair, made ++ fs⟩ :: after, finished, es ++ fs⟩ := by
  induction steps generalizing made es with
  | nil =>
    rw [List.append_nil, List.append_nil]
    exact .refl
  | @cons _ _ _ e fs first _ ih =>
    refine .head (.call first ⟨a, possible, rfl, ?_⟩) ?_
    · rw [exchanges]
      exact ⟨fs ++ rest, by simp⟩
    · rw [List.append_cons made e fs, List.append_cons es e fs]
      exact ih (by rw [exchanges, List.append_cons made e fs])

theorem reaches_end {a : Attempt} (possible : a.Possible directory) (steps : s.Steps w a.exchanges v) :
    Reaches s directory limit ⟨w, waiting, before ++ ⟨a.pair, []⟩ :: after, finished, es⟩
      ⟨v, waiting, before ++ after, finished ++ [a], es ++ a.exchanges⟩ :=
  .tail (reaches_calls possible [] (by simp) steps) (.finish possible)

theorem reaches_sequentially {attempts : List Attempt} (possible : ∀ a ∈ attempts, a.Possible directory)
    (steps : s.Steps w (attempts.flatMap (·.exchanges)) v) (room : 0 < limit) :
    Reaches s directory limit ⟨w, attempts.map (·.pair), [], finished, es⟩
      ⟨v, [], [], finished ++ attempts, es ++ attempts.flatMap (·.exchanges)⟩ := by
  induction attempts generalizing w finished es with
  | nil =>
    cases steps
    rw [List.flatMap_nil, List.append_nil, List.append_nil]
    exact .refl
  | cons a attempts ih =>
    obtain ⟨u, first, later⟩ := Steps.exists_of_append steps
    obtain ⟨here, others⟩ := List.forall_mem_cons.1 possible
    rw [List.append_cons finished a attempts, List.flatMap_cons, ← List.append_assoc]
    refine .head (.start room) ?_
    exact (reaches_end here first).trans (ih others later)

theorem reaches_all_started {pairs : List (Coordinate × Coordinate)} {running : List Underway}
    (room : running.length + pairs.length ≤ limit) :
    Reaches s directory limit ⟨w, pairs, running, finished, es⟩
      ⟨w, [], running ++ pairs.map (⟨·, []⟩), finished, es⟩ := by
  induction pairs generalizing running with
  | nil =>
    rw [List.map_nil, List.append_nil]
    exact .refl
  | cons pair pairs ih =>
    rw [List.length_cons] at room
    rw [List.map_cons, List.append_cons]
    refine .head (.start (by omega)) (ih ?_)
    rw [List.length_append, List.length_singleton]
    omega

theorem reaches_in_order {attempts : List Attempt} {running : List Underway}
    (started : running.Perm (attempts.map fun a => ⟨a.pair, []⟩)) (possible : ∀ a ∈ attempts, a.Possible directory)
    (steps : s.Steps w (attempts.flatMap (·.exchanges)) v) :
    Reaches s directory limit ⟨w, [], running, finished, es⟩
      ⟨v, [], [], finished ++ attempts, es ++ attempts.flatMap (·.exchanges)⟩ := by
  induction attempts generalizing w running finished es with
  | nil =>
    cases steps
    rw [List.map_nil, List.perm_nil] at started
    subst started
    rw [List.flatMap_nil, List.append_nil, List.append_nil]
    exact .refl
  | cons a attempts ih =>
    obtain ⟨u, first, later⟩ := Steps.exists_of_append steps
    obtain ⟨here, others⟩ := List.forall_mem_cons.1 possible
    obtain ⟨before, after, rfl⟩ := List.append_of_mem (started.mem_iff.2 List.mem_cons_self)
    have remaining := (List.perm_middle.symm.trans started).cons_inv
    rw [List.append_cons finished a attempts, List.flatMap_cons, ← List.append_assoc]
    exact (reaches_end here first).trans (ih remaining others later)

end Schedules

end Pool

variable {σ : Type} {s : Services σ} {directory : Path} {limit : Nat} {pairs : List (Coordinate × Coordinate)} {w w' : σ}
  {attempts : List Attempt} {es : Trace} {r : MigrationReport}

theorem run_traced (s : Services σ) (directory : Path) (pairs : List (Coordinate × Coordinate)) :
    Traced s (run s.noted directory pairs) (run s directory pairs) fun r es =>
      ∃ attempts : List Attempt, attempts.map (·.pair) = pairs ∧ (∀ a ∈ attempts, a.Possible directory) ∧
        r = ofOutcomes (attempts.map (·.outcome)) r.cancelled ∧
        es = attempts.flatMap (·.exchanges) ++ [.cancelled r.cancelled] := by
  refine (attemptAll_traced s directory pairs).bind ?_
  rintro _ _ ⟨attempts, same, rfl, rfl, possible⟩
  exact Traced.call fun cancelled => Traced.pure ⟨attempts, same, possible, rfl, rfl⟩

/-- A report of pairs that were diffed with up to `limit` of them at once, at least one: the attempts in the order in
which they ended, all exchanges in the order in which they were made, and the state that is left. -/
inductive Concurrent (s : Services σ) (directory : Path) (limit : Nat) (pairs : List (Coordinate × Coordinate)) (w : σ) :
    List Attempt → Trace → MigrationReport → σ → Prop where
  | mk {v w' : σ} {attempts : List Attempt} {es : Trace} {cancelled : Bool}
      (reaches : Pool.Reaches s directory (max 1 limit) (Pool.initial w pairs) ⟨v, [], [], attempts, es⟩)
      (watched : s.cancelled v = (cancelled, w')) :
      Concurrent s directory limit pairs w attempts (es ++ [.cancelled cancelled])
        (ofOutcomes (attempts.map (·.outcome)) cancelled) w'

namespace Concurrent

theorem consistent (run : Concurrent s directory limit pairs w attempts es r w') :
    ∃ fs, es = fs ++ [.cancelled r.cancelled] ∧ r = ofOutcomes (attempts.map (·.outcome)) r.cancelled ∧
      (attempts.map (·.pair)).Perm pairs ∧ (attempts.flatMap (·.exchanges)).Perm fs ∧
      (∀ a ∈ attempts, a.Possible directory) ∧ s.Steps w es w' := by
  cases run with
  | @mk v _ _ fs cancelled reaches watched =>
    have consistent := Pool.Consistent.initial.reaches reaches
    refine ⟨fs, rfl, rfl, by simpa using consistent.pairs, by simpa using consistent.exchanges, consistent.possible, ?_⟩
    exact consistent.steps.append (.cons watched (.nil _))

theorem cancelled_eq_false (run : Concurrent s directory limit pairs w attempts es r w')
    (uncancelled : Exchange.cancelled true ∉ es) : r.cancelled = false := by
  obtain ⟨fs, rfl, -⟩ := run.consistent
  rw [List.mem_append, not_or] at uncancelled
  simpa using uncancelled.2

theorem of_reaches {order : List (Coordinate × Coordinate)}
    (reaches : ∀ attempts v, attempts.map (·.pair) = order → (∀ a ∈ attempts, a.Possible directory) →
      s.Steps w (attempts.flatMap (·.exchanges)) v → Pool.Reaches s directory (max 1 limit) (Pool.initial w pairs)
        ⟨v, [], [], attempts, attempts.flatMap (·.exchanges)⟩) :
    ∃ attempts, attempts.map (·.pair) = order ∧ Concurrent s directory limit pairs w attempts
      (run s.noted directory order (w, [])).2.2 (run s directory order w).1 (run s directory order w).2 := by
  obtain ⟨es, noted, ⟨attempts, same, possible, report, rfl⟩, steps⟩ := run_traced s directory order w
  obtain ⟨v, made, watched⟩ := steps.exists_of_append
  cases watched with
  | cons watched rest =>
    cases rest
    refine ⟨attempts, same, ?_⟩
    rw [noted, List.nil_append, report]
    exact .mk (reaches attempts v same possible made) watched

theorem of_order (s : Services σ) (directory : Path) {order : List (Coordinate × Coordinate)}
    (reordered : order.Perm pairs) (room : pairs.length ≤ limit) (w : σ) :
    ∃ attempts, attempts.map (·.pair) = order ∧ Concurrent s directory limit pairs w attempts
      (run s.noted directory order (w, [])).2.2 (run s directory order w).1 (run s directory order w).2 := by
  refine of_reaches fun attempts v same possible steps => ?_
  refine (Pool.reaches_all_started (by simp; omega)).trans (Pool.reaches_in_order ?_ possible steps)
  rw [← same] at reordered
  simpa [Function.comp_def] using (reordered.symm.map (Underway.mk · []))

theorem of_run (s : Services σ) (directory : Path) (limit : Nat) (pairs : List (Coordinate × Coordinate)) (w : σ) :
    ∃ attempts, attempts.map (·.pair) = pairs ∧ Concurrent s directory limit pairs w attempts
      (run s.noted directory pairs (w, [])).2.2 (run s directory pairs w).1 (run s directory pairs w).2 := by
  refine of_reaches fun attempts v same possible steps => ?_
  rw [← same]
  exact Pool.reaches_sequentially possible steps (by omega)

end Concurrent
end MigrationReport
end MigrationMining
