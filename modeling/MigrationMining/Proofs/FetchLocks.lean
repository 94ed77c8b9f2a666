import Mathlib.Data.List.Perm.Subperm
import MigrationMining.Repository.Inflight

/-! Fetches of one target whose steps interleave in any way. A fetch holds a lock that no other fetch holds, and begins
a download only while the target is missing; but as a fetch removes the entry while others wait for its lock, a
download that fails can be followed by two at once. There is at most one more download at a time than have failed. -/

namespace MigrationMining

namespace FetchStage

def lock? : FetchStage → Option Nat
  | queued l | locked l | downloading l | ended l _ | delisted l _ => some l
  | arriving | left _ => none

def heldLock? : FetchStage → Option Nat
  | locked l | downloading l | ended l _ | delisted l _ => some l
  | arriving | queued _ | left _ => none

def isDownloading : FetchStage → Bool
  | downloading _ => true
  | _ => false

def found? : FetchStage → Option Bool
  | ended _ found | delisted _ found | left found => some found
  | _ => none

def failed (stage : FetchStage) : Bool := stage.found? = some false

def hasDelisted : FetchStage → Bool
  | delisted .. | left _ => true
  | _ => false

def creates (result : Option Bool) : FetchStage → Bool
  | downloading _ => result = some true
  | _ => false

theorem lock?_of_heldLock? {stage : FetchStage} {l : Nat} (holds : stage.heldLock? = some l) :
    stage.lock? = some l := by
  cases stage with
  | locked | downloading | ended | delisted => exact holds
  | arriving | queued | left => cases holds

/-- All that a fetch can do in a step, with the locks before and after it. -/
inductive Moves (isThere : Bool) (result : Option Bool) (locks : TargetLocks) :
    FetchStage → FetchStage → TargetLocks → Prop where
  | joins {l : Nat} (listed : locks.entry = some l) : Moves isThere result locks arriving (queued l) locks
  | enlists (unlisted : locks.entry = none) :
      Moves isThere result locks arriving (queued locks.made)
        { locks with entry := some locks.made, made := locks.made + 1 }
  | locks {l : Nat} (free : l ∉ locks.held) :
      Moves isThere result locks (queued l) (locked l) { locks with held := l :: locks.held }
  | finds {l : Nat} (present : isThere = true) : Moves isThere result locks (locked l) (ended l true) locks
  | begins {l : Nat} (missing : isThere = false) : Moves isThere result locks (locked l) (downloading l) locks
  | ends {l : Nat} {found : Bool} (result_eq : result = some found) :
      Moves isThere result locks (downloading l) (ended l found) locks
  | delists {l : Nat} {found : Bool} :
      Moves isThere result locks (ended l found) (delisted l found) { locks with entry := none }
  | leaves {l : Nat} {found : Bool} :
      Moves isThere result locks (delisted l found) (left found) { locks with held := locks.held.erase l }

theorem moves_of_step {isThere : Bool} {result : Option Bool} {locks locks' : TargetLocks} {stage stage' : FetchStage}
    (step : stage.step isThere result locks = some (stage', locks')) :
    Moves isThere result locks stage stage' locks' := by
  cases stage with
  | arriving =>
    rw [FetchStage.step] at step
    split at step
    · rename_i listed
      cases step
      exact .joins listed
    · rename_i unlisted
      cases step
      exact .enlists unlisted
  | queued l =>
    rw [FetchStage.step] at step
    split at step
    · cases step
    · rename_i free
      cases step
      exact .locks free
  | locked l =>
    cases isThere <;> cases step
    · exact .begins rfl
    · exact .finds rfl
  | downloading l =>
    cases result <;> cases step
    exact .ends rfl
  | ended l found =>
    cases step
    exact .delists
  | delisted l found =>
    cases step
    exact .leaves
  | left found => cases step

end FetchStage

/-- Fetches of one target, which share its locks. -/
structure FetchPool where
  stages : List FetchStage
  locks : TargetLocks
  isThere : Bool
  deriving DecidableEq

/-- Which of the fetches takes a step, and how its download ends if it does so in this step. -/
structure FetchTurn where
  fetch : Nat
  result : Option Bool := none

namespace FetchPool

def initial (n : Nat) (isThere : Bool) : FetchPool := ⟨List.replicate n .arriving, {}, isThere⟩

def turn (p : FetchPool) (t : FetchTurn) : Option FetchPool := do
  let stage ← p.stages[t.fetch]?
  let (stage', locks) ← stage.step p.isThere t.result p.locks
  return ⟨p.stages.set t.fetch stage', locks, p.isThere || stage.creates t.result⟩

def run (p : FetchPool) (schedule : List FetchTurn) : Option FetchPool := schedule.foldlM turn p

def downloads (p : FetchPool) : Nat := p.stages.countP (·.isDownloading)

def failures (p : FetchPool) : Nat := p.stages.countP (·.failed)

section Step

variable {isThere : Bool} {result : Option Bool} {locks locks' : TargetLocks} {stage stage' : FetchStage}

theorem held_of_moves (moves : stage.Moves isThere result locks stage' locks') {before after : List FetchStage}
    (held : locks.held.Perm ((before ++ stage :: after).filterMap (·.heldLock?))) :
    locks'.held.Perm ((before ++ stage' :: after).filterMap (·.heldLock?)) := by
  rw [List.filterMap_append] at held ⊢
  cases moves with
  | joins | enlists | finds | begins | ends | delists => exact held
  | locks free => exact (held.cons _).trans List.perm_middle.symm
  | @leaves l found =>
    have without := (held.trans List.perm_middle).erase l
    rwa [List.erase_cons_head] at without

theorem nodup_of_moves (moves : stage.Moves isThere result locks stage' locks') (apart : locks.held.Nodup) :
    locks'.held.Nodup := by
  cases moves with
  | joins | enlists | finds | begins | ends | delists => exact apart
  | locks free => exact List.nodup_cons.2 ⟨free, apart⟩
  | leaves => exact apart.erase _

theorem made_le_of_moves (moves : stage.Moves isThere result locks stage' locks') : locks.made ≤ locks'.made := by
  cases moves with
  | enlists => exact Nat.le_succ _
  | joins | locks | finds | begins | ends | delists | leaves => exact Nat.le_refl _

theorem known_of_moves (moves : stage.Moves isThere result locks stage' locks')
    (known : ∀ l ∈ stage.lock?, l < locks.made) (listed : ∀ l ∈ locks.entry, l < locks.made) :
    (∀ l ∈ stage'.lock?, l < locks'.made) ∧ ∀ l ∈ locks'.entry, l < locks'.made := by
  cases moves with
  | joins entry => exact ⟨fun l mem => listed l (entry.trans mem), listed⟩
  | enlists => simp [FetchStage.lock?]
  | locks | finds | begins | ends => exact ⟨known, listed⟩
  | delists => exact ⟨known, by simp⟩
  | leaves => exact ⟨by simp [FetchStage.lock?], listed⟩

theorem made_of_moves (moves : stage.Moves isThere result locks stage' locks') {n : Nat}
    (made : locks.made ≤ n + (if stage.hasDelisted then 1 else 0) + locks.entry.toList.length) :
    locks'.made ≤ n + (if stage'.hasDelisted then 1 else 0) + locks'.entry.toList.length := by
  cases moves with
  | joins | locks | finds | begins | ends | leaves => exact made
  | enlists unlisted =>
    rw [unlisted] at made
    exact Nat.succ_le_succ made
  | delists =>
    have one : locks.entry.toList.length ≤ 1 := by cases locks.entry <;> simp
    simp only [FetchStage.hasDelisted, Bool.false_eq_true, if_false] at made
    simp only [FetchStage.hasDelisted, if_true, Option.toList_none, List.length_nil]
    omega

theorem missing_of_moves (moves : stage.Moves isThere result locks stage' locks')
    (missing : isThere = false → stage.found? ≠ some true) (still : (isThere || stage.creates result) = false) :
    stage'.found? ≠ some true := by
  rw [Bool.or_eq_false_iff] at still
  cases moves with
  | joins | enlists | locks | begins => simp [FetchStage.found?]
  | finds present => exact absurd still.1 (by simp [present])
  | @ends l found result_eq =>
    have failed := still.2
    simp only [FetchStage.creates, result_eq, decide_eq_false_iff_not] at failed
    exact failed
  | delists | leaves => exact missing still.1

theorem failed_of_moves (moves : stage.Moves isThere result locks stage' locks') (failed : stage.failed) :
    stage'.failed := by
  cases moves with
  | joins | enlists | locks | finds | begins | ends =>
    exact absurd failed (by simp [FetchStage.failed, FetchStage.found?])
  | delists | leaves => exact failed

/-- Only a fetch that finds the target missing begins a download. -/
theorem downloading_of_moves (moves : stage.Moves isThere result locks stage' locks') {l : Nat}
    (begun : stage' = .downloading l) : isThere = false ∧ stage = .locked l := by
  cases moves with
  | begins missing =>
    cases begun
    exact ⟨missing, rfl⟩
  | joins | enlists | locks | finds | ends | delists | leaves => cases begun

end Step

/-- Fetches and their locks: each fetch that holds a lock holds another one, and all locks were made when there was no
entry. -/
structure Locking (p : FetchPool) : Prop where
  held : p.locks.held.Perm (p.stages.filterMap (·.heldLock?))
  apart : p.locks.held.Nodup
  known : ∀ stage ∈ p.stages, ∀ l ∈ stage.lock?, l < p.locks.made
  listed : ∀ l ∈ p.locks.entry, l < p.locks.made
  made : p.locks.made ≤ p.stages.countP (·.hasDelisted) + p.locks.entry.toList.length
  missing : p.isThere = false → ∀ stage ∈ p.stages, stage.found? ≠ some true
  /-- A download is made with one of the first locks, as it began when all downloads before had failed. -/
  early : ∀ l, .downloading l ∈ p.stages → l ≤ p.failures

variable {p p' : FetchPool} {t : FetchTurn}

theorem exists_of_turn (turn : p.turn t = some p') :
    ∃ before stage after stage', p.stages = before ++ stage :: after ∧
      stage.Moves p.isThere t.result p.locks stage' p'.locks ∧
      p'.stages = before ++ stage' :: after ∧ p'.isThere = (p.isThere || stage.creates t.result) := by
  obtain ⟨stage, here, turn⟩ := Option.bind_eq_some_iff.1 turn
  obtain ⟨⟨stage', locks⟩, step, turn⟩ := Option.bind_eq_some_iff.1 turn
  cases turn
  obtain ⟨bound, rfl⟩ := List.getElem?_eq_some_iff.1 here
  refine ⟨p.stages.take t.fetch, p.stages[t.fetch], p.stages.drop (t.fetch + 1), stage', ?_, ?_, ?_, rfl⟩
  · rw [List.getElem_cons_drop, List.take_append_drop]
  · exact FetchStage.moves_of_step step
  · exact List.set_eq_take_append_cons_drop .. |>.trans (if_pos bound)

theorem Locking.initial (n : Nat) (isThere : Bool) : Locking (initial n isThere) := by
  constructor <;> simp [FetchPool.initial, FetchStage.heldLock?, FetchStage.lock?, FetchStage.found?]

theorem Locking.made_le (h : Locking p) (missing : p.isThere = false) : p.locks.made ≤ p.failures + 1 := by
  have removed : p.stages.countP (·.hasDelisted) ≤ p.failures := by
    refine List.countP_mono_left fun stage mem delisted => ?_
    have unfound := h.missing missing stage mem
    cases stage with
    | arriving | queued | locked | downloading | ended => cases delisted
    | delisted l found | left found => simpa [FetchStage.failed, FetchStage.found?] using unfound
  have one : p.locks.entry.toList.length ≤ 1 := by cases p.locks.entry <;> simp
  have made := h.made
  omega

theorem forall_of_changed (stage : FetchStage) {before after : List FetchStage} {stage' : FetchStage}
    {P : FetchStage → Prop} (all : ∀ other ∈ before ++ stage :: after, P other) (changed : P stage') :
    ∀ other ∈ before ++ stage' :: after, P other := by
  rw [List.forall_mem_append, List.forall_mem_cons] at all ⊢
  exact ⟨all.1, changed, all.2.2⟩

theorem failures_le_of_turn (turn : p.turn t = some p') : p.failures ≤ p'.failures := by
  obtain ⟨before, stage, after, stage', old, moves, new, -⟩ := exists_of_turn turn
  have here : (if stage.failed then 1 else 0) ≤ if stage'.failed then 1 else 0 := by
    split
    · rename_i failed
      exact Nat.le_of_eq (if_pos (failed_of_moves moves failed)).symm
    · exact Nat.zero_le _
  rw [failures, failures, old, new, List.countP_append, List.countP_append, List.countP_cons, List.countP_cons]
  omega

theorem Locking.turn (h : Locking p) (turn : p.turn t = some p') : Locking p' := by
  obtain ⟨before, stage, after, stage', old, moves, new, there⟩ := exists_of_turn turn
  have mem : stage ∈ p.stages := old ▸ List.mem_append_right _ List.mem_cons_self
  have taken := h.known stage mem
  have few := h.made_le
  have more := failures_le_of_turn turn
  obtain ⟨held, apart, known, listed, made, missing, early⟩ := h
  rw [old] at held known made missing early mem
  have knownNow := known_of_moves moves taken listed
  refine ⟨?_, nodup_of_moves moves apart, ?_, knownNow.2, ?_, ?_, ?_⟩ <;> rw [new]
  · exact held_of_moves moves held
  · refine forall_of_changed stage (fun other mem l taken => ?_) knownNow.1
    exact Nat.lt_of_lt_of_le (known other mem l taken) (made_le_of_moves moves)
  · rw [List.countP_append, List.countP_cons, ← Nat.add_assoc] at made ⊢
    exact made_of_moves moves made
  · intro still
    rw [there] at still
    have absent := (Bool.or_eq_false_iff.1 still).1
    exact forall_of_changed stage (missing absent) (missing_of_moves moves (fun _ => missing absent stage mem) still)
  · intro l begun
    refine forall_of_changed (P := fun other => other = .downloading l → l ≤ p'.failures) stage ?_ ?_ _ begun rfl
    · rintro _ mem rfl
      exact Nat.le_trans (early l mem) more
    · intro here
      -- the fetch finds the target missing, so all locks so far have been made after failures
      obtain ⟨absent, locked⟩ := downloading_of_moves moves here
      have made := few absent
      have own := taken l (by simp [locked, FetchStage.lock?])
      omega

theorem Locking.downloads_le (h : Locking p) : p.downloads ≤ p.failures + 1 := by
  let locks := (p.stages.filter (·.isDownloading)).filterMap (·.heldLock?)
  have count : locks.length = p.downloads := by
    rw [List.length_filterMap_eq_countP, List.countP_filter]
    refine List.countP_congr fun stage _ => ?_
    cases stage <;> simp [FetchStage.heldLock?, FetchStage.isDownloading]
  have nodup : locks.Nodup :=
    (h.held.nodup_iff.1 h.apart).sublist (List.filter_sublist.filterMap _)
  have first : locks ⊆ List.range (p.failures + 1) := by
    intro l mem
    obtain ⟨stage, mem, holds⟩ := List.mem_filterMap.1 mem
    obtain ⟨mem, downloading⟩ := List.mem_filter.1 mem
    cases stage with
    | downloading l' =>
      cases holds
      exact List.mem_range.2 (Nat.lt_succ_of_le (h.early _ mem))
    | arriving | queued | locked | ended | delisted | left => cases downloading
  have few := (List.subperm_of_subset nodup first).length_le
  rwa [count, List.length_range] at few

theorem Locking.run {schedule : List FetchTurn} (h : Locking p) (run : p.run schedule = some p') : Locking p' := by
  induction schedule generalizing p with
  | nil =>
    cases run
    exact h
  | cons t schedule ih =>
    obtain ⟨q, turn, run⟩ := Option.bind_eq_some_iff.1 run
    exact ih (h.turn turn) run

/-- However the steps of fetches interleave, at most one more download is being made than have failed. -/
theorem downloads_le_failures {n : Nat} {isThere : Bool} {schedule : List FetchTurn}
    (run : (initial n isThere).run schedule = some p) : p.downloads ≤ p.failures + 1 :=
  ((Locking.initial n isThere).run run).downloads_le

/-- The second fetch waits for the lock of the first one, whose download fails; the third one comes after the entry
has been removed. -/
def lateArrival : List FetchTurn :=
  [⟨0, none⟩, ⟨0, none⟩, ⟨0, none⟩, ⟨1, none⟩, ⟨0, some false⟩, ⟨0, none⟩, ⟨0, none⟩, ⟨1, none⟩, ⟨1, none⟩,
    ⟨2, none⟩, ⟨2, none⟩, ⟨2, none⟩]

theorem downloads_le_failures_of_late_arrival :
    (initial 3 false).run lateArrival =
        some ⟨[.left false, .downloading 0, .downloading 1], ⟨some 1, [1, 0], 2⟩, false⟩ ∧
      downloads ⟨[.left false, .downloading 0, .downloading 1], ⟨some 1, [1, 0], 2⟩, false⟩ ≤
        failures ⟨[.left false, .downloading 0, .downloading 1], ⟨some 1, [1, 0], 2⟩, false⟩ + 1 :=
  ⟨rfl, downloads_le_failures (rfl : (initial 3 false).run lateArrival = _)⟩

/-- A lock does not keep downloads apart when the entry that it was in is removed for all that wait for it. -/
theorem downloads_overlap_after_failure :
    ∃ p, (initial 3 false).run lateArrival = some p ∧ p.stages = [.left false, .downloading 0, .downloading 1] ∧
      p.downloads = 2 := ⟨_, rfl, rfl, rfl⟩

/-- The step of a fetch that has other fetches before it in the pool. -/
def later (n : Nat) (t : FetchTurn) : FetchTurn := { t with fetch := n + t.fetch }

def beside (others : List FetchStage) (p : FetchPool) : FetchPool := { p with stages := others ++ p.stages }

theorem turn_beside (others : List FetchStage) (p : FetchPool) (t : FetchTurn) :
    (p.beside others).turn (later others.length t) = (p.turn t).map (beside others) := by
  have here : (others ++ p.stages)[others.length + t.fetch]? = p.stages[t.fetch]? := by
    rw [List.getElem?_append_right (Nat.le_add_right _ _), Nat.add_sub_cancel_left]
  have changed (stage' : FetchStage) :
      (others ++ p.stages).set (others.length + t.fetch) stage' = others ++ p.stages.set t.fetch stage' := by
    rw [List.set_append_right _ _ (Nat.le_add_right _ _), Nat.add_sub_cancel_left]
  simp only [FetchPool.turn, beside, later, here, changed]
  cases p.stages[t.fetch]? with
  | none => rfl
  | some stage =>
    rw [Option.bind_eq_bind, Option.bind_eq_bind, Option.bind_some, Option.bind_some]
    cases stage.step p.isThere t.result p.locks with
    | none => rfl
    | some next => rfl

theorem run_append (p : FetchPool) (first second : List FetchTurn) :
    p.run (first ++ second) = (p.run first).bind (·.run second) := List.foldlM_append

theorem run_beside (others : List FetchStage) (p : FetchPool) (schedule : List FetchTurn) :
    (p.beside others).run (schedule.map (later others.length)) = (p.run schedule).map (beside others) := by
  induction schedule generalizing p with
  | nil => rfl
  | cons t schedule ih =>
    rw [run, List.map_cons, List.foldlM_cons, turn_beside, run, List.foldlM_cons]
    cases p.turn t with
    | none => rfl
    | some q => exact ih q

/-- A fetch comes while the entry is that of a download, which then fails; another one comes after it. -/
def round : List FetchTurn :=
  [⟨1, none⟩, ⟨0, some false⟩, ⟨0, none⟩, ⟨0, none⟩, ⟨1, none⟩, ⟨1, none⟩, ⟨2, none⟩, ⟨2, none⟩, ⟨2, none⟩]

theorem run_round {l made : Nat} {held : List Nat} (apart : held.Nodup) (known : ∀ l ∈ held, l < made)
    (new : l < made) (rest : List FetchStage) :
    run ⟨.downloading l :: .arriving :: .arriving :: rest, ⟨some l, held, made⟩, false⟩ round =
      some ⟨.left false :: .downloading l :: .downloading made :: rest,
        ⟨some made, made :: l :: held.erase l, made + 1⟩, false⟩ := by
  have free : l ∉ held.erase l := apart.not_mem_erase
  have fresh : ¬(made = l ∨ made ∈ held.erase l) := by
    rintro (rfl | mem)
    · exact Nat.lt_irrefl _ new
    · exact Nat.lt_irrefl _ (known _ (List.mem_of_mem_erase mem))
  simp [run, round, turn, FetchStage.step, FetchStage.creates, free, fresh]

/-- Fetches of which `k` have failed and one more is downloading, the last of them with the lock in the entry; others
have still to come. -/
theorem exists_rounds (k m : Nat) : ∃ schedule others l locks,
    (initial (1 + 2 * k + m) false).run schedule =
      some (beside others ⟨.downloading l :: List.replicate m .arriving, locks, false⟩) ∧
    locks.entry = some l ∧ others.countP (·.failed) = k ∧ others.countP (·.isDownloading) = k := by
  induction k generalizing m with
  | zero =>
    refine ⟨[⟨0, none⟩, ⟨0, none⟩, ⟨0, none⟩], [], 0, ⟨some 0, [0], 1⟩, ?_, rfl, rfl, rfl⟩
    rw [Nat.mul_zero, Nat.add_zero, Nat.add_comm]
    rfl
  | succ k ih =>
    obtain ⟨schedule, others, l, ⟨entry, held, made⟩, before, rfl, failed, downloading⟩ := ih (m + 2)
    have locking := (Locking.initial _ false).run before
    have known : ∀ l' ∈ held, l' < made := by
      intro l' mem
      obtain ⟨stage, mem, holds⟩ := List.mem_filterMap.1 (locking.held.mem_iff.1 mem)
      exact locking.known stage mem l' (FetchStage.lock?_of_heldLock? holds)
    have after := run_round locking.apart known (locking.listed l rfl) (List.replicate m .arriving)
    refine ⟨schedule ++ round.map (later others.length), others ++ [.left false, .downloading l], made,
      ⟨some made, made :: l :: held.erase l, made + 1⟩, ?_, rfl, ?_, ?_⟩
    · rw [run_append, show 1 + 2 * (k + 1) + m = 1 + 2 * k + (m + 2) by omega, before, Option.bind_some]
      refine (run_beside others _ round).trans ((congrArg _ after).trans ?_)
      simp [beside]
    · rw [List.countP_append, failed]
      rfl
    · rw [List.countP_append, downloading]
      rfl

theorem exists_run_of_failures (k : Nat) :
    ∃ n schedule p, (initial n false).run schedule = some p ∧ p.failures = k ∧ p.downloads = k + 1 := by
  obtain ⟨schedule, others, l, locks, run, -, failed, downloading⟩ := exists_rounds k 0
  refine ⟨_, schedule, _, run, ?_, ?_⟩
  · rw [failures, beside, List.countP_append, failed]
    rfl
  · rw [downloads, beside, List.countP_append, downloading]
    rfl

end FetchPool
end MigrationMining
