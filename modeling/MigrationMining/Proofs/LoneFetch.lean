import Mathlib.Logic.Relation
import MigrationMining.Proofs.ServiceTrace
import MigrationMining.Repository.Inflight

/-! A fetch whose lock no other fetch holds goes on, turn by turn, to the answer of `Repository.archive`. -/

namespace MigrationMining
open Services (bind_run_eq_iff)

theorem RetryPolicy.attemptFrom_succ {σ α : Type} (p : RetryPolicy) (url : String)
    (attempt : StateM σ (Except FetchFailure α)) {left made : Nat} (all : left + 1 + made = p.limit) (w : σ) :
    attemptFrom url attempt (left + 1) made w =
      match p.settled? url (made + 1) (attempt w).1 with
      | some outcome => (outcome, (attempt w).2)
      | none => attemptFrom url attempt left (made + 1) (attempt w).2 := by
  rw [attemptFrom]
  refine bind_run_eq_iff.2 ⟨(attempt w).1, (attempt w).2, rfl, ?_⟩
  cases (attempt w).1 with
  | ok a => rfl
  | error e =>
    by_cases transient : e.isTransient
    · simp only [settled?, transient, if_true, Bool.not_true, Bool.false_eq_true, if_false]
      cases left with
      | zero =>
        rw [if_pos (by omega)]
        rfl
      | succ left => rw [if_neg (by omega)]
    · simp only [settled?, transient, Bool.not_false, if_true, Bool.false_eq_true, if_false]
      rfl

theorem RetryPolicy.limit_pos (p : RetryPolicy) : 0 < p.limit :=
  Nat.lt_of_lt_of_le Nat.zero_lt_one (Nat.le_max_right _ _)

theorem RetryPolicy.lt_limit_of_unsettled {α : Type} {p : RetryPolicy} {url : String} {made : Nat}
    {attempted : Except FetchFailure α} (unsettled : p.settled? url made attempted = none) : made < p.limit := by
  cases attempted with
  | ok a => cases unsettled
  | error e =>
    rw [settled?] at unsettled
    split at unsettled
    · cases unsettled
    · split at unsettled
      · cases unsettled
      · omega

@[simp] theorem FetchWorld.locks_withLocks (v : FetchWorld) (target : Path) (locks : TargetLocks) :
    (v.withLocks target locks).locks target = locks := by
  simp [FetchWorld.locks, withLocks]

namespace Repository

def finish (target part : Path) : Except FetchFailure Nat → StateM World (Except FetchFailure Nat)
  | .ok size => Fetch.install part target size
  | .error e => do
    Fetch.discard part
    return .error e

def found (c : Coordinate) (target : Path) : Except FetchFailure Nat → StateM World (Option Path)
  | .ok _ => return some target
  | .error e => do
    World.report (e.diagnostic c.text)
    return none

theorem downloadTurn_of_settled {r : Repository} {c : Coordinate} {target : Path} {d : Download} {w v : World}
    {attempted outcome : Except FetchFailure Nat}
    (attempt : Fetch.downloadOnce r.client (Layout.fileUrl r.url c "jar") d.part w = (attempted, v))
    (settled : r.policy.settled? (Layout.fileUrl r.url c "jar") (d.made + 1) attempted = some outcome) :
    r.downloadTurn c target (some d) w =
      (.inl (finish target d.part outcome v).1, (finish target d.part outcome v).2) := by
  refine bind_run_eq_iff.2 ⟨attempted, v, attempt, ?_⟩
  rw [settled]
  cases outcome <;> rfl

theorem downloadTurn_of_unsettled {r : Repository} {c : Coordinate} {target : Path} {d : Download} {w v : World}
    {attempted : Except FetchFailure Nat}
    (attempt : Fetch.downloadOnce r.client (Layout.fileUrl r.url c "jar") d.part w = (attempted, v))
    (unsettled : r.policy.settled? (Layout.fileUrl r.url c "jar") (d.made + 1) attempted = none) :
    r.downloadTurn c target (some d) w = (.inr { d with made := d.made + 1 }, v) := by
  refine bind_run_eq_iff.2 ⟨attempted, v, attempt, ?_⟩
  rw [unsettled]
  rfl

end Repository

namespace ArchiveFetch

/-- Turns of a fetch, one after the other, while no other fetch has one. -/
def Turns (r : Repository) : ArchiveFetch × FetchWorld → ArchiveFetch × FetchWorld → Prop :=
  Relation.ReflTransGen fun a b => a.1.turn r a.2 = b

/-- A fetch leaves with an answer, and with it the world is left in some state. -/
def Leaves (r : Repository) (f : ArchiveFetch) (v : FetchWorld) (answer : Option Path) (w : World) : Prop :=
  ∃ f' v', Turns r (f, v) (f', v') ∧ f'.outcome? = some answer ∧ v'.world = w

variable {r : Repository} {f : ArchiveFetch} {v : FetchWorld} {l : Nat}

theorem Leaves.head {f' : ArchiveFetch} {v' : FetchWorld} {answer : Option Path} {w : World}
    (turn : f.turn r v = (f', v')) (leaves : Leaves r f' v' answer w) : Leaves r f v answer w := by
  obtain ⟨f'', v'', turns, out⟩ := leaves
  exact ⟨f'', v'', .head turn turns, out⟩

theorem leaves_of_ended {found : Bool} (stage : f.stage = .ended l found) :
    Leaves r f v (if found then some f.target else none) v.world := by
  obtain ⟨c, root, _, download⟩ := f
  cases stage
  exact .head rfl (.head rfl ⟨_, _, .refl, rfl, rfl⟩)

theorem leaves_of_step {stage : FetchStage} {locks : TargetLocks} {answer : Option Path} {w : World}
    (idle : ∀ l, f.stage ≠ .downloading l)
    (step : f.stage.step (v.world.files.exists? f.target) none (v.locks f.target) = some (stage, locks))
    (leaves : Leaves r { f with stage } (v.withLocks f.target locks) answer w) : Leaves r f v answer w := by
  have turned : f.goOn r v.world = ((none, f.download), v.world) := by
    rw [goOn]
    cases here : f.stage with
    | downloading l => exact absurd here (idle l)
    | arriving | queued | locked | ended | delisted | left => rfl
  refine leaves.head ?_
  rw [turn, turned]
  simp only
  rw [step]

theorem leaves_of_goes_on {d : Download} {w w' : World} {answer : Option Path} (stage : f.stage = .downloading l)
    (goesOn : r.downloadTurn f.release f.target f.download v.world = (.inr d, w))
    (leaves : Leaves r { f with download := some d } { v with world := w } answer w') : Leaves r f v answer w' := by
  have turned : f.goOn r v.world = ((none, some d), w) := by
    rw [goOn, stage]
    exact bind_run_eq_iff.2 ⟨.inr d, w, goesOn, rfl⟩
  refine leaves.head ?_
  rw [turn, turned, stage]
  rfl

theorem leaves_of_result {found : Bool} {download : Option Download} {w : World} (stage : f.stage = .downloading l)
    (turned : f.goOn r v.world = ((some found, download), w)) :
    Leaves r f v (if found then some f.target else none) w := by
  have ended := leaves_of_ended (r := r) (f := { f with stage := .ended l found, download })
    (v := { v with world := w }.withLocks f.target (v.locks f.target)) rfl
  refine ended.head ?_
  rw [turn, turned, stage]
  rfl

theorem leaves_of_ends {outcome : Except FetchFailure Nat} {w w' : World} {answer : Option Path}
    (stage : f.stage = .downloading l)
    (ends : r.downloadTurn f.release f.target f.download v.world = (.inl outcome, w))
    (found : Repository.found f.release f.target outcome w = (answer, w')) : Leaves r f v answer w' := by
  cases outcome with
  | ok size =>
    have turned : f.goOn r v.world = ((some true, f.download), w) := by
      rw [goOn, stage]
      exact bind_run_eq_iff.2 ⟨_, w, ends, rfl⟩
    cases found
    exact leaves_of_result stage turned
  | error e =>
    have turned : f.goOn r v.world =
        ((some false, f.download), (World.report (e.diagnostic f.release.text) w).2) := by
      rw [goOn, stage]
      exact bind_run_eq_iff.2 ⟨_, w, ends, rfl⟩
    cases found
    exact leaves_of_result stage turned

/-- The answer to a fetch, and the world after it, once the last attempt of its download has been made. -/
def Concludes (c : Coordinate) (target part : Path) (outcome : Except FetchFailure Nat) (w : World)
    (answer : Option Path) (w' : World) : Prop :=
  (do Repository.found c target (← Repository.finish target part outcome)) w = (answer, w')

theorem leaves_of_settled {d : Download} {attempted outcome : Except FetchFailure Nat} {w w' : World}
    {answer : Option Path} (stage : f.stage = .downloading l) (download : f.download = some d)
    (attempt : Fetch.downloadOnce r.client (Layout.fileUrl r.url f.release "jar") d.part v.world = (attempted, w))
    (settled : r.policy.settled? (Layout.fileUrl r.url f.release "jar") (d.made + 1) attempted = some outcome)
    (concludes : Concludes f.release f.target d.part outcome w answer w') : Leaves r f v answer w' := by
  obtain ⟨finished, u, finish, found⟩ := bind_run_eq_iff.1 concludes
  refine leaves_of_ends stage ?_ found
  rw [download, Repository.downloadTurn_of_settled attempt settled, finish]

theorem leaves_of_downloading {left : Nat} {d : Download} {outcome : Except FetchFailure Nat} {w w' : World}
    {answer : Option Path} (stage : f.stage = .downloading l) (download : f.download = some d)
    (some_left : 0 < left) (all : left + d.made = r.policy.limit)
    (attempts : RetryPolicy.attemptFrom (Layout.fileUrl r.url f.release "jar")
      (Fetch.downloadOnce r.client (Layout.fileUrl r.url f.release "jar") d.part) left d.made v.world = (outcome, w))
    (concludes : Concludes f.release f.target d.part outcome w answer w') : Leaves r f v answer w' := by
  induction left generalizing f v d with
  | zero => exact absurd some_left (Nat.lt_irrefl 0)
  | succ left ih =>
    rw [RetryPolicy.attemptFrom_succ r.policy _ _ all] at attempts
    rcases attempt : Fetch.downloadOnce r.client (Layout.fileUrl r.url f.release "jar") d.part v.world with ⟨attempted, u⟩
    rw [attempt] at attempts
    split at attempts
    · rename_i settled
      cases attempts
      exact leaves_of_settled stage download attempt settled concludes
    · rename_i unsettled
      have goesOn : r.downloadTurn f.release f.target (some d) v.world = _ :=
        Repository.downloadTurn_of_unsettled attempt unsettled
      rw [← download] at goesOn
      have more := RetryPolicy.lt_limit_of_unsettled unsettled
      refine leaves_of_goes_on stage goesOn (ih stage rfl ?_ ?_ attempts concludes)
      · omega
      · show left + (d.made + 1) = _
        omega

theorem leaves_of_missing {outcome : Except FetchFailure Nat} {answer : Option Path} {u w : World}
    (stage : f.stage = .downloading l) (fresh : f.download = none)
    (download : r.downloadArchive f.release f.target v.world = (outcome, u))
    (found : Repository.found f.release f.target outcome u = (answer, w)) : Leaves r f v answer w := by
  obtain ⟨made, u₁, directories, download⟩ := bind_run_eq_iff.1 download
  cases made with
  | error e =>
    cases download
    refine leaves_of_ends stage ?_ found
    rw [fresh]
    exact bind_run_eq_iff.2 ⟨_, _, directories, rfl⟩
  | ok made =>
    obtain ⟨_, _, got, download⟩ := bind_run_eq_iff.1 download
    cases got
    obtain ⟨_, u₂, modified, download⟩ := bind_run_eq_iff.1 download
    obtain ⟨attempted, u₃, attempts, download⟩ := bind_run_eq_iff.1 download
    have begun : r.downloadTurn f.release f.target f.download v.world =
        (.inr { part := Fetch.scratch f.target u₁.process u₁.downloads }, u₂) := by
      rw [fresh]
      refine bind_run_eq_iff.2 ⟨_, u₁, directories, ?_⟩
      exact bind_run_eq_iff.2 ⟨_, u₁, rfl, bind_run_eq_iff.2 ⟨_, u₂, modified, rfl⟩⟩
    have concludes : Concludes f.release f.target (Fetch.scratch f.target u₁.process u₁.downloads) attempted u₃ answer w := by
      refine bind_run_eq_iff.2 ⟨outcome, u, ?_, found⟩
      cases attempted <;> exact download
    refine leaves_of_goes_on stage begun ?_
    exact leaves_of_downloading stage rfl r.policy.limit_pos (Nat.add_zero _) attempts concludes

theorem leaves_of_locked (stage : f.stage = .locked l) (fresh : f.download = none) {answer : Option Path} {w : World}
    (archive : r.archive f.release f.root v.world = (answer, w)) : Leaves r f v answer w := by
  have idle : ∀ l, f.stage ≠ .downloading l := by simp [stage]
  obtain ⟨_, _, got, archive⟩ := bind_run_eq_iff.1 archive
  cases got
  split at archive
  · rename_i present
    have step : f.stage.step (v.world.files.exists? f.target) none (v.locks f.target) =
        some (.ended l true, v.locks f.target) := by
      rw [stage, FetchStage.step, target, if_pos present]
    cases archive
    exact leaves_of_step idle step (leaves_of_ended (f := { f with stage := .ended l true }) rfl)
  · rename_i missing
    have step : f.stage.step (v.world.files.exists? f.target) none (v.locks f.target) =
        some (.downloading l, v.locks f.target) := by
      rw [stage, FetchStage.step, target, if_neg missing]
    obtain ⟨outcome, u, download, found⟩ := bind_run_eq_iff.1 archive
    refine leaves_of_step idle step (leaves_of_missing (f := { f with stage := .downloading l }) rfl fresh download ?_)
    cases outcome <;> exact found

theorem leaves_of_queued (stage : f.stage = .queued l) (free : (v.locks f.target).held = []) (fresh : f.download = none)
    {answer : Option Path} {w : World} (archive : r.archive f.release f.root v.world = (answer, w)) :
    Leaves r f v answer w := by
  have step : f.stage.step (v.world.files.exists? f.target) none (v.locks f.target) =
      some (.locked l, { v.locks f.target with held := [l] }) := by
    rw [stage, FetchStage.step, free]
    rfl
  exact leaves_of_step (by simp [stage]) step (leaves_of_locked (f := { f with stage := .locked l }) rfl fresh archive)

/-- A fetch that nobody keeps from its lock comes to the answer of `Repository.archive`, and leaves the world in the
state that this leaves. -/
theorem leaves_of_archive {c : Coordinate} {root : Path} {answer : Option Path} {w : World}
    (free : (v.locks (Layout.archivePath root c "jar")).held = [])
    (archive : r.archive c root v.world = (answer, w)) : Leaves r { release := c, root } v answer w := by
  let f : ArchiveFetch := { release := c, root }
  have queued : ∃ l locks,
      f.stage.step (v.world.files.exists? f.target) none (v.locks f.target) = some (.queued l, locks) ∧
        locks.held = [] := by
    rw [FetchStage.step]
    split
    · exact ⟨_, _, rfl, free⟩
    · exact ⟨_, _, rfl, free⟩
  obtain ⟨l, locks, step, free⟩ := queued
  have still := (congrArg TargetLocks.held (FetchWorld.locks_withLocks v f.target locks)).trans free
  exact leaves_of_step (by simp) step (leaves_of_queued (f := { f with stage := .queued l }) rfl still rfl archive)

end ArchiveFetch
end MigrationMining
