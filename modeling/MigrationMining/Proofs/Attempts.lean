import Mathlib.Data.Nat.Find
import Mathlib.Logic.Function.Iterate
import MigrationMining.Web.Retry

/-! Attempts that are repeated: the first outcome that is no transient failure is the answer, and no call is made after it,
unless as many calls as there may be fail before it. -/

namespace MigrationMining
namespace RetryPolicy

def isTransient {α : Type} : Except FetchFailure α → Bool
  | .ok _ => false
  | .error e => e.isTransient

section Calls

variable {σ α : Type} (attempt : StateM σ (Except FetchFailure α)) (s : σ)

def after (calls : Nat) : σ := (fun s => (attempt s).2)^[calls] s

def outcome (calls : Nat) : Except FetchFailure α := (attempt (after attempt s calls)).1

@[simp] theorem after_zero : after attempt s 0 = s := rfl

theorem after_succ (n : Nat) : after attempt s (n + 1) = (attempt (after attempt s n)).2 :=
  Function.iterate_succ_apply' _ n s

theorem after_succ_eq_after (n : Nat) : after attempt s (n + 1) = after attempt (attempt s).2 n := rfl

theorem outcome_succ (n : Nat) : outcome attempt s (n + 1) = outcome attempt (attempt s).2 n := rfl

end Calls

variable {σ α : Type} {attempt : StateM σ (Except FetchFailure α)} {s : σ} {url : String}

theorem attemptFrom_of_isTransient (transient : isTransient (attempt s).1) (left made : Nat) :
    attemptFrom url attempt (left + 1) made s = attemptFrom url attempt left (made + 1) (attempt s).2 := by
  change (match (attempt s).1 with
    | .ok a => pure (.ok a)
    | .error e => if e.isTransient then attemptFrom url attempt left (made + 1) else pure (.error e) :
      StateM σ (Except FetchFailure α)) (attempt s).2 = _
  cases given : (attempt s).1 with
  | ok a =>
    rw [given] at transient
    cases transient
  | error e =>
    rw [given] at transient
    exact congrFun (if_pos transient) _

theorem attemptFrom_of_not_isTransient (final : ¬ isTransient (attempt s).1) (left made : Nat) :
    attemptFrom url attempt (left + 1) made s = attempt s := by
  change (match (attempt s).1 with
    | .ok a => pure (.ok a)
    | .error e => if e.isTransient then attemptFrom url attempt left (made + 1) else pure (.error e) :
      StateM σ (Except FetchFailure α)) (attempt s).2 = ((attempt s).1, (attempt s).2)
  cases given : (attempt s).1 with
  | ok a => rfl
  | error e =>
    rw [given] at final
    exact congrFun (if_neg final) _

theorem attemptFrom_add {n : Nat} (transient : ∀ i < n, isTransient (outcome attempt s i)) (left made : Nat) :
    attemptFrom url attempt (n + left) made s = attemptFrom url attempt left (made + n) (after attempt s n) := by
  induction n generalizing s made with
  | zero => rw [Nat.zero_add, Nat.add_zero, after_zero]
  | succ n ih =>
    have first : isTransient (attempt s).1 := transient 0 (Nat.succ_pos n)
    have later : ∀ i < n, isTransient (outcome attempt (attempt s).2 i) := by
      intro i lt
      rw [← outcome_succ]
      exact transient (i + 1) (Nat.succ_lt_succ lt)
    rw [Nat.succ_add, attemptFrom_of_isTransient first, ih later, after_succ_eq_after, Nat.add_right_comm, Nat.add_assoc]

section Run

variable (p : RetryPolicy) (url : String)

theorem run_of_final {k : Nat} (transient : ∀ i < k, isTransient (outcome attempt s i))
    (final : ¬ isTransient (outcome attempt s k)) (allowed : k < p.limit) :
    p.run url attempt s = (outcome attempt s k, after attempt s (k + 1)) := by
  obtain ⟨left, all⟩ : ∃ left, p.limit = k + (left + 1) := ⟨p.limit - k - 1, by omega⟩
  rw [run, all, attemptFrom_add transient, attemptFrom_of_not_isTransient final, after_succ]
  rfl

theorem run_of_isTransient (transient : ∀ i < p.limit, isTransient (outcome attempt s i)) :
    p.run url attempt s = (.error (.exhausted url p.limit), after attempt s p.limit) := by
  have none_left : attemptFrom url attempt (p.limit + 0) 0 s = _ := attemptFrom_add transient 0 0
  rw [Nat.add_zero, Nat.zero_add] at none_left
  exact none_left

theorem run_cases (attempt : StateM σ (Except FetchFailure α)) (s : σ) :
    (∃ k < p.limit, (∀ i < k, isTransient (outcome attempt s i)) ∧ ¬ isTransient (outcome attempt s k) ∧
      p.run url attempt s = attempt (after attempt s k)) ∨
    (∀ i < p.limit, isTransient (outcome attempt s i)) ∧
      p.run url attempt s = (.error (.exhausted url p.limit), after attempt s p.limit) := by
  by_cases final : ∃ k, ¬ isTransient (outcome attempt s k)
  · have first : ∀ i < Nat.find final, isTransient (outcome attempt s i) := by
      intro i lt
      simpa using Nat.find_min final lt
    by_cases allowed : Nat.find final < p.limit
    · refine .inl ⟨Nat.find final, allowed, first, Nat.find_spec final, ?_⟩
      rw [run_of_final p url first (Nat.find_spec final) allowed, after_succ]
      rfl
    · have all : ∀ i < p.limit, isTransient (outcome attempt s i) := fun i lt => first i (by omega)
      exact .inr ⟨all, run_of_isTransient p url all⟩
  · have all : ∀ i < p.limit, isTransient (outcome attempt s i) := by
      intro i _
      simpa using not_exists.1 final i
    exact .inr ⟨all, run_of_isTransient p url all⟩

end Run

/-- An attempt whose calls have the outcomes of a sequence; the state counts the calls. -/
def scripted (outcomes : Nat → Except FetchFailure α) : StateM Nat (Except FetchFailure α) := fun calls =>
  (outcomes calls, calls + 1)

theorem after_scripted (outcomes : Nat → Except FetchFailure α) (n : Nat) : after (scripted outcomes) 0 n = n := by
  induction n with
  | zero => rfl
  | succ n ih => rw [after_succ, ih, scripted]

theorem outcome_scripted (outcomes : Nat → Except FetchFailure α) (n : Nat) :
    outcome (scripted outcomes) 0 n = outcomes n := by
  rw [outcome, after_scripted, scripted]

theorem limit_of_cap {p : RetryPolicy} {m : Nat} (cap : p.maxAttempts = some m) : p.limit = max m 1 := by
  rw [limit, cap, Option.getD_some]

/-- Let the outcomes before a call be transient failures and its own be none. Without a cap, or with a cap that the call
does not exceed, it is the last call and its outcome the answer. With a smaller cap as many calls are made as it says, at
least one, and the answer is that they are exhausted. No call comes after one without a transient failure. -/
theorem run_of_first_final (p : RetryPolicy) (url : String) {outcomes : Nat → Except FetchFailure α} {k : Nat}
    (before : ∀ i < k, isTransient (outcomes i)) (final : ¬ isTransient (outcomes k)) (few : k < Nat.pow 2 32) :
    ((∀ m, p.maxAttempts = some m → k + 1 ≤ max m 1) → p.run url (scripted outcomes) 0 = (outcomes k, k + 1)) ∧
    (∀ m, p.maxAttempts = some m → max m 1 < k + 1 →
      p.run url (scripted outcomes) 0 = (.error (.exhausted url (max m 1)), max m 1)) ∧
    (p.run url (scripted outcomes) 0).2 ≤ k + 1 := by
  simp only [← outcome_scripted outcomes] at before final
  have allowed (within : k < p.limit) : p.run url (scripted outcomes) 0 = (outcomes k, k + 1) := by
    rw [run_of_final p url before final within, outcome_scripted, after_scripted]
  have refused (beyond : p.limit ≤ k) :
      p.run url (scripted outcomes) 0 = (.error (.exhausted url p.limit), p.limit) := by
    rw [run_of_isTransient p url fun i lt => before i (by omega), after_scripted]
  refine ⟨fun within => allowed ?_, fun m cap beyond => ?_, ?_⟩
  · cases cap : p.maxAttempts with
    | none =>
      rw [limit, cap]
      exact Nat.lt_of_lt_of_le few (Nat.le_max_left _ _)
    | some m =>
      rw [limit_of_cap cap]
      exact within m cap
  · rw [← limit_of_cap cap] at beyond ⊢
    exact refused (Nat.le_of_lt_succ beyond)
  · by_cases within : k < p.limit
    · exact Nat.le_of_eq (congrArg Prod.snd (allowed within))
    · rw [refused (Nat.le_of_not_lt within)]
      exact Nat.le_succ_of_le (Nat.le_of_not_lt within)

/-- Two transient failures and then a success: the third call is the last one with a cap of three, and is not made with a
cap of two. -/
theorem run_of_third_call :
    let outcomes : Nat → Except FetchFailure Nat := fun i => if i < 2 then .error (.transient "u" "429") else .ok 7
    run ⟨0, some 3⟩ "u" (scripted outcomes) 0 = (.ok 7, 3) ∧
      run ⟨0, some 2⟩ "u" (scripted outcomes) 0 = (.error (.exhausted "u" 2), 2) := by
  intro outcomes
  have before : ∀ i < 2, isTransient (outcomes i) := by decide
  have final : ¬ isTransient (outcomes 2) := by decide
  refine ⟨(run_of_first_final ⟨0, some 3⟩ "u" before final (by decide)).1 ?_,
    (run_of_first_final ⟨0, some 2⟩ "u" before final (by decide)).2.1 2 rfl (by decide)⟩
  intro m cap
  cases cap
  decide

end RetryPolicy
end MigrationMining
