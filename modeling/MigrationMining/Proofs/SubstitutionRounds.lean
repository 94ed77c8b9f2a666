import Mathlib.Logic.Function.Iterate
import MigrationMining.Proofs.Placeholders

/-! How many rounds of substitution a text takes until nothing in it begins a placeholder, and how many it is given: a
text resolves if and only if it settles within seven rounds. -/

namespace MigrationMining
namespace Pom

variable {ps : Properties} {cs r : List Char} {k l rounds : Nat}

/-- The text after `k` rounds, in each of which all placeholders are replaced at once. -/
def afterRounds (ps : Properties) (k : Nat) (cs : List Char) : List Char := (expand ps)^[k] cs

theorem afterRounds_succ : afterRounds ps (k + 1) cs = afterRounds ps k (expand ps cs) :=
  Function.iterate_succ_apply _ _ _

/-- It takes `k` rounds, all of which meet known names only, until nothing in the text begins a placeholder. -/
structure SettlesAfter (ps : Properties) (k : Nat) (cs : List Char) : Prop where
  known : ∀ j < k, ∀ name ∈ placeholders (afterRounds ps j cs), (ps.get? name).isSome
  more : ∀ j < k, hasPlaceholder (afterRounds ps j cs) = true
  plain : hasPlaceholder (afterRounds ps k cs) = false

theorem settlesAfter_zero_iff : SettlesAfter ps 0 cs ↔ hasPlaceholder cs = false :=
  ⟨SettlesAfter.plain, fun plain => ⟨by simp, by simp, plain⟩⟩

theorem settlesAfter_succ_iff : SettlesAfter ps (k + 1) cs ↔
    (∀ name ∈ placeholders cs, (ps.get? name).isSome) ∧ hasPlaceholder cs = true ∧
      SettlesAfter ps k (expand ps cs) := by
  constructor
  · intro settles
    refine ⟨settles.known 0 k.succ_pos, settles.more 0 k.succ_pos, ?_, ?_, ?_⟩
    · intro j before
      rw [← afterRounds_succ]
      exact settles.known (j + 1) (Nat.succ_lt_succ before)
    · intro j before
      rw [← afterRounds_succ]
      exact settles.more (j + 1) (Nat.succ_lt_succ before)
    · rw [← afterRounds_succ]
      exact settles.plain
  · rintro ⟨known, more, settles⟩
    refine ⟨fun j before => ?_, fun j before => ?_, ?_⟩
    · cases j with
      | zero => exact known
      | succ j =>
        rw [afterRounds_succ]
        exact settles.known j (Nat.lt_of_succ_lt_succ before)
    · cases j with
      | zero => exact more
      | succ j =>
        rw [afterRounds_succ]
        exact settles.more j (Nat.lt_of_succ_lt_succ before)
    · rw [afterRounds_succ]
      exact settles.plain

theorem SettlesAfter.eq (settles : SettlesAfter ps k cs) (settles' : SettlesAfter ps l cs) : k = l := by
  have le {i j : Nat} (first : SettlesAfter ps i cs) (second : SettlesAfter ps j cs) : j ≤ i := by
    by_contra later
    have more := second.more i (by omega)
    rw [first.plain] at more
    cases more
  exact Nat.le_antisymm (le settles' settles) (le settles settles')

/-- A text with placeholders settles where it settles after its first round, which meets known names only. -/
theorem exists_settlesAfter_succ_iff (more : hasPlaceholder cs = true) :
    (∃ k < rounds + 1, SettlesAfter ps k cs ∧ afterRounds ps k cs = r) ↔
      (∀ name ∈ placeholders cs, (ps.get? name).isSome) ∧
        ∃ k < rounds, SettlesAfter ps k (expand ps cs) ∧ afterRounds ps k (expand ps cs) = r := by
  constructor
  · rintro ⟨k, within, settles, reached⟩
    cases k with
    | zero =>
      rw [settlesAfter_zero_iff, more] at settles
      cases settles
    | succ k =>
      obtain ⟨known, -, settles⟩ := settlesAfter_succ_iff.1 settles
      rw [afterRounds_succ] at reached
      exact ⟨known, k, Nat.lt_of_succ_lt_succ within, settles, reached⟩
  · rintro ⟨known, k, within, settles, reached⟩
    refine ⟨k + 1, Nat.succ_lt_succ within, settlesAfter_succ_iff.2 ⟨known, more, settles⟩, ?_⟩
    rw [afterRounds_succ, reached]

/-- The text is looked at before each round, so that `rounds` looks see the texts after fewer than `rounds` rounds. -/
theorem resolveWithin_eq_some_iff :
    resolveWithin ps rounds cs = some r ↔ ∃ k < rounds, SettlesAfter ps k cs ∧ afterRounds ps k cs = r := by
  induction rounds generalizing cs with
  | zero => simp [resolveWithin]
  | succ rounds ih =>
    cases more : hasPlaceholder cs with
    | false =>
      have settled : SettlesAfter ps 0 cs := settlesAfter_zero_iff.2 more
      rw [resolveWithin_of_plain more, Option.some_inj]
      constructor
      · exact fun same => ⟨0, rounds.succ_pos, settled, same⟩
      · rintro ⟨k, -, settles, reached⟩
        obtain rfl := settles.eq settled
        exact reached
    | true =>
      rw [resolveWithin_of_placeholder more, exists_settlesAfter_succ_iff more]
      by_cases known : ∀ name ∈ placeholders cs, (ps.get? name).isSome
      · rw [substitute_eq_expand known, Option.bind_some, ih, and_iff_right known]
      · -- a name that is not known ends the first round
        have unknown := known
        push Not at unknown
        obtain ⟨name, mem, missing⟩ := unknown
        rw [substitute_eq_none mem (by simpa using missing), Option.bind_none]
        exact iff_of_false (Option.some_ne_none r).symm fun settles => known settles.1

/-- A text resolves if and only if it settles within seven rounds, to the text it settles at. So what settles within
eight rounds resolves exactly if it does not take all of them: the text is not looked at after the eighth. -/
theorem resolve_eq_some_iff_settlesAfter (ps : Properties) (cs : List Char) :
    (∀ r, resolve ps cs = some r ↔ ∃ k ≤ 7, SettlesAfter ps k cs ∧ afterRounds ps k cs = r) ∧
    ((∀ r, resolve ps cs = some r ↔ ∃ k ≤ 8, SettlesAfter ps k cs ∧ afterRounds ps k cs = r) ↔
      ¬ SettlesAfter ps 8 cs) := by
  have resolves (r : List Char) :
      resolve ps cs = some r ↔ ∃ k ≤ 7, SettlesAfter ps k cs ∧ afterRounds ps k cs = r := by
    rw [resolve, resolveWithin_eq_some_iff]
    simp only [Nat.lt_succ_iff]
  refine ⟨resolves, fun effective settles => ?_, fun early r => ?_⟩
  · -- the text after the eighth round would have to be resolved within seven
    obtain ⟨k, within, settles', -⟩ := (resolves _).1 ((effective _).2 ⟨8, le_rfl, settles, rfl⟩)
    have := settles.eq settles'
    omega
  · rw [resolves]
    constructor
    · rintro ⟨k, within, settles, reached⟩
      exact ⟨k, by omega, settles, reached⟩
    · rintro ⟨k, within, settles, reached⟩
      have before : k ≠ 8 := fun last => early (last ▸ settles)
      exact ⟨k, by omega, settles, reached⟩

/-- Eight properties, each of which names the next one, up to the last. -/
def chainOfEight : Properties :=
  [(['a'], "${b}".toList), (['b'], "${c}".toList), (['c'], "${d}".toList), (['d'], "${e}".toList),
    (['e'], "${f}".toList), (['f'], "${g}".toList), (['g'], "${h}".toList), (['h'], ['1'])]

/-- The whole chain takes eight rounds and does not resolve, while without its first link it does. -/
theorem resolve_of_chainOfEight :
    SettlesAfter chainOfEight 8 "${a}".toList ∧ afterRounds chainOfEight 8 "${a}".toList = ['1'] ∧
      resolve chainOfEight "${a}".toList = none ∧
    SettlesAfter chainOfEight 7 "${b}".toList ∧ resolve chainOfEight "${b}".toList = some ['1'] := by
  refine ⟨⟨?_, ?_, ?_⟩, ?_, ?_, ⟨?_, ?_, ?_⟩, ?_⟩ <;> decide +kernel

end Pom
end MigrationMining
