import MigrationMining.Proofs.FirstMention
import MigrationMining.UsagePage

/-! Walking the pages of a usage listing whose pages do not change: which pages are asked for, and what each of them
adds to those before it. -/

namespace MigrationMining

section Notes

variable {σ δ α β : Type} {inv : σ → Prop} {log : σ → List δ}

/-- A run that gives `a` and adds `notes` to a log, in every state in which `inv` holds, and leaves such a state. -/
def Gives (inv : σ → Prop) (log : σ → List δ) (m : StateM σ α) (a : α) (notes : List δ) : Prop :=
  ∀ s, inv s → (m s).1 = a ∧ log (m s).2 = log s ++ notes ∧ inv (m s).2

namespace Gives

theorem pure (a : α) : Gives inv log (Pure.pure a) a [] := fun _ holds => ⟨rfl, (List.append_nil _).symm, holds⟩

theorem bind {m : StateM σ α} {f : α → StateM σ β} {a : α} {b : β} {notes more : List δ}
    (first : Gives inv log m a notes) (rest : Gives inv log (f a) b more) :
    Gives inv log (m >>= f) b (notes ++ more) := by
  intro s holds
  obtain ⟨given, noted, holds⟩ := first s holds
  obtain ⟨given', noted', holds'⟩ := rest (m s).2 holds
  change (f (m s).1 (m s).2).1 = b ∧ log (f (m s).1 (m s).2).2 = _ ∧ inv (f (m s).1 (m s).2).2
  rw [given]
  exact ⟨given', by rw [noted', noted, List.append_assoc], holds'⟩

end Gives

end Notes

namespace UsagePage

section Pages

variable (p : Nat → List Project)

def listed (pages : Nat) : List Project := (List.range' 1 pages).flatMap p

def added (page : Nat) : List Project := (distinct (p page)).filter (· ∉ listed p (page - 1))

/-- The first page that adds no client: it is empty, or all its clients are on pages before it. -/
structure IsLastPage (n : Nat) : Prop where
  pos : 1 ≤ n
  stale : ∀ c ∈ p n, c ∈ listed p (n - 1)
  first : ∀ k, 1 ≤ k → k < n → ∃ c ∈ p k, c ∉ listed p (k - 1)

variable {p}

@[simp] theorem mem_listed {n : Nat} {c : Project} : c ∈ listed p n ↔ ∃ k, 1 ≤ k ∧ k ≤ n ∧ c ∈ p k := by
  simp only [listed, List.mem_flatMap, List.mem_range'_1]
  constructor
  · rintro ⟨k, ⟨pos, lt⟩, mem⟩
    exact ⟨k, pos, by omega, mem⟩
  · rintro ⟨k, pos, le, mem⟩
    exact ⟨k, ⟨pos, by omega⟩, mem⟩

theorem listed_succ (n : Nat) : listed p (n + 1) = listed p n ++ p (n + 1) := by
  rw [listed, List.range'_1_concat, List.flatMap_append, List.flatMap_singleton, Nat.add_comm 1 n, listed]

theorem added_ne_nil_iff {page : Nat} : added p page ≠ [] ↔ ∃ c ∈ p page, c ∉ listed p (page - 1) := by
  simp [added, List.filter_eq_nil_iff, -mem_listed]

theorem flatMap_added (n : Nat) : (List.range' 1 n).flatMap (added p) = distinct (listed p n) := by
  induction n with
  | zero => rfl
  | succ n ih =>
    rw [List.range'_1_concat, List.flatMap_append, ih, List.flatMap_singleton, listed_succ, distinct_append, added,
      Nat.add_comm 1 n, Nat.add_sub_cancel]

theorem fresh_eq_added {seen : List Project} {n : Nat} (known : ∀ c, c ∈ seen ↔ c ∈ listed p n) :
    fresh seen (p (n + 1)) = added p (n + 1) := by
  have same (seen xs : List Project) : fresh seen xs = MigrationMining.fresh seen xs := by
    induction xs generalizing seen with
    | nil => rfl
    | cons x xs ih => rw [fresh, MigrationMining.fresh, ih, ih]
  rw [same, MigrationMining.fresh_eq, added, Nat.add_sub_cancel]
  simp only [known]

namespace IsLastPage

variable {n : Nat} (last : IsLastPage p n)

include last

theorem added_eq_nil : added p n = [] := by
  by_contra new
  obtain ⟨c, mem, unseen⟩ := added_ne_nil_iff.1 new
  exact unseen (last.stale c mem)

theorem flatMap_added : (List.range' 1 (n - 1)).flatMap (added p) = distinct (listed p n) := by
  obtain ⟨k, rfl⟩ : ∃ k, n = k + 1 := ⟨n - 1, by have := last.pos; omega⟩
  rw [← UsagePage.flatMap_added, List.range'_1_concat, List.flatMap_append, List.flatMap_singleton, Nat.add_comm 1 k,
    last.added_eq_nil, List.append_nil, Nat.add_sub_cancel]

end IsLastPage

end Pages

section Walk

variable {σ δ α : Type} {inv : σ → Prop} {log : σ → List δ} {fetch : Nat → StateM σ (List Project)}
  {visit : List Project → StateM σ (List α)} {p : Nat → List Project} {asking : Nat → List δ}
  {found : List Project → List α} {visiting : List Project → List δ}

theorem gives_walkFrom (fetches : ∀ k, Gives inv log (fetch k) (p k) (asking k))
    (visits : ∀ new, Gives inv log (visit new) (found new) (visiting new)) {n : Nat} (last : IsLastPage p n)
    {k rest limit : Nat} (whole : k + rest + 1 = n) (allowed : rest < limit) {seen : List Project}
    (known : ∀ c, c ∈ seen ↔ c ∈ listed p k) :
    Gives inv log (walkFrom fetch visit limit (k + 1) seen)
      ((List.range' (k + 1) rest).flatMap fun page => found (added p page))
      ((List.range' (k + 1) rest).flatMap (fun page => asking page ++ visiting (added p page)) ++ asking n) := by
  -- on the pages that are left before the last one; what has been seen are the clients on the first `k`
  induction rest generalizing k limit seen with
  | zero =>
    obtain ⟨limit, rfl⟩ : ∃ m, limit = m + 1 := ⟨limit - 1, by omega⟩
    obtain rfl : k + 1 = n := whole
    have stop : Gives inv log (walkFrom fetch visit (limit + 1) (k + 1) seen) [] (asking (k + 1) ++ []) := by
      refine (fetches (k + 1)).bind ?_
      dsimp only
      rw [fresh_eq_added known, last.added_eq_nil]
      exact Gives.pure []
    rwa [List.append_nil] at stop
  | succ rest ih =>
    obtain ⟨limit, rfl⟩ : ∃ m, limit = m + 1 := ⟨limit - 1, by omega⟩
    have new : added p (k + 1) ≠ [] := added_ne_nil_iff.2 (last.first (k + 1) (by omega) (by omega))
    have known' : ∀ c, c ∈ added p (k + 1) ++ seen ↔ c ∈ listed p (k + 1) := by
      intro c
      rw [listed_succ, List.mem_append, List.mem_append, known, added, List.mem_filter, mem_distinct,
        Nat.add_sub_cancel, decide_eq_true_iff]
      tauto
    have allowed' : rest < limit := by omega
    have later := ih (k := k + 1) (by omega) allowed' known'
    rw [List.range'_succ, List.flatMap_cons, List.flatMap_cons, List.append_assoc, List.append_assoc]
    refine (fetches (k + 1)).bind ?_
    dsimp only
    rw [fresh_eq_added known, if_neg (by simpa using new)]
    refine (visits _).bind ?_
    rw [← List.append_nil (List.flatMap _ _ ++ asking n)]
    exact later.bind (Gives.pure _)

theorem gives_walk (fetches : ∀ k, Gives inv log (fetch k) (p k) (asking k))
    (visits : ∀ new, Gives inv log (visit new) (found new) (visiting new)) {n : Nat} (last : IsLastPage p n)
    (numbered : n < pageLimit) :
    Gives inv log (walk fetch visit) ((List.range' 1 (n - 1)).flatMap fun page => found (added p page))
      ((List.range' 1 (n - 1)).flatMap (fun page => asking page ++ visiting (added p page)) ++ asking n) := by
  have pos := last.pos
  exact gives_walkFrom fetches visits last (k := 0) (by omega) (by omega) (by simp [listed])

end Walk

/-- Pages that are what they are whenever they are asked for; the numbers of those asked for are kept. -/
def recorded (p : Nat → List Project) (page : Nat) : StateM (List Nat) (List Project) := fun asked =>
  (p page, asked ++ [page])

/-- What the pages add, one list for each page that adds something. -/
def newClients (p : Nat → List Project) : StateM (List Nat) (List (List Project)) :=
  walk (recorded p) fun new => pure [new]

/-- The walk asks for the pages up to the first one that adds nothing, in order and each once. It yields a list for each
page before that one, none of them empty; together they are the clients on all these pages, each when it is listed
first. -/
theorem newClients_of_isLastPage (p : Nat → List Project) {n : Nat} (last : IsLastPage p n) (numbered : n < pageLimit) :
    let (yielded, asked) := newClients p []
    asked = List.range' 1 n ∧ yielded.length = n - 1 ∧ (∀ new ∈ yielded, new ≠ []) ∧
      yielded.flatten = distinct (listed p n) ∧ yielded.flatten.Nodup ∧
      ∀ c, c ∈ yielded.flatten ↔ ∃ k, 1 ≤ k ∧ k ≤ n ∧ c ∈ p k := by
  have fetches (k : Nat) : Gives (fun _ => True) id (recorded p k) (p k) [k] := fun _ _ => ⟨rfl, rfl, trivial⟩
  have visits (new : List Project) :
      Gives (fun _ : List Nat => True) id (pure [new] : StateM (List Nat) (List (List Project))) [new] [] :=
    Gives.pure _
  obtain ⟨yielded, asked, -⟩ := gives_walk fetches visits last numbered [] trivial
  obtain ⟨k, rfl⟩ : ∃ k, n = k + 1 := ⟨n - 1, by have := last.pos; omega⟩
  have inOrder : (List.range' 1 k).flatMap (fun page => [page] ++ []) ++ [k + 1] = List.range' 1 (k + 1) := by
    rw [List.range'_1_concat, Nat.add_comm 1 k]
    simp
  have walked : newClients p [] = ((List.range' 1 k).map (added p), List.range' 1 (k + 1)) :=
    Prod.ext (yielded.trans List.map_eq_flatMap.symm) (asked.trans inOrder)
  have whole : ((List.range' 1 k).map (added p)).flatten = distinct (listed p (k + 1)) := by
    rw [← List.flatMap_def]
    exact last.flatMap_added
  rw [walked]
  refine ⟨rfl, by simp, ?_, whole, ?_, fun c => ?_⟩
  · intro new mem
    obtain ⟨page, within, rfl⟩ := List.mem_map.1 mem
    rw [List.mem_range'_1] at within
    exact added_ne_nil_iff.2 (last.first page within.1 (by omega))
  · rw [whole]
    exact nodup_distinct _
  · rw [whole, mem_distinct, mem_listed]

/-- A listing whose pages repeat clients of their own and of earlier pages; the third page adds none. -/
def repeatingPages (page : Nat) : List Project :=
  [[], [⟨"a", "one"⟩, ⟨"a", "two"⟩, ⟨"a", "one"⟩], [⟨"a", "two"⟩, ⟨"a", "three"⟩], [⟨"a", "three"⟩, ⟨"a", "one"⟩]].getD
    page [⟨"a", "never"⟩]

theorem newClients_of_repeatingPages : IsLastPage repeatingPages 3 ∧ 3 < pageLimit ∧
    (newClients repeatingPages []).2 = [1, 2, 3] ∧
    (newClients repeatingPages []).1.flatten = [⟨"a", "one"⟩, ⟨"a", "two"⟩, ⟨"a", "three"⟩] := by
  have first : ∀ k < 3, 1 ≤ k → ∃ c ∈ repeatingPages k, c ∉ listed repeatingPages (k - 1) := by decide
  have last : IsLastPage repeatingPages 3 := ⟨by decide, by decide, fun k pos before => first k before pos⟩
  have numbered : 3 < pageLimit := by decide
  obtain ⟨asked, -, -, whole, -⟩ := newClients_of_isLastPage repeatingPages last numbered
  exact ⟨last, numbered, asked, whole.trans (by decide)⟩

end UsagePage

end MigrationMining
