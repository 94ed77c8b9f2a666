import MigrationMining.Distinct
import Mathlib.Data.List.Basic

/-! Lists without repetitions keep what is mentioned first: how that goes together with leaving items out, and when a
part of a list mentions the same items in the same order as all of it. -/

namespace MigrationMining

variable {α β : Type} [DecidableEq α] [DecidableEq β]

theorem distinct_filter (p : α → Bool) (xs : List α) : distinct (xs.filter p) = (distinct xs).filter p := by
  induction xs with
  | nil => rfl
  | cons x xs ih =>
    by_cases h : p x
    · simp [distinct, h, ih, List.filter_filter, Bool.and_comm]
    · have gone : ∀ y, p y → y ≠ x := by
        rintro y hy rfl
        exact h hy
      simp only [List.filter_cons, h, Bool.false_eq_true, if_false, distinct, ih, List.filter_filter]
      refine List.filter_congr fun y _ => ?_
      cases hy : p y with
      | false => rfl
      | true => simpa using gone y hy

theorem distinct_map {f : α → β} {xs : List α} (injective : ∀ a ∈ xs, ∀ b ∈ xs, f a = f b → a = b) :
    distinct (xs.map f) = (distinct xs).map f := by
  induction xs with
  | nil => rfl
  | cons x xs ih =>
    have rest := ih fun a ha b hb => injective a (List.mem_cons_of_mem x ha) b (List.mem_cons_of_mem x hb)
    simp only [List.map_cons, distinct, rest, List.filter_map, List.cons.injEq, true_and]
    congr 1
    refine List.filter_congr fun a ha => ?_
    have ha : a ∈ xs := mem_distinct.1 ha
    have same : f a = f x ↔ a = x :=
      ⟨injective a (List.mem_cons_of_mem x ha) x List.mem_cons_self, fun h => h ▸ rfl⟩
    simp [same]

theorem distinct_append (xs ys : List α) : distinct (xs ++ ys) = distinct xs ++ (distinct ys).filter (· ∉ xs) := by
  induction xs with
  | nil => simp [distinct]
  | cons x xs ih => simp [distinct, ih, List.filter_append, List.filter_filter]

/-- `ys` has the items of `xs`, each of them once, in the order of their first places in `xs`. -/
structure FirstMentions (xs ys : List α) : Prop where
  nodup : ys.Nodup
  mem : ∀ x, x ∈ ys ↔ x ∈ xs
  order : ys.Pairwise fun x y => xs.idxOf x < xs.idxOf y

theorem pairwise_idxOf_distinct (xs : List α) : (distinct xs).Pairwise fun x y => xs.idxOf x < xs.idxOf y := by
  induction xs with
  | nil => exact .nil
  | cons x xs ih =>
    have later {y : α} (mem : y ∈ (distinct xs).filter (· ≠ x)) : (x :: xs).idxOf y = xs.idxOf y + 1 :=
      List.idxOf_cons_ne _ (Ne.symm (by simpa using (List.mem_filter.1 mem).2))
    refine List.pairwise_cons.2 ⟨fun y mem => ?_, (ih.filter _).imp_of_mem fun {y z} hy hz before => ?_⟩
    · rw [List.idxOf_cons_self, later mem]
      exact Nat.succ_pos _
    · rw [later hy, later hz]
      exact Nat.succ_lt_succ before

theorem firstMentions_distinct (xs : List α) : FirstMentions xs (distinct xs) where
  nodup := nodup_distinct xs
  mem := fun _ => mem_distinct
  order := pairwise_idxOf_distinct xs

/-- What a list mentions that was not seen before, each item when it is first mentioned. -/
def fresh (seen : List α) : List α → List α
  | [] => []
  | x :: xs => if x ∈ seen then fresh seen xs else x :: fresh (x :: seen) xs

theorem fresh_eq (seen xs : List α) : fresh seen xs = (distinct xs).filter (· ∉ seen) := by
  induction xs generalizing seen with
  | nil => rfl
  | cons x xs ih =>
    by_cases h : x ∈ seen
    · have other : ∀ y, y ∉ seen → y ≠ x := by
        rintro y hy rfl
        exact hy h
      simp only [fresh, h, if_true, ih, distinct, List.filter_cons, not_true_eq_false, decide_false,
        Bool.false_eq_true, if_false, List.filter_filter]
      refine List.filter_congr fun y _ => ?_
      by_cases hy : y ∈ seen
      · simp [hy]
      · simp [hy, other y hy]
    · simp [fresh, h, ih, distinct, List.filter_filter, Bool.and_comm]

theorem distinct_eq_fresh (xs : List α) : distinct xs = fresh [] xs := by simp [fresh_eq]

theorem fresh_seen_cons {seen : List α} {x : α} (h : x ∈ seen) (xs : List α) :
    fresh (x :: seen) xs = fresh seen xs := by
  have same : ∀ y, y ∈ x :: seen ↔ y ∈ seen := by
    intro y
    rw [List.mem_cons, or_iff_right_of_imp]
    rintro rfl
    exact h
  simp only [fresh_eq, same]

def marked (es : List (Bool × α)) : List α := (es.filter (·.1)).map (·.2)

/-- Whenever an unmarked entry is the first to mention an item, the next new item of the marked entries is the same. -/
def MarkedFollow (seen : List α) (es : List (Bool × α)) : Prop :=
  ∀ pre x post, es = pre ++ (false, x) :: post → x ∉ seen ++ pre.map (·.2) →
    ∃ mid rest, post = mid ++ (true, x) :: rest ∧ ∀ y, (true, y) ∈ mid → y ∈ seen ++ pre.map (·.2)

omit [DecidableEq α] in
theorem markedFollow_cons {seen : List α} {b : Bool} {x : α} {es : List (Bool × α)} :
    MarkedFollow seen ((b, x) :: es) ↔
      (b = false → x ∉ seen → ∃ mid rest, es = mid ++ (true, x) :: rest ∧ ∀ y, (true, y) ∈ mid → y ∈ seen) ∧
      MarkedFollow (x :: seen) es := by
  have reorder : ∀ (pre : List (Bool × α)) (y : α),
      y ∈ seen ++ (((b, x) :: pre).map (·.2)) ↔ y ∈ (x :: seen) ++ pre.map (·.2) := by
    intro pre y
    simp only [List.map_cons, List.mem_append, List.mem_cons]
    tauto
  constructor
  · intro h
    refine ⟨?_, fun pre y post whole new => ?_⟩
    · rintro rfl new
      simpa using h [] x es rfl (by simpa using new)
    · obtain ⟨mid, rest, split, old⟩ := h ((b, x) :: pre) y post (by rw [whole, List.cons_append]) (by rwa [reorder])
      exact ⟨mid, rest, split, fun z hz => (reorder pre z).1 (old z hz)⟩
  · rintro ⟨first, later⟩ pre y post whole new
    cases pre with
    | nil =>
      obtain ⟨⟨rfl, rfl⟩, rfl⟩ : (b = false ∧ x = y) ∧ es = post := by simpa using whole
      simpa using first rfl (by simpa using new)
    | cons p pre =>
      obtain ⟨rfl, rfl⟩ : (b, x) = p ∧ es = pre ++ (false, y) :: post := by simpa using whole
      obtain ⟨mid, rest, split, old⟩ := later pre y post rfl (by rwa [← reorder])
      exact ⟨mid, rest, split, fun z hz => (reorder pre z).2 (old z hz)⟩

theorem fresh_marked_of_split {seen : List α} {x : α} (new : x ∉ seen) {mid rest : List (Bool × α)}
    (old : ∀ y, (true, y) ∈ mid → y ∈ seen) :
    fresh seen (marked (mid ++ (true, x) :: rest)) = x :: fresh (x :: seen) (marked (mid ++ (true, x) :: rest)) := by
  induction mid with
  | nil => simp [marked, fresh, new]
  | cons e mid ih =>
    obtain ⟨b, y⟩ := e
    have ih := ih fun z hz => old z (List.mem_cons_of_mem _ hz)
    cases b with
    | false => simpa [marked] using ih
    | true =>
      have hy : y ∈ seen := old y List.mem_cons_self
      have cons_marked : ∀ es : List (Bool × α), marked ((true, y) :: es) = y :: marked es := fun _ => rfl
      rw [List.cons_append, cons_marked, fresh, if_pos hy, ih, fresh, if_pos (List.mem_cons_of_mem x hy)]

theorem split_of_fresh_marked {seen : List α} {x : α} {es : List (Bool × α)} {xs : List α}
    (h : fresh seen (marked es) = x :: xs) :
    ∃ mid rest, es = mid ++ (true, x) :: rest ∧ ∀ y, (true, y) ∈ mid → y ∈ seen := by
  induction es with
  | nil => simp [marked, fresh] at h
  | cons e es ih =>
    obtain ⟨b, y⟩ := e
    cases b with
    | false =>
      obtain ⟨mid, rest, rfl, old⟩ := ih h
      exact ⟨(false, y) :: mid, rest, rfl, by simpa using old⟩
    | true =>
      have cons_marked : marked ((true, y) :: es) = y :: marked es := rfl
      rw [cons_marked, fresh] at h
      by_cases hy : y ∈ seen
      · obtain ⟨mid, rest, rfl, old⟩ := ih (by simpa [hy] using h)
        refine ⟨(true, y) :: mid, rest, rfl, fun z hz => ?_⟩
        rcases List.mem_cons.1 hz with hz | hz
        · cases hz
          exact hy
        · exact old z hz
      · obtain ⟨rfl, _⟩ : y = x ∧ _ := by simpa [hy] using h
        exact ⟨[], es, rfl, by simp⟩

theorem fresh_eq_fresh_marked_iff (seen : List α) (es : List (Bool × α)) :
    fresh seen (es.map (·.2)) = fresh seen (marked es) ↔ MarkedFollow seen es := by
  induction es generalizing seen with
  | nil => simp [marked, MarkedFollow]
  | cons e es ih =>
    obtain ⟨b, x⟩ := e
    rw [markedFollow_cons, ← ih]
    by_cases seen_x : x ∈ seen
    · cases b <;> simp [fresh, marked, seen_x, fresh_seen_cons seen_x]
    · cases b with
      | true => simp [fresh, marked, seen_x]
      | false =>
        have skip : marked ((false, x) :: es) = marked es := rfl
        simp only [List.map_cons, fresh, skip, seen_x, if_false, not_false_eq_true, true_imp_iff]
        constructor
        · intro h
          obtain ⟨mid, rest, rfl, old⟩ := split_of_fresh_marked h.symm
          rw [fresh_marked_of_split seen_x old] at h
          exact ⟨⟨mid, rest, rfl, old⟩, (List.cons.inj h).2⟩
        · rintro ⟨⟨mid, rest, rfl, old⟩, h⟩
          rw [fresh_marked_of_split seen_x old, h]

end MigrationMining
