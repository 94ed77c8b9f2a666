import Mathlib.Data.List.Basic
import Mathlib.Data.List.TakeWhile
import MigrationMining.Text.Blank
import MigrationMining.Text.Pieces

/-! Cutting a text at a separator and joining the pieces undo each other, and trimming leaves a text alone that neither
begins nor ends with white space. The trimmed lines of a text are its trimmed pieces between line feeds, blank ones apart. -/

namespace MigrationMining
namespace Text

section Pieces

section Separator

variable {α : Type} [DecidableEq α] {sep : α}

theorem splitOn_of_notMem {p : List α} (h : sep ∉ p) : splitOn sep p = [p] := by
  induction p with
  | nil => rfl
  | cons c p ih =>
    obtain ⟨hc, hp⟩ : sep ≠ c ∧ sep ∉ p := by simpa using h
    simp [splitOn, Ne.symm hc, ih hp]

theorem splitOn_append_cons (p q : List α) : splitOn sep (p ++ sep :: q) = splitOn sep p ++ splitOn sep q := by
  induction p with
  | nil => simp [splitOn]
  | cons c p ih =>
    cases pieces : splitOn sep p with
    | nil => exact absurd pieces (splitOn_ne_nil sep p)
    | cons r rs =>
      rw [pieces] at ih
      by_cases hc : c = sep <;> simp [splitOn, hc, ih, pieces]

theorem splitOn_append {p : List α} (h : sep ∉ p) (rest : List α) :
    splitOn sep (p ++ sep :: rest) = p :: splitOn sep rest := by
  rw [splitOn_append_cons, splitOn_of_notMem h, List.singleton_append]

theorem splitOn_flatMap (sep : α) (texts : List (List α)) (rest : List α) :
    splitOn sep (texts.flatMap (· ++ [sep]) ++ rest) = texts.flatMap (splitOn sep) ++ splitOn sep rest := by
  induction texts with
  | nil => rfl
  | cons text texts ih =>
    rw [List.flatMap_cons, List.append_assoc, List.append_assoc, List.singleton_append, splitOn_append_cons, ih,
      List.flatMap_cons, List.append_assoc]

theorem splitOn_flatMap_append {ps : List (List α)} (h : ∀ p ∈ ps, sep ∉ p) (rest : List α) :
    splitOn sep (ps.flatMap (· ++ [sep]) ++ rest) = ps ++ splitOn sep rest := by
  rw [splitOn_flatMap, List.flatMap_congr fun p mem => splitOn_of_notMem (h p mem), List.flatMap_singleton']

theorem splitOn_flatMap_concat {ps : List (List α)} (h : ∀ p ∈ ps, sep ∉ p) :
    splitOn sep (ps.flatMap (· ++ [sep])) = ps ++ [[]] := by
  rw [← List.append_nil (ps.flatMap _), splitOn_flatMap_append h, splitOn]

end Separator

variable {sep : Char}

theorem splitOnce_append {p : List Char} (h : sep ∉ p) (rest : List Char) :
    splitOnce sep (p ++ sep :: rest) = some (p, rest) := by
  induction p with
  | nil => simp [splitOnce]
  | cons c p ih =>
    obtain ⟨hc, hp⟩ : sep ≠ c ∧ sep ∉ p := by simpa using h
    simp [splitOnce, Ne.symm hc, ih hp]

theorem splitOnce_eq_none {p : List Char} (h : sep ∉ p) : splitOnce sep p = none := by
  induction p with
  | nil => rfl
  | cons c p ih =>
    obtain ⟨hc, hp⟩ : sep ≠ c ∧ sep ∉ p := by simpa using h
    simp [splitOnce, Ne.symm hc, ih hp]

theorem eq_of_splitOnce {cs before after : List Char} (cut : splitOnce sep cs = some (before, after)) :
    cs = before ++ sep :: after := by
  induction cs generalizing before with
  | nil => cases cut
  | cons c cs ih =>
    unfold splitOnce at cut
    split at cut
    · next here =>
      cases cut
      rw [here, List.nil_append]
    · obtain ⟨⟨front, rest⟩, later, same⟩ := Option.map_eq_some_iff.1 cut
      cases same
      rw [ih later, List.cons_append]

theorem notMem_of_splitOnce {cs before after : List Char} (cut : splitOnce sep cs = some (before, after)) :
    sep ∉ before := by
  induction cs generalizing before with
  | nil => cases cut
  | cons c cs ih =>
    unfold splitOnce at cut
    split at cut
    · cases cut
      exact List.not_mem_nil
    · next other =>
      obtain ⟨⟨front, rest⟩, later, same⟩ := Option.map_eq_some_iff.1 cut
      cases same
      simp [Ne.symm other, ih later]

theorem splitOn_joinWith {ps : List (List Char)} (ne : ps ≠ []) (h : ∀ p ∈ ps, sep ∉ p) :
    splitOn sep (joinWith [sep] ps) = ps := by
  induction ps with
  | nil => exact absurd rfl ne
  | cons p ps ih =>
    obtain ⟨hp, hps⟩ := List.forall_mem_cons.1 h
    cases ps with
    | nil => exact splitOn_of_notMem hp
    | cons q qs => simp [joinWith, splitOn_append hp, ih (by simp) hps]

theorem notMem_of_mem_splitOn {cs p : List Char} (h : p ∈ splitOn sep cs) : sep ∉ p := by
  induction cs generalizing p with
  | nil => simp_all [splitOn]
  | cons c r ih =>
    cases hr : splitOn sep r with
    | nil => exact absurd hr (splitOn_ne_nil sep r)
    | cons q qs =>
      rw [hr] at ih
      by_cases hc : c = sep
      · simp only [splitOn, hr, hc, if_true, List.mem_cons] at h
        rcases h with rfl | h
        · simp
        · exact ih (by simpa using h)
      · simp only [splitOn, hr, hc, if_false, List.mem_cons] at h
        rcases h with rfl | h
        · simpa [Ne.symm hc] using ih List.mem_cons_self
        · exact ih (List.mem_cons_of_mem q h)

theorem joinWith_splitOn (sep : Char) (cs : List Char) : joinWith [sep] (splitOn sep cs) = cs := by
  induction cs with
  | nil => rfl
  | cons c r ih =>
    cases hr : splitOn sep r with
    | nil => exact absurd hr (splitOn_ne_nil sep r)
    | cons q qs =>
      rw [hr] at ih
      by_cases hc : c = sep
      · simp [splitOn, hr, hc, joinWith, ih]
      · cases qs <;> simp_all [splitOn, joinWith]

theorem splitOn_inj {p q : List Char} : splitOn sep p = splitOn sep q ↔ p = q := by
  refine ⟨fun same => ?_, congrArg _⟩
  rw [← joinWith_splitOn sep p, same, joinWith_splitOn]

theorem exists_splitOn_cons {c : Char} (solid : c ≠ sep) (cs : List Char) :
    ∃ piece pieces, splitOn sep cs = piece :: pieces ∧ splitOn sep (c :: cs) = (c :: piece) :: pieces := by
  obtain ⟨piece, pieces, cut⟩ := List.exists_cons_of_ne_nil (splitOn_ne_nil sep cs)
  exact ⟨piece, pieces, cut, by simp [splitOn, solid, cut]⟩

theorem length_splitOn (sep : Char) (cs : List Char) : (splitOn sep cs).length = cs.count sep + 1 := by
  induction cs with
  | nil => rfl
  | cons c cs ih =>
    by_cases here : c = sep
    · simp [splitOn, here, ih]
    · obtain ⟨piece, pieces, cut, longer⟩ := exists_splitOn_cons here cs
      rw [longer, List.length_cons, ← List.length_cons (a := piece), ← cut, ih, List.count_cons_of_ne here]

theorem mem_joinWith {ps : List (List Char)} {p : List Char} (mem : p ∈ ps) {c : Char} (here : c ∈ p) :
    c ∈ joinWith [sep] ps := by
  induction ps with
  | nil => cases mem
  | cons q ps ih =>
    cases ps with
    | nil => rwa [List.mem_singleton.1 mem] at here
    | cons r rs =>
      rw [joinWith, List.mem_append, List.mem_append]
      rcases List.mem_cons.1 mem with rfl | later
      · exact .inl (.inl here)
      · exact .inr (ih later)

theorem mem_of_mem_splitOn {cs p : List Char} (mem : p ∈ splitOn sep cs) {c : Char} (here : c ∈ p) : c ∈ cs := by
  rw [← joinWith_splitOn sep cs]
  exact mem_joinWith mem here

/-- A piece of two texts put together is a piece of one of them, or it ends with the first piece of the second. -/
theorem mem_splitOn_append {p q piece : List Char} (mem : piece ∈ splitOn sep (p ++ q)) :
    piece ∈ splitOn sep p ∨ piece ∈ splitOn sep q ∨ ∃ first ∈ (splitOn sep q).head?, first <:+ piece := by
  by_cases cutFirst : sep ∈ p
  · obtain ⟨before, after, rfl⟩ := List.append_of_mem cutFirst
    rw [List.append_assoc, List.cons_append, splitOn_append_cons] at mem
    rw [splitOn_append_cons]
    rcases List.mem_append.1 mem with early | late
    · exact .inl (List.mem_append_left _ early)
    · rcases mem_splitOn_append late with first | second
      · exact .inl (List.mem_append_right _ first)
      · exact .inr second
  · by_cases cutSecond : sep ∈ q
    · obtain ⟨before, after, rfl, whole⟩ := List.eq_append_cons_of_mem cutSecond
      have free : sep ∉ p ++ before := by simp [cutFirst, whole]
      rw [← List.append_assoc, splitOn_append free] at mem
      rw [splitOn_append whole]
      rcases List.mem_cons.1 mem with rfl | late
      · exact .inr (.inr ⟨before, rfl, List.suffix_append p before⟩)
      · exact .inr (.inl (List.mem_cons_of_mem _ late))
    · have free : sep ∉ p ++ q := by simp [cutFirst, cutSecond]
      rw [splitOn_of_notMem free, List.mem_singleton] at mem
      rw [splitOn_of_notMem cutSecond, mem]
      exact .inr (.inr ⟨q, rfl, List.suffix_append p q⟩)
termination_by p.length
decreasing_by simp_all; omega

theorem joinWith_eq_intercalate (sep : List Char) (parts : List (List Char)) :
    joinWith sep parts = sep.intercalate parts := by
  induction parts with
  | nil => rfl
  | cons p parts ih =>
    cases parts with
    | nil => simp [joinWith]
    | cons q parts => rw [joinWith, ih, List.intercalate_cons_cons, List.append_assoc]

theorem head?_joinWith {p : List Char} (ne : p ≠ []) (ps : List (List Char)) :
    (joinWith [sep] (p :: ps)).head? = p.head? := by
  obtain ⟨c, p, rfl⟩ := List.exists_cons_of_ne_nil ne
  cases ps <;> simp [joinWith]

theorem getLast?_joinWith {p : List Char} (ne : p ≠ []) (ps : List (List Char)) :
    (joinWith [sep] (ps ++ [p])).getLast? = p.getLast? := by
  induction ps with
  | nil => rfl
  | cons q qs ih =>
    have some_last : p.getLast? = some (p.getLast ne) := List.getLast?_eq_some_getLast ne
    cases qs with
    | nil => simp [joinWith, List.getLast?_cons, some_last]
    | cons r rs =>
      simp only [List.cons_append] at ih ⊢
      simp [joinWith, List.getLast?_cons, ih, some_last]

end Pieces

def Trimmed (cs : List Char) : Prop := (∀ c ∈ cs.head?, ¬ isBlank c) ∧ ∀ c ∈ cs.getLast?, ¬ isBlank c

theorem trimmed_joinWith_iff {sep : Char} {first last : List Char} (hf : first ≠ []) (hl : last ≠ [])
    (middle : List (List Char)) : Trimmed (joinWith [sep] (first :: (middle ++ [last]))) ↔
      (∀ c ∈ first.head?, ¬ isBlank c) ∧ ∀ c ∈ last.getLast?, ¬ isBlank c := by
  rw [Trimmed, head?_joinWith hf, ← List.cons_append, getLast?_joinWith hl]

theorem trimLeft_of_head {cs : List Char} (h : ∀ c ∈ cs.head?, ¬ isBlank c) : trimLeft cs = cs := by
  cases cs with
  | nil => rfl
  | cons c cs =>
    have hc : ¬ isBlank c := h c rfl
    simp [trimLeft, hc]

theorem trim_sublist (cs : List Char) : (trim cs).Sublist cs := by
  have right : (trim cs).Sublist (trimLeft cs) := by
    rw [← List.reverse_sublist, trim, trimRight, List.reverse_reverse]
    exact List.dropWhile_sublist isBlank
  exact right.trans (List.dropWhile_sublist isBlank)

theorem trim_of_trimmed {cs : List Char} (h : Trimmed cs) : trim cs = cs := by
  have back : trimLeft cs.reverse = cs.reverse := trimLeft_of_head (by simpa using h.2)
  rw [trim, trimLeft_of_head h.1, trimRight, ← trimLeft, back, List.reverse_reverse]

theorem head_trimLeft {cs : List Char} {c : Char} (h : c ∈ (trimLeft cs).head?) : ¬ isBlank c := by
  have first := List.head?_dropWhile_not isBlank cs
  rw [← trimLeft, Option.mem_def.1 h] at first
  simpa using first

theorem trimmed_trim (cs : List Char) : Trimmed (trim cs) := by
  refine ⟨fun c hc => ?_, fun c hc => ?_⟩
  · obtain ⟨cut, whole⟩ : trim cs <+: trimLeft cs := by
      rw [← List.reverse_suffix, trim, trimRight, List.reverse_reverse]
      exact List.dropWhile_suffix isBlank
    apply @head_trimLeft cs
    rw [← whole, List.head?_append, Option.mem_def.1 hc]
    rfl
  · rw [trim, trimRight, List.getLast?_reverse] at hc
    exact head_trimLeft hc

theorem trim_eq_nil_iff {t : List Char} : trim t = [] ↔ allBlank t := by
  constructor
  · intro nothing
    have first : trimLeft t = [] := by
      cases left : trimLeft t with
      | nil => rfl
      | cons c r =>
        have solid : ¬ isBlank c := head_trimLeft (show c ∈ (trimLeft t).head? by rw [left]; rfl)
        rw [trim, trimRight, List.reverse_eq_nil_iff, List.dropWhile_eq_nil_iff] at nothing
        exact absurd (nothing c (by simp [left])) solid
    exact List.all_eq_true.2 (List.dropWhile_eq_nil_iff.1 first)
  · intro blank
    have first : trimLeft t = [] := List.dropWhile_eq_nil_iff.2 (List.all_eq_true.1 blank)
    rw [trim, first]
    rfl

theorem dropWhile_append_of_allBlank {front : List Char} (blank : allBlank front) (cs : List Char) :
    (front ++ cs).dropWhile isBlank = cs.dropWhile isBlank := by
  rw [List.dropWhile_append, List.dropWhile_eq_nil_iff.2 (List.all_eq_true.1 blank)]
  rfl

theorem trim_of_allBlank_append {front : List Char} (blank : allBlank front) (cs : List Char) :
    trim (front ++ cs) = trim cs := by
  rw [trim, trimLeft, dropWhile_append_of_allBlank blank, ← trimLeft, trim]

theorem trimRight_append_of_allBlank (cs : List Char) {back : List Char} (blank : allBlank back) :
    trimRight (cs ++ back) = trimRight cs := by
  have turned : allBlank back.reverse := by simpa [allBlank] using blank
  rw [trimRight, List.reverse_append, dropWhile_append_of_allBlank turned, ← trimRight]

theorem trim_append_of_allBlank (cs : List Char) {back : List Char} (blank : allBlank back) :
    trim (cs ++ back) = trim cs := by
  by_cases front : allBlank cs
  · have both : allBlank (cs ++ back) := by rw [allBlank, List.all_append, Bool.and_eq_true]; exact ⟨front, blank⟩
    rw [trim_eq_nil_iff.2 front, trim_eq_nil_iff.2 both]
  · -- what is left of the first text keeps the second one from being trimmed on its left
    have left : trimLeft cs ≠ [] := fun nothing => front (List.all_eq_true.2 (List.dropWhile_eq_nil_iff.1 nothing))
    have onward : trimLeft (cs ++ back) = trimLeft cs ++ back := by
      rw [trimLeft, List.dropWhile_append, ← trimLeft, if_neg (by simpa using left)]
    rw [trim, onward, trimRight_append_of_allBlank _ blank, trim]

theorem exists_eq_trimRight_append (cs : List Char) : ∃ back, allBlank back ∧ cs = trimRight cs ++ back := by
  refine ⟨(cs.reverse.takeWhile isBlank).reverse, ?_, ?_⟩
  · rw [allBlank, List.all_reverse, List.all_takeWhile]
  · rw [trimRight, ← List.reverse_append, List.takeWhile_append_dropWhile, List.reverse_reverse]

theorem trim_trimLeft (cs : List Char) : trim (trimLeft cs) = trim cs := by
  have once : trimLeft (trimLeft cs) = trimLeft cs := trimLeft_of_head fun _ => head_trimLeft
  rw [trim, once, trim]

theorem trim_trimRight (cs : List Char) : trim (trimRight cs) = trim cs := by
  obtain ⟨back, blank, whole⟩ := exists_eq_trimRight_append cs
  exact (trim_append_of_allBlank (trimRight cs) blank).symm.trans (congrArg trim whole.symm)

theorem trim_append_cons {c : Char} (solid : ¬ isBlank c) (p q : List Char) :
    trim (p ++ c :: q) = trimLeft p ++ c :: trimRight q := by
  have left : trimLeft (p ++ c :: q) = trimLeft p ++ c :: q := by
    rw [trimLeft, List.dropWhile_append, ← trimLeft]
    split
    · next empty => simp [List.isEmpty_iff.1 empty, solid]
    · rfl
  have right : trimRight (trimLeft p ++ c :: q) = trimLeft p ++ c :: trimRight q := by
    rw [trimRight, List.reverse_append, List.reverse_cons, List.append_assoc, List.dropWhile_append]
    split
    · next empty => simp [trimRight, List.isEmpty_iff.1 empty, solid]
    · simp [trimRight]
  rw [trim, left, right]

theorem head?_trim (cs : List Char) : (trim cs).head? = (trimLeft cs).head? := by
  cases left : trimLeft cs with
  | nil =>
    rw [trim, left]
    rfl
  | cons c r =>
    have solid : ¬ isBlank c := head_trimLeft (show c ∈ (trimLeft cs).head? by rw [left]; rfl)
    have kept : trim (c :: r) = c :: trimRight r := trim_append_cons solid [] r
    rw [← trim_trimLeft, left, kept]
    rfl

theorem trim_chopReturn (line : List Char) : trim (chopReturn line) = trim line := by
  unfold chopReturn
  split
  · next ending =>
    obtain ⟨front, rfl⟩ := List.getLast?_eq_some_iff.1 ending
    rw [List.dropLast_concat, trim_append_of_allBlank front (by decide)]
  · rfl

theorem filter_map_trim_lines (cs : List Char) :
    ((lines cs).map trim).filter (fun line => !line.isEmpty) =
      ((splitOn '\n' cs).map trim).filter fun line => !line.isEmpty := by
  obtain ⟨front, last, pieces⟩ : ∃ front last, splitOn '\n' cs = front ++ [last] :=
    ⟨_, _, (List.dropLast_concat_getLast (splitOn_ne_nil '\n' cs)).symm⟩
  have chopped : (front.map chopReturn).map trim = front.map trim := by simp [trim_chopReturn]
  simp only [lines, pieces, List.dropLast_concat, List.getLast?_concat, Option.getD_some, List.map_append, chopped,
    List.filter_append]
  by_cases empty : last = []
  · simp [empty]
  · simp [empty]

theorem lines_flatMap_terminated (texts : List (List Char)) :
    lines (texts.flatMap (· ++ ['\n'])) = texts.flatMap fun text => (splitOn '\n' text).map chopReturn := by
  have cut : splitOn '\n' (texts.flatMap (· ++ ['\n'])) = texts.flatMap (splitOn '\n') ++ [[]] := by
    rw [← List.append_nil (texts.flatMap _), splitOn_flatMap, splitOn]
  simp [lines, cut, List.map_flatMap]

end Text
end MigrationMining
