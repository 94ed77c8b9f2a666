import Mathlib.Data.List.Basic
import MigrationMining.Console.Pairs
import MigrationMining.Proofs.CoordinateText

/-! Files of pairs are read back as they were written: the pairs on their lines, in order and with repetitions, whatever
white space stands around the coordinates and whatever other lines stand in between. -/

namespace MigrationMining

theorem Coordinate.parse_eq_ok_iff_of_trim {s t : String} (same : Text.trim s.toList = Text.trim t.toList)
    {c : Coordinate} : parse s = .ok c ↔ parse t = .ok c := by
  rw [parse_eq_ok_iff, parse_eq_ok_iff, same]

namespace Console

open Coordinate (parse)

/-- A line whose first character, white space apart, is the mark of a comment. -/
def IsComment (line : List Char) : Prop := (Text.trimLeft line).head? = some '#'

instance (line : List Char) : Decidable (IsComment line) := inferInstanceAs (Decidable (_ = _))

theorem pairHalf?_trimLeft (cs : List Char) : pairHalf? (Text.trimLeft cs) = pairHalf? cs := by
  rw [pairHalf?, Text.trim_trimLeft, pairHalf?]

theorem pairHalf?_trimRight (cs : List Char) : pairHalf? (Text.trimRight cs) = pairHalf? cs := by
  rw [pairHalf?, Text.trim_trimRight, pairHalf?]

theorem pairHalf?_eq_some_iff {cs : List Char} {c : Coordinate} :
    pairHalf? cs = some c ↔ parse (String.ofList cs) = .ok c := by
  rw [pairHalf?, Coordinate.toOption_parse_eq_some_iff]
  refine Coordinate.parse_eq_ok_iff_of_trim ?_
  rw [String.toList_ofList, String.toList_ofList, Text.trim_of_trimmed (Text.trimmed_trim cs)]

theorem pair?_of_notMem {line : List Char} (uncut : ',' ∉ line) : pair? line = none := by
  have uncut' : ',' ∉ Text.trim line := fun mem => uncut ((Text.trim_sublist line).subset mem)
  unfold pair?
  simp only [Text.splitOnce_eq_none uncut']
  split <;> rfl

theorem pair?_of_comma {first : List Char} (whole : ',' ∉ first) (second : List Char) :
    pair? (first ++ ',' :: second) =
      if IsComment (first ++ ',' :: second) then none
      else (pairHalf? first).bind fun old => (pairHalf? second).map (old, ·) := by
  have trimmed := Text.trim_append_cons (c := ',') (by decide) first second
  have whole' : ',' ∉ Text.trimLeft first := fun mem => whole ((List.dropWhile_sublist _).subset mem)
  have marked : IsComment (first ++ ',' :: second) ↔
      (Text.trimLeft first ++ ',' :: Text.trimRight second).head? = some '#' := by
    rw [IsComment, ← Text.head?_trim, trimmed]
  unfold pair?
  simp only [trimmed, Text.splitOnce_append whole']
  by_cases comment : IsComment (first ++ ',' :: second)
  · rw [if_pos comment, if_pos (marked.1 comment)]
    rfl
  · rw [if_neg comment, if_neg fun mark => comment (marked.2 mark)]
    simp only [Option.bind_eq_bind, Option.bind_some, pairHalf?_trimLeft, pairHalf?_trimRight]
    cases pairHalf? first <;> cases pairHalf? second <;> rfl

/-- A line holds a pair if it is no comment and what stands before and after its first comma names the two releases. -/
theorem pair?_eq_some_iff {line : List Char} {p : Coordinate × Coordinate} : pair? line = some p ↔
    ¬ IsComment line ∧ ∃ first second, line = first ++ ',' :: second ∧ ',' ∉ first ∧
      parse (String.ofList first) = .ok p.1 ∧ parse (String.ofList second) = .ok p.2 := by
  constructor
  · intro held
    have cut : ',' ∈ line := by
      by_contra uncut
      rw [pair?_of_notMem uncut] at held
      cases held
    obtain ⟨first, second, rfl, whole⟩ := List.eq_append_cons_of_mem cut
    rw [pair?_of_comma whole, Option.ite_none_left_eq_some] at held
    obtain ⟨plain, held⟩ := held
    obtain ⟨old, first_names, held⟩ := Option.bind_eq_some_iff.1 held
    obtain ⟨new, second_names, rfl⟩ := Option.map_eq_some_iff.1 held
    exact ⟨plain, first, second, rfl, whole, pairHalf?_eq_some_iff.1 first_names, pairHalf?_eq_some_iff.1 second_names⟩
  · rintro ⟨plain, first, second, rfl, whole, first_names, second_names⟩
    rw [pair?_of_comma whole, if_neg plain, pairHalf?_eq_some_iff.2 first_names, pairHalf?_eq_some_iff.2 second_names]
    rfl

theorem pairs_eq (text : String) : pairs text = (Text.splitOn '\n' text.toList).filterMap pair? := by
  have trimmed (line : List Char) : pair? (Text.trim line) = pair? line := by
    unfold pair?
    simp only [Text.trim_of_trimmed (Text.trimmed_trim line)]
  have said (lines : List (List Char)) :
      ((lines.map Text.trim).filter fun line => !line.isEmpty).filterMap pair? = lines.filterMap pair? := by
    rw [List.filterMap_filter, List.filterMap_map]
    refine List.filterMap_congr fun line _ => ?_
    rw [Function.comp_apply, ← trimmed line]
    cases Text.trim line <;> rfl
  rw [pairs, ← said, Text.filter_map_trim_lines, said]

/-- A pair of releases that texts name, and the white space on the line that it is written on. -/
structure PairLine where
  old : Coordinate
  new : Coordinate
  beforeOld : List Char
  afterOld : List Char
  beforeNew : List Char
  afterNew : List Char
  named : (∃ text, parse text = .ok old) ∧ ∃ text, parse text = .ok new
  oneLine : ∀ field ∈ [old.group, old.artifact, old.version, new.group, new.artifact, new.version], '\n' ∉ field.toList
  unmarked : ',' ∉ old.text.toList ∧ old.text.toList.head? ≠ some '#'
  blank : ∀ space ∈ [beforeOld, afterOld, beforeNew, afterNew], Text.allBlank space ∧ '\n' ∉ space

namespace PairLine

variable (l : PairLine)

/-- The line: the texts of the two releases with a comma between them, and white space around them. -/
def text : List Char :=
  l.beforeOld ++ l.old.text.toList ++ l.afterOld ++ ',' :: (l.beforeNew ++ l.new.text.toList ++ l.afterNew)

theorem parse_spaced {c : Coordinate} (named : ∃ text, parse text = .ok c) {before after : List Char}
    (blank : Text.allBlank before) (blank' : Text.allBlank after) :
    parse (String.ofList (before ++ c.text.toList ++ after)) = .ok c := by
  obtain ⟨text, names⟩ := named
  refine (Coordinate.parse_eq_ok_iff_of_trim ?_).1 (Coordinate.parse_text (Coordinate.readable_of_parse names))
  rw [String.toList_ofList, Text.trim_append_of_allBlank _ blank', Text.trim_of_allBlank_append blank]

theorem pair?_text : pair? l.text = some (l.old, l.new) := by
  obtain ⟨blank₁, blank₂, blank₃, blank₄⟩ : Text.allBlank l.beforeOld ∧ Text.allBlank l.afterOld ∧
      Text.allBlank l.beforeNew ∧ Text.allBlank l.afterNew := by
    have blank := l.blank
    simp_all
  have uncut {space : List Char} (blank : Text.allBlank space) : ',' ∉ space := fun mem =>
    absurd (List.all_eq_true.1 blank _ mem) (by decide)
  refine pair?_eq_some_iff.2 ⟨?_, l.beforeOld ++ l.old.text.toList ++ l.afterOld,
    l.beforeNew ++ l.new.text.toList ++ l.afterNew, rfl, ?_, parse_spaced l.named.1 blank₁ blank₂,
    parse_spaced l.named.2 blank₃ blank₄⟩
  · -- the line begins with the text of the first release, white space apart
    obtain ⟨text, names⟩ := l.named.1
    have begins := (Coordinate.readable_of_parse names).trimmed.1
    obtain ⟨c, r, chars⟩ : ∃ c r, l.old.text.toList = c :: r :=
      List.exists_cons_of_ne_nil (by simp [Coordinate.toList_text, Text.joinWith])
    have solid : ¬ Text.isBlank c := begins c (by rw [chars]; rfl)
    rw [IsComment, PairLine.text, Text.trimLeft, List.append_assoc, List.append_assoc, List.append_assoc,
      Text.dropWhile_append_of_allBlank blank₁, chars, List.cons_append, List.dropWhile_cons_of_neg solid]
    have first := l.unmarked.2
    rwa [chars] at first
  · simp [uncut blank₁, uncut blank₂, l.unmarked.1]

theorem newline_notMem_text : '\n' ∉ l.text := by
  have oneLine := l.oneLine
  have blank := l.blank
  simp_all [text, Coordinate.text]

end PairLine

/-- A line that holds no pair. -/
inductive Noise : List Char → Prop where
  | blank {line : List Char} : Text.allBlank line → Noise line
  | comment {before : List Char} : Text.allBlank before → (rest : List Char) → Noise (before ++ '#' :: rest)
  | noComma {line : List Char} : ',' ∉ line → Noise line
  | noCoordinate {first second : List Char} : ',' ∉ first →
      (∀ c, parse (String.ofList first) ≠ .ok c) ∨ (∀ c, parse (String.ofList second) ≠ .ok c) →
      Noise (first ++ ',' :: second)

theorem Noise.pair? {line : List Char} (noise : Noise line) : pair? line = none := by
  cases noise with
  | blank blank => exact pair?_of_notMem fun mem => absurd (List.all_eq_true.1 blank _ mem) (by decide)
  | @comment before blank rest =>
    have comment : IsComment (before ++ '#' :: rest) := by
      rw [IsComment, Text.trimLeft, Text.dropWhile_append_of_allBlank blank]
      rfl
    refine Option.eq_none_iff_forall_ne_some.2 fun p held => ?_
    exact (pair?_eq_some_iff.1 held).1 comment
  | noComma uncut => exact pair?_of_notMem uncut
  | @noCoordinate first second whole unnamed =>
    have either : pairHalf? first = none ∨ pairHalf? second = none := by
      simpa only [Option.eq_none_iff_forall_ne_some, ne_eq, pairHalf?_eq_some_iff] using unnamed
    rw [pair?_of_comma whole]
    rcases either with none | none <;> simp [none]

/-- Lines that write some pairs, one on a line and in their order, with other lines in between. -/
inductive Writes : List (List Char) → List (Coordinate × Coordinate) → Prop where
  | nil : Writes [] []
  | pair {lines : List (List Char)} {ps : List (Coordinate × Coordinate)} (l : PairLine) :
      Writes lines ps → Writes (l.text :: lines) ((l.old, l.new) :: ps)
  | noise {line : List Char} {lines : List (List Char)} {ps : List (Coordinate × Coordinate)} :
      Noise line → '\n' ∉ line → Writes lines ps → Writes (line :: lines) ps

variable {lines : List (List Char)} {ps : List (Coordinate × Coordinate)}

theorem Writes.filterMap_pair? (writes : Writes lines ps) : lines.filterMap pair? = ps := by
  induction writes with
  | nil => rfl
  | pair l _ ih => rw [List.filterMap_cons, l.pair?_text, ih]
  | noise noise _ _ ih => rw [List.filterMap_cons, noise.pair?, ih]

theorem Writes.newline_notMem (writes : Writes lines ps) : ∀ line ∈ lines, '\n' ∉ line := by
  induction writes with
  | nil => simp
  | pair l _ ih => exact List.forall_mem_cons.2 ⟨l.newline_notMem_text, ih⟩
  | noise _ oneLine _ ih => exact List.forall_mem_cons.2 ⟨oneLine, ih⟩

/-- From lines that write some pairs just these pairs are read, whether a line feed stands after each line or only between
two lines. -/
theorem pairs_of_written_lines (writes : Writes lines ps) :
    pairs (String.ofList (lines.flatMap (· ++ ['\n']))) = ps ∧
      pairs (String.ofList (Text.joinWith ['\n'] lines)) = ps := by
  have read := writes.filterMap_pair?
  constructor
  · rw [pairs_eq, String.toList_ofList, Text.splitOn_flatMap_concat writes.newline_notMem, List.filterMap_append, read]
    exact List.append_nil ps
  · rw [pairs_eq, String.toList_ofList]
    cases lines with
    | nil =>
      rw [← read]
      rfl
    | cons line lines => rw [Text.splitOn_joinWith (by simp) writes.newline_notMem, read]

/-- A pair between white space, the second release with a comma and the mark of a comment in it. -/
def spacedPair : PairLine where
  old := ⟨"x", "X", "1.0"⟩
  new := ⟨"#y", "Y", "2,0"⟩
  beforeOld := ['\t']
  afterOld := [' ']
  beforeNew := [' ', '\u2003']
  afterNew := ['\r']
  named := ⟨⟨"x:X:jar:1.0", rfl⟩, "#y:Y:2,0", rfl⟩
  oneLine := by decide
  unmarked := by decide
  blank := by decide

theorem pairs_of_written_lines_of_spacedPair :
    let lines := [
      "  # old,new", "\tx:X:1.0 , \u2003#y:Y:2,0\r", "", "x:X:1,bad", "\tx:X:1.0 , \u2003#y:Y:2,0\r", "lonely"]
    let p : Coordinate × Coordinate := (⟨"x", "X", "1.0"⟩, ⟨"#y", "Y", "2,0"⟩)
    let ps := [p, p]
    Writes (lines.map String.toList) ps ∧
    pairs (String.ofList (Text.joinWith ['\n'] (lines.map String.toList))) = ps := by
  intro lines p ps
  have comment : Noise "  # old,new".toList := @Noise.comment [' ', ' '] (by decide) " old,new".toList
  have unnamed : Noise "x:X:1,bad".toList := by
    refine @Noise.noCoordinate "x:X:1".toList "bad".toList (by decide) (.inr fun c named => ?_)
    have refused : (parse "bad").toOption = none := by decide
    rw [← Coordinate.toOption_parse_eq_some_iff, String.ofList_toList, refused] at named
    cases named
  have writes : Writes (lines.map String.toList) ps :=
    .noise comment (by decide) <| .pair spacedPair <| .noise (.blank rfl) (by decide) <|
      .noise unnamed (by decide) <| .pair spacedPair <| .noise (.noComma (by decide)) (by decide) .nil
  exact ⟨writes, (pairs_of_written_lines writes).2⟩

end Console
end MigrationMining
