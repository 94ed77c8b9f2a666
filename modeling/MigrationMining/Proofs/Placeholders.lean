import Mathlib.Data.List.Basic
import Mathlib.Data.List.TakeWhile
import Mathlib.Logic.Relation
import MigrationMining.Pom

/-! Texts with placeholders as sequences of pieces: what a round of substitution makes of each piece, and when rounds
leave nothing of a text. -/

namespace MigrationMining
namespace Pom

/-- A piece of a text: one of its characters, or a placeholder. -/
inductive Piece where
  | char (c : Char)
  | reference (name : List Char)
  deriving DecidableEq

namespace Piece

def text : Piece → List Char
  | char c => [c]
  | reference name => '$' :: '{' :: (name ++ ['}'])

def value? (ps : Properties) : Piece → Option (List Char)
  | char c => some [c]
  | reference name => ps.get? name

end Piece

def pieces (cs : List Char) : List Piece :=
  match cs with
  | [] => []
  | '$' :: '{' :: r =>
    match _h : placeholder? r with
    | some (name, after) => .reference name :: pieces after
    | none => .char '$' :: pieces ('{' :: r)
  | c :: r => .char c :: pieces r
termination_by cs.length
decreasing_by
  · have := length_of_placeholder? _h
    simp only [List.length_cons]
    omega
  · simp
  · simp

def placeholders (cs : List Char) : List (List Char) :=
  (pieces cs).filterMap fun
    | .char _ => none
    | .reference name => some name

/-- The values of pieces, one after the other; `none` if a name is not known. -/
def fill (ps : Properties) : List Piece → Option (List Char)
  | [] => some []
  | piece :: rest => (piece.value? ps).bind fun value => (fill ps rest).map (value ++ ·)

section Pieces

variable {ps : Properties} {cs r name after : List Char} {xs : List Piece}

theorem placeholder?_eq_some_iff :
    placeholder? r = some (name, after) ↔ r = name ++ '}' :: after ∧ name ≠ [] ∧ '}' ∉ name := by
  constructor
  · intro h
    unfold placeholder? at h
    split at h
    · cases h
    · next c rest found =>
      dsimp only at h
      split at h
      · cases h
      · next named =>
        cases h
        have brace : decide (c ≠ '}') = false := by
          have stop := List.head?_dropWhile_not (fun x : Char => decide (x ≠ '}')) r
          rwa [found] at stop
        have whole : r.takeWhile (· ≠ '}') ++ c :: after = r := by rw [← found, List.takeWhile_append_dropWhile]
        refine ⟨?_, by simpa using named, fun mem => by simpa using List.mem_takeWhile_imp mem⟩
        rw [← show c = '}' by simpa using brace] at whole ⊢
        exact whole.symm
  · rintro ⟨rfl, named, free⟩
    have inName : ∀ c ∈ name, decide (c ≠ '}') = true := by
      intro c mem
      rw [decide_eq_true_iff]
      rintro rfl
      exact free mem
    have stop : (name ++ '}' :: after).dropWhile (· ≠ '}') = '}' :: after := by
      rw [List.dropWhile_append_of_pos inName]
      rfl
    have taken : (name ++ '}' :: after).takeWhile (· ≠ '}') = name := by
      rw [List.takeWhile_append_of_pos inName, List.takeWhile_cons_of_neg (by decide), List.append_nil]
    unfold placeholder?
    split
    · next ended =>
      rw [ended] at stop
      cases stop
    · next ended =>
      rw [ended] at stop
      cases stop
      dsimp only
      rw [taken, if_neg (by simpa using named)]

theorem flatMap_text_pieces (cs : List Char) : (pieces cs).flatMap Piece.text = cs := by
  fun_induction pieces cs with
  | case1 => rfl
  | case2 r name after found ih =>
    rw [List.flatMap_cons, ih, (placeholder?_eq_some_iff.1 found).1]
    simp [Piece.text]
  | case3 r found ih => rw [List.flatMap_cons, ih, Piece.text, List.singleton_append]
  | case4 c r other ih => rw [List.flatMap_cons, ih, Piece.text, List.singleton_append]

theorem substitute_eq_fill (ps : Properties) (cs : List Char) : substitute ps cs = fill ps (pieces cs) := by
  fun_induction pieces cs with
  | case1 => simp [substitute, fill]
  | case2 r name after found ih =>
    conv => lhs; unfold substitute
    rw [fill, Piece.value?, ← ih]
    simp only
    split
    · next name' after' found' =>
      rw [found] at found'
      cases found'
      cases ps.get? name <;> rfl
    · next missing =>
      rw [found] at missing
      cases missing
  | case3 r found ih =>
    conv => lhs; unfold substitute
    rw [fill, Piece.value?, ← ih]
    simp only
    split
    · next found' =>
      rw [found] at found'
      cases found'
    · rfl
  | case4 c r other ih =>
    rw [substitute, fill, Piece.value?, ← ih]
    · rfl
    · exact other

theorem fill_eq_some {value : Piece → List Char} (known : ∀ x ∈ xs, x.value? ps = some (value x)) :
    fill ps xs = some (xs.flatMap value) := by
  induction xs with
  | nil => rfl
  | cons x xs ih =>
    obtain ⟨first, others⟩ := List.forall_mem_cons.1 known
    rw [fill, first, ih others, Option.bind_some, Option.map_some, List.flatMap_cons]

theorem fill_eq_none {x : Piece} (mem : x ∈ xs) (unknown : x.value? ps = none) : fill ps xs = none := by
  induction xs with
  | nil => cases mem
  | cons y xs ih =>
    rw [fill]
    rcases List.mem_cons.1 mem with rfl | later
    · rw [unknown, Option.bind_none]
    · rw [ih later]
      cases y.value? ps <;> rfl

theorem fill_eq_some_nil_iff : fill ps xs = some [] ↔ ∀ x ∈ xs, x.value? ps = some [] := by
  induction xs with
  | nil => simp [fill]
  | cons x xs ih =>
    rw [fill, List.forall_mem_cons, ← ih]
    constructor
    · intro filled
      obtain ⟨value, first, others⟩ := Option.bind_eq_some_iff.1 filled
      obtain ⟨later, others, none⟩ := Option.map_eq_some_iff.1 others
      obtain ⟨rfl, rfl⟩ := List.append_eq_nil_iff.1 none
      exact ⟨first, others⟩
    · rintro ⟨first, others⟩
      rw [first, others]
      rfl

theorem pieces_of_plain (plain : hasPlaceholder cs = false) : pieces cs = cs.map .char := by
  fun_induction pieces cs with
  | case1 => rfl
  | case2 r name after found ih => simp [hasPlaceholder, Text.contains] at plain
  | case3 r found ih => simp [hasPlaceholder, Text.contains] at plain
  | case4 c r other ih =>
    have rest : hasPlaceholder r = false := by
      rw [hasPlaceholder, Text.contains, Bool.or_eq_false_iff] at plain
      exact plain.2
    rw [ih rest, List.map_cons]

theorem mem_placeholders : name ∈ placeholders cs ↔ .reference name ∈ pieces cs := by
  rw [placeholders, List.mem_filterMap]
  constructor
  · rintro ⟨x, mem, same⟩
    cases x with
    | char c => cases same
    | reference n =>
      cases same
      exact mem
  · exact fun mem => ⟨_, mem, rfl⟩

theorem hasPlaceholder_of_mem (mem : name ∈ placeholders cs) : hasPlaceholder cs = true := by
  by_contra plain
  rw [mem_placeholders, pieces_of_plain (by simpa using plain)] at mem
  simp at mem

end Pieces

section Rounds

variable {ps : Properties} {cs ds r : List Char} {rounds : Nat}

theorem resolveWithin_of_plain (plain : hasPlaceholder cs = false) : resolveWithin ps (rounds + 1) cs = some cs := by
  rw [resolveWithin, plain]
  rfl

theorem resolve_of_plain (plain : hasPlaceholder cs = false) : resolve ps cs = some cs := resolveWithin_of_plain plain

theorem resolveWithin_of_placeholder (more : hasPlaceholder cs = true) :
    resolveWithin ps (rounds + 1) cs = (substitute ps cs).bind (resolveWithin ps rounds) := by
  rw [resolveWithin, if_pos more]

theorem plain_of_resolveWithin (resolved : resolveWithin ps rounds cs = some r) : hasPlaceholder r = false := by
  induction rounds generalizing cs with
  | zero => cases resolved
  | succ rounds ih =>
    cases more : hasPlaceholder cs with
    | false =>
      rw [resolveWithin_of_plain more] at resolved
      cases resolved
      exact more
    | true =>
      rw [resolveWithin_of_placeholder more] at resolved
      obtain ⟨ds, -, later⟩ := Option.bind_eq_some_iff.1 resolved
      exact ih later

theorem plain_of_resolve (resolved : resolve ps cs = some r) : hasPlaceholder r = false := plain_of_resolveWithin resolved

def Round (ps : Properties) (cs ds : List Char) : Prop := hasPlaceholder cs = true ∧ substitute ps cs = some ds

/-- A text of placeholders only, each of which stands for a blank property. -/
def IsHollow (ps : Properties) (cs : List Char) : Prop :=
  cs ≠ [] ∧ ∀ x ∈ pieces cs, ∃ name, x = .reference name ∧ ps.get? name = some []

theorem substitute_eq_some_nil_iff (given : cs ≠ []) : substitute ps cs = some [] ↔ IsHollow ps cs := by
  rw [substitute_eq_fill, fill_eq_some_nil_iff, IsHollow, and_iff_right given]
  refine forall₂_congr fun x _ => ?_
  cases x with
  | char c => simp [Piece.value?]
  | reference name => simp [Piece.value?]

theorem IsHollow.hasPlaceholder (hollow : IsHollow ps cs) : hasPlaceholder cs = true := by
  by_contra plain
  obtain ⟨c, r, rfl⟩ := List.exists_cons_of_ne_nil hollow.1
  obtain ⟨name, same, -⟩ := hollow.2 (.char c) (by rw [pieces_of_plain (by simpa using plain)]; simp)
  cases same

def TurnsHollow (ps : Properties) (cs : List Char) : Prop := ∃ ds, Relation.ReflTransGen (Round ps) cs ds ∧ IsHollow ps ds

theorem not_turnsHollow_of_plain (plain : hasPlaceholder cs = false) : ¬ TurnsHollow ps cs := by
  rintro ⟨ds, reached, hollow⟩
  rcases reached.cases_head with rfl | ⟨_, ⟨more, -⟩, -⟩
  · rw [hollow.hasPlaceholder] at plain
    cases plain
  · rw [more] at plain
    cases plain

/-- A round leaves nothing of a text if it is hollow, and else what becomes of the text becomes of what is left. -/
theorem turnsHollow_iff_of_round (given : cs ≠ []) (round : Round ps cs ds) :
    TurnsHollow ps cs ↔ ds = [] ∨ TurnsHollow ps ds := by
  have ended : ds = [] ↔ IsHollow ps cs := by
    rw [← substitute_eq_some_nil_iff given, round.2, Option.some_inj]
  constructor
  · rintro ⟨es, reached, hollow⟩
    rcases reached.cases_head with rfl | ⟨ds', ⟨-, round'⟩, reached⟩
    · exact .inl (ended.2 hollow)
    · rw [round.2] at round'
      cases round'
      exact .inr ⟨es, reached, hollow⟩
  · rintro (none | ⟨es, reached, hollow⟩)
    · exact ⟨cs, .refl, ended.1 none⟩
    · exact ⟨es, reached.head round, hollow⟩

theorem eq_nil_iff_of_resolveWithin (given : cs ≠ []) (resolved : resolveWithin ps rounds cs = some r) :
    r = [] ↔ TurnsHollow ps cs := by
  induction rounds generalizing cs with
  | zero => cases resolved
  | succ rounds ih =>
    cases more : Pom.hasPlaceholder cs with
    | false =>
      rw [resolveWithin_of_plain more] at resolved
      cases resolved
      exact iff_of_false given (not_turnsHollow_of_plain more)
    | true =>
      rw [resolveWithin_of_placeholder more] at resolved
      obtain ⟨ds, round, later⟩ := Option.bind_eq_some_iff.1 resolved
      rw [turnsHollow_iff_of_round given ⟨more, round⟩]
      by_cases ended : ds = []
      · -- an empty text is given back at the next look, if there is one
        subst ended
        refine iff_of_true ?_ (.inl rfl)
        cases rounds with
        | zero => cases later
        | succ rounds =>
          rw [resolveWithin_of_plain rfl] at later
          cases later
          rfl
      · rw [ih ended later, or_iff_right ended]

end Rounds

/-- A text with the placeholders for known names replaced and the others left as they stand. -/
def expand (ps : Properties) (cs : List Char) : List Char := (pieces cs).flatMap fun x => (x.value? ps).getD x.text

section Names

variable {ps qs : Properties} {cs : List Char} {name : List Char}

theorem Properties.get?_append : (ps ++ qs).get? name = (ps.get? name).or (qs.get? name) := by
  rw [get?, get?, get?, List.find?_append, Option.map_or]

theorem value?_congr (same : ∀ name ∈ placeholders cs, ps.get? name = qs.get? name) :
    ∀ x ∈ pieces cs, x.value? ps = x.value? qs := by
  intro x mem
  cases x with
  | char c => rfl
  | reference name => exact same name (mem_placeholders.2 mem)

theorem expand_congr (same : ∀ name ∈ placeholders cs, ps.get? name = qs.get? name) : expand ps cs = expand qs cs :=
  List.flatMap_congr fun x mem => by rw [value?_congr same x mem]

theorem expand_of_plain (plain : hasPlaceholder cs = false) : expand ps cs = cs := by
  rw [expand, pieces_of_plain plain, List.flatMap_map]
  exact List.flatMap_singleton' cs

theorem substitute_eq_expand (known : ∀ name ∈ placeholders cs, (ps.get? name).isSome) :
    substitute ps cs = some (expand ps cs) := by
  rw [substitute_eq_fill]
  refine fill_eq_some fun x mem => ?_
  cases x with
  | char c => rfl
  | reference name =>
    obtain ⟨value, found⟩ := Option.isSome_iff_exists.1 (known name (mem_placeholders.2 mem))
    rw [Piece.value?, found, Option.getD_some]

theorem substitute_eq_none (mem : name ∈ placeholders cs) (unknown : ps.get? name = none) : substitute ps cs = none := by
  rw [substitute_eq_fill]
  exact fill_eq_none (mem_placeholders.1 mem) unknown

/-- A text in which all names are known resolves to the text with their values, as long as these make no new
placeholder. -/
theorem resolve_eq_expand_iff (known : ∀ name ∈ placeholders cs, (ps.get? name).isSome) :
    resolve ps cs = some (expand ps cs) ↔ hasPlaceholder (expand ps cs) = false := by
  refine ⟨plain_of_resolve, fun plain => ?_⟩
  cases more : hasPlaceholder cs with
  | false => rw [resolve_of_plain more, expand_of_plain more]
  | true =>
    rw [resolve, resolveWithin_of_placeholder more, substitute_eq_expand known, Option.bind_some,
      resolveWithin_of_plain plain]

theorem resolve_eq_none (mem : name ∈ placeholders cs) (unknown : ps.get? name = none) : resolve ps cs = none := by
  rw [resolve, resolveWithin_of_placeholder (hasPlaceholder_of_mem mem), substitute_eq_none mem unknown,
    Option.bind_none]

end Names

end Pom
end MigrationMining
