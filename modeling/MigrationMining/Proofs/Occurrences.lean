import Mathlib.Data.List.Infix
import Mathlib.Data.List.Sort
import Mathlib.Data.List.TakeWhile
import MigrationMining.Proofs.WrittenContent

/-! Where patterns, spans and leaves stand in a text, said by their places: the first occurrence of a pattern, the first
span, the text without its spans, and the leaves in the order of their places. -/

namespace MigrationMining

namespace Text

variable {p cs a b : List Char}

theorem cutAt_eq_some_iff : cutAt p cs = some (a, b) ↔ cs = a ++ p ++ b ∧ ∀ i < a.length, ¬ p <+: cs.drop i := by
  constructor
  · intro cut
    refine ⟨eq_of_cutAt cut, ?_⟩
    induction cs generalizing a with
    | nil =>
      have whole := eq_of_cutAt cut
      simp_all
    | cons c r ih =>
      rw [cutAt] at cut
      split at cut
      · cases cut
        simp
      · next absent =>
        obtain ⟨⟨before, after⟩, cut, same⟩ := Option.map_eq_some_iff.1 cut
        cases same
        intro i within
        cases i with
        | zero => rwa [List.drop_zero, ← List.isPrefixOf_iff_prefix]
        | succ i => exact ih cut i (Nat.lt_of_succ_lt_succ within)
  · rintro ⟨rfl, first⟩
    induction a with
    | nil => exact cutAt_self p b
    | cons c a ih =>
      have absent : ¬ p.isPrefixOf (c :: (a ++ p ++ b)) = true := fun begins =>
        first 0 (by simp) (List.isPrefixOf_iff_prefix.1 begins)
      have later : ∀ i < a.length, ¬ p <+: (a ++ p ++ b).drop i := fun i within =>
        first (i + 1) (Nat.succ_lt_succ within)
      rw [List.cons_append, List.cons_append, cutAt, if_neg absent, ih later, Option.map_some]

theorem cutAt_eq_none_iff : cutAt p cs = none ↔ ¬ p <:+: cs := by
  constructor
  · intro uncut
    induction cs with
    | nil =>
      rw [cutAt] at uncut
      split at uncut
      · cases uncut
      · next filled => simpa using filled
    | cons c r ih =>
      rw [cutAt] at uncut
      split at uncut
      · cases uncut
      · next absent =>
        rw [List.infix_cons_iff, not_or, ← List.isPrefixOf_iff_prefix]
        exact ⟨absent, ih (Option.map_eq_none_iff.1 uncut)⟩
  · refine fun absent => Option.eq_none_iff_forall_ne_some.2 fun parts cut => absent ?_
    exact ⟨parts.1, parts.2, (eq_of_cutAt cut).symm⟩

end Text

namespace Span

variable {d : Delimiters} {s : Span} {cs ds : List Char}

def around (d : Delimiters) (s : Span) : List Char := s.before ++ d.opening ++ (s.inside ++ d.closing ++ s.after)

/-- A span of the text begins at the first opening delimiter and ends at the first closing one after that. -/
structure IsFirst (d : Delimiters) (cs : List Char) (s : Span) : Prop where
  whole : cs = s.around d
  opens : ∀ i < s.before.length, ¬ d.opening <+: cs.drop i
  closes : ∀ i < s.inside.length, ¬ d.closing <+: (s.inside ++ d.closing ++ s.after).drop i

theorem first?_eq_some_iff : first? d cs = some s ↔ IsFirst d cs s := by
  constructor
  · intro found
    have whole := eq_of_first? found
    unfold first? at found
    split at found
    · cases found
    · next before r cut =>
      split at found
      · cases found
      · next inside after cut' =>
        cases found
        obtain ⟨rest, closes⟩ := Text.cutAt_eq_some_iff.1 cut'
        exact ⟨whole, (Text.cutAt_eq_some_iff.1 cut).2, rest ▸ closes⟩
  · rintro ⟨whole, opens, closes⟩
    have cut := Text.cutAt_eq_some_iff.2 ⟨whole, opens⟩
    have cut' := Text.cutAt_eq_some_iff.2 ⟨rfl, closes⟩
    simp only [first?, cut, cut']

theorem first?_eq_none_iff : first? d cs = none ↔ ∀ s : Span, cs ≠ s.around d := by
  constructor
  · rintro unfound s rfl
    unfold first? at unfound
    split at unfound
    · next uncut =>
      exact Text.cutAt_eq_none_iff.1 uncut ⟨s.before, s.inside ++ d.closing ++ s.after, rfl⟩
    · next before r cut =>
      split at unfound
      · next uncut =>
        -- the first opening stands no later than that of the span, so that the closing of the span comes after it
        obtain ⟨whole, opens⟩ := Text.cutAt_eq_some_iff.1 cut
        have early : before.length ≤ s.before.length := by
          by_contra late
          refine opens s.before.length (by omega) ?_
          rw [around, List.append_assoc, List.drop_left]
          exact List.prefix_append _ _
        have rest : s.inside ++ d.closing ++ s.after <:+ r := by
          refine List.suffix_of_suffix_length_le ⟨s.before ++ d.opening, rfl⟩ ⟨before ++ d.opening, whole.symm⟩ ?_
          have lengths := congrArg List.length whole
          simp only [around, List.length_append] at lengths ⊢
          omega
        refine Text.cutAt_eq_none_iff.1 uncut (List.IsInfix.trans ?_ rest.isInfix)
        exact ⟨s.inside, s.after, rfl⟩
      · cases unfound
  · exact fun absent => Option.eq_none_iff_forall_ne_some.2 fun s found => absent s (first?_eq_some_iff.1 found).whole

/-- `ds` is the text without its spans, which are taken out one after the other from the first on. -/
inductive Removed (d : Delimiters) : List Char → List Char → Prop where
  | done {cs : List Char} (absent : ∀ s : Span, cs ≠ s.around d) : Removed d cs cs
  | next {cs ds : List Char} {s : Span} (first : IsFirst d cs s) (later : Removed d s.after ds) :
      Removed d cs (s.before ++ ds)

theorem removed_iff : Removed d cs ds ↔ removeAll d cs = ds := by
  constructor
  · intro removed
    induction removed with
    | done absent => rw [removeAll, first?_eq_none_iff.2 absent]
    | next first _ ih =>
      rw [removeAll, first?_eq_some_iff.2 first, ← ih]
  · rintro rfl
    fun_induction removeAll d cs with
    | case1 cs unfound => exact .done (first?_eq_none_iff.1 unfound)
    | case2 cs s found ih => exact .next (first?_eq_some_iff.1 found) ih

end Span

namespace Leaf

variable {tag : String} {cs t u : List Char} {ts : List (List Char)} {i : Nat}

/-- At the beginning of `cs` stands a leaf of that tag with the text `t`. -/
def Begins (tag : String) (cs t : List Char) : Prop :=
  '<' ∉ t ∧ (Delimiters.element tag).opening ++ t ++ (Delimiters.element tag).closing <+: cs

theorem here?_eq_some_iff : here? (.element tag) cs = some t ↔ Begins tag cs t := by
  constructor
  · intro here
    rw [here?] at here
    split at here
    · cases here
    · next r stripped =>
      split at here
      · next closes =>
        cases here
        refine ⟨fun mem => by simpa using List.mem_takeWhile_imp mem, ?_⟩
        obtain ⟨rest, ends⟩ := List.isPrefixOf_iff_prefix.1 closes
        refine ⟨rest, ?_⟩
        rw [Text.eq_of_stripPrefix stripped, List.append_assoc, List.append_assoc, ends,
          List.takeWhile_append_dropWhile]
      · cases here
  · rintro ⟨plain, rest, rfl⟩
    have closing : (Delimiters.element tag).closing ++ rest = '<' :: ('/' :: (tag.toList ++ ['>']) ++ rest) := rfl
    rw [List.append_assoc, List.append_assoc, closing, here?_opening plain, ← closing, if_pos (List.prefix_append _ _)]

theorem Begins.eq (begins : Begins tag cs t) (begins' : Begins tag cs u) : t = u :=
  Option.some_inj.1 ((here?_eq_some_iff.2 begins).symm.trans (here?_eq_some_iff.2 begins'))

theorem not_begins_nil : ¬ Begins tag [] t := by
  rintro ⟨-, begins⟩
  simp [Delimiters.element] at begins

/-- These are the texts of all leaves of that tag, in the order of the places at which the leaves stand. -/
def AreTexts (tag : String) (cs : List Char) (ts : List (List Char)) : Prop :=
  ∃ places : List Nat, places.Pairwise (· < ·) ∧ (∀ i, i ∈ places ↔ ∃ t, Begins tag (cs.drop i) t) ∧
    List.Forall₂ (fun i t => Begins tag (cs.drop i) t) places ts

theorem areTexts_rawTexts (tag : String) (cs : List Char) : AreTexts tag cs (rawTexts (.element tag) cs) := by
  induction cs with
  | nil => exact ⟨[], .nil, fun i => by simp [not_begins_nil], .nil⟩
  | cons c r ih =>
    obtain ⟨places, ascending, complete, texts⟩ := ih
    have ascending' : (places.map (· + 1)).Pairwise (· < ·) :=
      List.pairwise_map.2 (ascending.imp Nat.succ_lt_succ)
    have texts' : List.Forall₂ (fun i t => Begins tag ((c :: r).drop i) t) (places.map (· + 1))
        (rawTexts (.element tag) r) := List.forall₂_map_left_iff.2 texts
    have complete' (i : Nat) : i + 1 ∈ places.map (· + 1) ↔ ∃ t, Begins tag ((c :: r).drop (i + 1)) t := by
      rw [List.drop_succ_cons, ← complete, List.mem_map_of_injective Nat.succ_injective]
    rw [rawTexts]
    split
    · next t here =>
      have begins := here?_eq_some_iff.1 here
      refine ⟨0 :: places.map (· + 1), List.pairwise_cons.2 ⟨by simp, ascending'⟩, fun i => ?_, .cons begins texts'⟩
      cases i with
      | zero => exact iff_of_true List.mem_cons_self ⟨t, begins⟩
      | succ i => rw [List.mem_cons, or_iff_right i.succ_ne_zero, complete']
    · next absent =>
      refine ⟨places.map (· + 1), ascending', fun i => ?_, texts'⟩
      cases i with
      | zero =>
        refine iff_of_false (by simp) ?_
        rintro ⟨t, begins⟩
        rw [List.drop_zero, ← here?_eq_some_iff, absent] at begins
        cases begins
      | succ i => exact complete' i

theorem areTexts_iff : AreTexts tag cs ts ↔ rawTexts (.element tag) cs = ts := by
  constructor
  · rintro ⟨places, ascending, complete, texts⟩
    obtain ⟨places', ascending', complete', texts'⟩ := areTexts_rawTexts tag cs
    obtain rfl : places = places' := ascending.eq_of_mem_iff ascending' fun i => by rw [complete, complete']
    exact List.right_unique_forall₂' (fun _ _ _ begins begins' => begins.eq begins') texts' texts
  · rintro rfl
    exact areTexts_rawTexts tag cs

end Leaf
end MigrationMining
