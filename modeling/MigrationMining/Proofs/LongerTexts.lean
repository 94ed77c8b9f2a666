import Mathlib.Data.List.Basic
import Mathlib.Data.List.TakeWhile
import MigrationMining.Proofs.JsonText

/-! What the reader finds in a text it finds in every longer text, but for a number that the text ends with. So no text
of an array or an object begins another one. -/

namespace MigrationMining
namespace Json

variable {cs rest more : List Char}

theorem exists_of_readDigits {ds : List Char} (read : readDigits cs = some (ds, rest)) :
    cs = ds ++ rest ∧ ds ≠ [] ∧ (∀ c ∈ ds, isDigit c) ∧ ∀ c ∈ rest.head?, ¬ isDigit c := by
  unfold readDigits at read
  rw [List.span_eq_takeWhile_dropWhile] at read
  split at read
  · cases read
  · next digits after free cut =>
    cases read
    obtain ⟨rfl, rfl⟩ := Prod.mk.inj cut
    refine ⟨List.takeWhile_append_dropWhile.symm, free, fun c mem => ?_, fun c mem => ?_⟩
    · exact List.all_eq_true.1 List.all_takeWhile c mem
    · have first := List.head?_dropWhile_not isDigit cs
      rw [Option.mem_def.1 mem] at first
      simpa using first

theorem readDigits_longer {ds : List Char} (read : readDigits cs = some (ds, rest)) (held : rest ≠ []) (more : List Char) :
    readDigits (cs ++ more) = some (ds, rest ++ more) := by
  obtain ⟨rfl, nonempty, digits, stop⟩ := exists_of_readDigits read
  rw [List.append_assoc]
  exact readDigits_append nonempty digits (List.head?_append_of_ne_nil rest held ▸ stop)

theorem readWhole_eq_some_iff {ds : List Char} :
    readWhole cs = some (ds, rest) ↔ readDigits cs = some (ds, rest) ∧ ∀ d ds', ds ≠ '0' :: d :: ds' := by
  unfold readWhole
  split
  · next d ds' r read =>
    rw [read]
    refine ⟨nofun, fun ⟨same, canonical⟩ => ?_⟩
    cases same
    exact absurd rfl (canonical d ds')
  · next free =>
    refine ⟨fun read => ⟨read, ?_⟩, And.left⟩
    rintro d ds' rfl
    exact free _ _ _ read

theorem readWhole_longer {ds : List Char} (read : readWhole cs = some (ds, rest)) (held : rest ≠ []) (more : List Char) :
    readWhole (cs ++ more) = some (ds, rest ++ more) := by
  obtain ⟨digits, canonical⟩ := readWhole_eq_some_iff.1 read
  exact readWhole_eq_some_iff.2 ⟨readDigits_longer digits held more, canonical⟩

theorem readFraction_longer {ds : Option (List Char)} (read : readFraction cs = some (ds, rest)) (held : rest ≠ [])
    (more : List Char) : readFraction (cs ++ more) = some (ds, rest ++ more) := by
  unfold readFraction at read
  split at read
  · next r =>
    obtain ⟨⟨digits, after⟩, found, same⟩ := Option.map_eq_some_iff.1 read
    cases same
    simp [readFraction, readDigits_longer found held more]
  · next free =>
    cases read
    obtain ⟨c, r, rfl⟩ := List.exists_cons_of_ne_nil held
    have other : c ≠ '.' := fun same => free r (by rw [same])
    simp [readFraction, other]

theorem readExponent_longer {e : Option Int} (read : readExponent cs = some (e, rest)) (held : rest ≠ [])
    (more : List Char) : readExponent (cs ++ more) = some (e, rest ++ more) := by
  unfold readExponent at read
  split at read
  · next c r =>
    split at read
    · next marked =>
      split at read
      case h_1 r | h_2 r =>
        obtain ⟨⟨digits, after⟩, found, same⟩ := Option.map_eq_some_iff.1 read
        cases same
        simp [readExponent, marked, readDigits_longer found held more]
      case h_3 minus plus =>
        obtain ⟨⟨digits, after⟩, found, same⟩ := Option.map_eq_some_iff.1 read
        cases same
        cases r with
        | nil => cases found
        | cons d r =>
          have unsigned : d ≠ '-' ∧ d ≠ '+' := ⟨fun same => minus r (by rw [same]), fun same => plus r (by rw [same])⟩
          have longer := readDigits_longer found held more
          rw [List.cons_append] at longer
          simp [readExponent, marked, unsigned, longer]
    · next unmarked =>
      cases read
      simp [readExponent, unmarked]
  · cases read
    exact absurd rfl held

theorem readNumber_longer {negative : Bool} {n : Number} (read : readNumber negative cs = some (n, rest))
    (held : rest ≠ []) (more : List Char) : readNumber negative (cs ++ more) = some (n, rest ++ more) := by
  simp only [readNumber, Option.bind_eq_bind, Option.bind_eq_some_iff] at read ⊢
  obtain ⟨⟨whole, r⟩, first, ⟨fraction, s⟩, second, ⟨exponent, t⟩, third, done⟩ := read
  -- each part leaves something of the text, since the last one does
  have last : t = rest := by
    split at done <;> simp_all
  subst last
  have later : s ≠ [] := by
    rintro rfl
    cases third
    exact held rfl
  have earlier : r ≠ [] := by
    rintro rfl
    cases second
    exact later rfl
  refine ⟨_, readWhole_longer first earlier more, _, readFraction_longer second later more, _,
    readExponent_longer third held more, ?_⟩
  split at done <;> simp_all

theorem exists_digit_of_readNumber {negative : Bool} {n : Number} (read : readNumber negative cs = some (n, rest)) :
    ∃ d r, cs = d :: r ∧ isDigit d := by
  simp only [readNumber, Option.bind_eq_bind, Option.bind_eq_some_iff] at read
  obtain ⟨⟨whole, r⟩, first, -⟩ := read
  obtain ⟨rfl, nonempty, digits, -⟩ := exists_of_readDigits (readWhole_eq_some_iff.1 first).1
  obtain ⟨d, ds, rfl⟩ := List.exists_cons_of_ne_nil nonempty
  exact ⟨d, ds ++ r, rfl, digits d List.mem_cons_self⟩

theorem readString_escape {e : Char} (simple : e ≠ 'u') (r : List Char) : readString ('\\' :: e :: r) =
    (unescape e).bind fun c => (readString r).map fun (s, t) => (c :: s, t) := by
  rw [readString]
  · cases unescape e <;> rfl
  · intro a b c d r' same
    exact absurd same simple

theorem readString_longer {s : List Char} (read : readString cs = some (s, rest)) :
    readString (cs ++ more) = some (s, rest ++ more) := by
  fun_induction readString cs generalizing s rest with
  | case1 | case3 | case4 | case5 | case7 | case9 | case11 => cases read
  | case2 r =>
    cases read
    simp [readString]
  | case6 a b c d n high surrogate e f g h r m low ch joined ih =>
    obtain ⟨⟨s, t⟩, later, same⟩ := Option.map_eq_some_iff.1 read
    cases same
    simp [readString, high, surrogate, low, joined, ih later]
  | case8 a b c d r n number plain ih =>
    obtain ⟨⟨s, t⟩, later, same⟩ := Option.map_eq_some_iff.1 read
    cases same
    simp [readString, number, plain, ih later]
  | case10 e r _ ch letter ih =>
    obtain ⟨⟨s, t⟩, later, same⟩ := Option.map_eq_some_iff.1 read
    cases same
    have simple : e ≠ 'u' := by
      rintro rfl
      cases letter
    simp [readString_escape simple, letter, ih later]
  | case12 c r quote _ solidus plain ih =>
    obtain ⟨⟨s, t⟩, later, same⟩ := Option.map_eq_some_iff.1 read
    cases same
    -- a reverse solidus at the end of the text begins an escape in a longer one, but then no string is read
    have ordinary : c ≠ '\\' := by
      rintro rfl
      cases r with
      | nil => cases later
      | cons e r => exact solidus e r rfl rfl
    simp [readString_plain quote ordinary plain, ih later]

theorem exists_of_skipSpace {c : Char} {r : List Char} (found : skipSpace cs = c :: r) :
    ∃ ws, (∀ c ∈ ws, isSpace c) ∧ ¬ isSpace c ∧ cs = ws ++ c :: r := by
  refine ⟨cs.takeWhile isSpace, List.all_eq_true.1 List.all_takeWhile, ?_, ?_⟩
  · have first := List.head?_dropWhile_not isSpace cs
    rw [← skipSpace, found] at first
    simpa using first
  · rw [← found]
    exact List.takeWhile_append_dropWhile.symm

theorem skipSpace_longer {c : Char} {r : List Char} (found : skipSpace cs = c :: r) (more : List Char) :
    skipSpace (cs ++ more) = c :: (r ++ more) := by
  obtain ⟨ws, blank, solid, rfl⟩ := exists_of_skipSpace found
  rw [List.append_assoc, List.cons_append]
  exact skipSpace_append blank solid _

theorem exists_of_readValue {fuel : Nat} {j : Json} (read : readValue fuel cs = some (j, rest)) :
    ∃ c r, skipSpace cs = c :: r := by
  cases fuel with
  | zero => cases read
  | succ fuel =>
    refine List.exists_cons_of_ne_nil fun blank => ?_
    rw [readValue, blank] at read
    cases read

theorem exists_of_readItems {fuel : Nat} {xs : List Json} (read : readItems fuel cs = some (xs, rest)) :
    ∃ c r, skipSpace cs = c :: r := by
  cases fuel with
  | zero => cases read
  | succ fuel =>
    rw [readItems] at read
    obtain ⟨_, value, -⟩ := Option.bind_eq_some_iff.1 read
    exact exists_of_readValue value

theorem exists_of_readMembers {fuel : Nat} {ms : List (String × Json)} (read : readMembers fuel cs = some (ms, rest)) :
    ∃ r, skipSpace cs = '"' :: r := by
  cases fuel with
  | zero => cases read
  | succ fuel =>
    rw [readMembers] at read
    split at read
    · next r found => exact ⟨r, found⟩
    · cases read

mutual

/-- A value is found in a longer text as well, unless it is a number that the text ends with. The induction is on the fuel;
a longer text is read with more of it. -/
theorem readValue_longer (more : List Char) : ∀ (fuel fuel' : Nat) (cs rest : List Char) (j : Json), fuel ≤ fuel' →
    readValue fuel cs = some (j, rest) → (rest = [] → ∀ n, j ≠ .number n) →
    readValue fuel' (cs ++ more) = some (j, rest ++ more)
  | 0, _, _, _, _, _, read, _ => by cases read
  | _ + 1, 0, _, _, _, enough, _, _ => absurd enough (by omega)
  | fuel + 1, fuel' + 1, cs, rest, j, enough, read, closed => by
    unfold readValue at read
    split at read
    case h_1 found | h_2 found | h_3 found =>
      cases read
      rw [readValue, skipSpace_longer found]
      rfl
    · next found =>
      obtain ⟨⟨s, t⟩, string, same⟩ := Option.map_eq_some_iff.1 read
      cases same
      rw [readValue, skipSpace_longer found]
      simp [readString_longer string]
    · next found =>
      obtain ⟨⟨n, t⟩, number, same⟩ := Option.map_eq_some_iff.1 read
      cases same
      rw [readValue, skipSpace_longer found]
      simp [readNumber_longer number (fun ended => closed ended n rfl) more]
    · next r found =>
      rw [readValue, skipSpace_longer found]
      split at read
      · next empty =>
        cases read
        simp [skipSpace_longer empty]
      · next filled =>
        obtain ⟨⟨xs, t⟩, items, same⟩ := Option.map_eq_some_iff.1 read
        cases same
        obtain ⟨c, s, first⟩ := exists_of_readItems items
        have other : c ≠ ']' := fun same => filled s (by rw [first, same])
        have longer := readItems_longer more fuel fuel' r _ _ (by omega) items
        simp [skipSpace_longer first, other, longer]
    · next r found =>
      rw [readValue, skipSpace_longer found]
      split at read
      · next empty =>
        cases read
        simp [skipSpace_longer empty]
      · next filled =>
        obtain ⟨⟨ms, t⟩, members, same⟩ := Option.map_eq_some_iff.1 read
        cases same
        obtain ⟨s, first⟩ := exists_of_readMembers members
        have longer := readMembers_longer more fuel fuel' r _ _ (by omega) members
        simp [skipSpace_longer first, longer]
    · obtain ⟨⟨n, t⟩, number, same⟩ := Option.map_eq_some_iff.1 read
      cases same
      obtain ⟨d, r, found, digit⟩ := exists_digit_of_readNumber number
      obtain ⟨ws, blank, -, rfl⟩ := exists_of_skipSpace found
      have longer := readNumber_longer number (fun ended => closed ended n rfl) more
      rw [found, List.cons_append] at longer
      rw [List.append_assoc, List.cons_append, readValue_digit digit blank, longer]
      rfl
termination_by structural fuel => fuel

theorem readItems_longer (more : List Char) : ∀ (fuel fuel' : Nat) (cs rest : List Char) (xs : List Json), fuel ≤ fuel' →
    readItems fuel cs = some (xs, rest) → readItems fuel' (cs ++ more) = some (xs, rest ++ more)
  | 0, _, _, _, _, _, read => by cases read
  | _ + 1, 0, _, _, _, enough, _ => absurd enough (by omega)
  | fuel + 1, fuel' + 1, cs, rest, xs, enough, read => by
    rw [readItems] at read
    obtain ⟨⟨x, t⟩, value, read⟩ := Option.bind_eq_some_iff.1 read
    have inside : t ≠ [] := by
      rintro rfl
      cases read
    have longer := readValue_longer more fuel fuel' cs t x (by omega) value fun ended => absurd ended inside
    rw [readItems, longer]
    dsimp only at read
    split at read
    · next r comma =>
      obtain ⟨⟨ys, s⟩, items, same⟩ := Option.map_eq_some_iff.1 read
      cases same
      have later := readItems_longer more fuel fuel' r _ _ (by omega) items
      simp [skipSpace_longer comma, later]
    · next r bracket =>
      cases read
      simp [skipSpace_longer bracket]
    · cases read
termination_by structural fuel => fuel

theorem readMembers_longer (more : List Char) : ∀ (fuel fuel' : Nat) (cs rest : List Char) (ms : List (String × Json)),
    fuel ≤ fuel' → readMembers fuel cs = some (ms, rest) → readMembers fuel' (cs ++ more) = some (ms, rest ++ more)
  | 0, _, _, _, _, _, read => by cases read
  | _ + 1, 0, _, _, _, enough, _ => absurd enough (by omega)
  | fuel + 1, fuel' + 1, cs, rest, ms, enough, read => by
    rw [readMembers] at read
    split at read
    · next r quoted =>
      obtain ⟨⟨k, s⟩, name, read⟩ := Option.bind_eq_some_iff.1 read
      dsimp only at read
      split at read
      · next u colon =>
        obtain ⟨⟨v, t⟩, value, read⟩ := Option.bind_eq_some_iff.1 read
        have inside : t ≠ [] := by
          rintro rfl
          cases read
        have longer := readValue_longer more fuel fuel' u t v (by omega) value fun ended => absurd ended inside
        rw [readMembers, skipSpace_longer quoted]
        simp only [readString_longer name, Option.bind_eq_bind, Option.bind_some, skipSpace_longer colon, longer]
        dsimp only at read
        split at read
        · next r comma =>
          obtain ⟨⟨ys, s⟩, members, same⟩ := Option.map_eq_some_iff.1 read
          cases same
          have later := readMembers_longer more fuel fuel' r _ _ (by omega) members
          simp [skipSpace_longer comma, later]
        · next r brace =>
          cases read
          simp [skipSpace_longer brace]
        · cases read
      · cases read
    · cases read
termination_by structural fuel => fuel

end

theorem skipSpace_eq_nil_iff : skipSpace cs = [] ↔ ∀ c ∈ cs, isSpace c := List.dropWhile_eq_nil_iff

theorem readChars_eq_some_iff {j : Json} : readChars cs = some j ↔
    ∃ rest, readValue (cs.length + 1) cs = some (j, rest) ∧ ∀ c ∈ rest, isSpace c := by
  unfold readChars
  cases readValue (cs.length + 1) cs with
  | none => simp
  | some read =>
    obtain ⟨i, rest⟩ := read
    simp [← skipSpace_eq_nil_iff, and_comm]

/-- If a text and a longer one are both read, and the first is no number, then what is added to it is white space. -/
theorem isSpace_of_readChars {j j' : Json} (short : readChars cs = some j) (closed : ∀ n, j ≠ .number n)
    (long : readChars (cs ++ more) = some j') : ∀ c ∈ more, isSpace c := by
  obtain ⟨rest, value, -⟩ := readChars_eq_some_iff.1 short
  obtain ⟨rest', value', blank⟩ := readChars_eq_some_iff.1 long
  have longer := readValue_longer more _ ((cs ++ more).length + 1) cs rest j (by simp) value fun _ => closed
  obtain ⟨-, rfl⟩ : j = j' ∧ rest ++ more = rest' := Prod.mk.inj (Option.some.inj (longer.symm.trans value'))
  exact fun c mem => blank c (List.mem_append_right rest mem)

theorem ne_number_of_brace {r : List Char} {j : Json} (read : readChars ('{' :: r) = some j) (n : Number) :
    j ≠ .number n := by
  obtain ⟨rest, value, -⟩ := readChars_eq_some_iff.1 read
  have brace := readValue_brace ('{' :: r).length (List.forall_mem_nil (isSpace ·)) r
  rw [List.nil_append, value] at brace
  rintro rfl
  split at brace
  · cases brace
  · obtain ⟨_, _, same⟩ := Option.map_eq_some_iff.1 brace.symm
    cases same

theorem readChars_of_cut {members : List (String × Json)} (exact : (object members).Exact)
    (cut : (object members).compact.toList = cs ++ more) (missing : more ≠ []) : readChars cs = none := by
  have long : readChars (cs ++ more) = some (object members) := by
    rw [← cut]
    exact read_compact exact
  have text : cs ++ more = '{' :: (renderMembers members ++ ['}']) := by simp [← cut, compact, renderCompact]
  refine Option.eq_none_iff_forall_ne_some.2 fun j short => ?_
  cases cs with
  | nil => cases short
  | cons c r =>
    obtain ⟨rfl, rest⟩ : c = '{' ∧ r ++ more = renderMembers members ++ ['}'] := by simpa using text
    have last : '}' ∈ more := by
      have ending := congrArg List.getLast? rest
      rw [List.getLast?_append_of_ne_nil r missing, List.getLast?_concat] at ending
      exact List.mem_of_getLast? ending
    have blank := isSpace_of_readChars short (ne_number_of_brace short) long '}' last
    contradiction

end Json
end MigrationMining
