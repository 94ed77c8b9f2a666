import MigrationMining.Json.Printer
import MigrationMining.Json.Reader
import Mathlib.Data.List.TakeDrop

/-! A JSON value is read back from both of its written forms, as long as its numbers are written digit by digit. The two
forms differ in white space only, so one induction on a form with arbitrary white space serves both. -/

namespace MigrationMining
namespace Json

def EndsNumber (rest : List Char) : Prop := ∀ c ∈ rest.head?, ¬ isDigit c ∧ c ≠ '.' ∧ c ≠ 'e' ∧ c ≠ 'E'

theorem isDigit_of_mem_toDigits {n : Nat} {c : Char} (h : c ∈ Nat.toDigits 10 n) : isDigit c :=
  Nat.isDigit_of_mem_toDigits (by decide) (by decide) h

theorem digitsValue_toDigits (n : Nat) : digitsValue (Nat.toDigits 10 n) = n := by
  have ofDigits : Nat.ofDigitChars 10 (Nat.toDigits 10 n) 0 = n := Nat.ofDigitChars_ten_toDigits
  rw [Nat.ofDigitChars_eq_foldl] at ofDigits
  simpa [digitsValue, Nat.mul_comm] using ofDigits

theorem head?_toDigits_ne_zero {n : Nat} (h : 0 < n) : (Nat.toDigits 10 n).head? ≠ some '0' := by
  induction n using Nat.strongRecOn with
  | ind n ih =>
    by_cases small : n < 10
    · rw [Nat.toDigits_of_lt_base small]
      have positive : ∀ d < 10, 0 < d → [Nat.digitChar d].head? ≠ some '0' := by decide
      exact positive n small h
    · rw [Nat.toDigits_of_base_le (by decide) (by omega)]
      obtain ⟨d, ds, digits⟩ := List.exists_cons_of_ne_nil (Nat.toDigits_ne_nil (n := n / 10) (b := 10))
      have first := ih (n / 10) (by omega) (by omega)
      rw [digits] at first ⊢
      exact first

theorem readDigits_append {ds rest : List Char} (ne : ds ≠ []) (digits : ∀ c ∈ ds, isDigit c)
    (stop : ∀ c ∈ rest.head?, ¬ isDigit c) : readDigits (ds ++ rest) = some (ds, rest) := by
  have cut : (ds ++ rest).span isDigit = (ds, rest) := by
    rw [List.span_eq_takeWhile_dropWhile, List.takeWhile_append_of_pos digits, List.dropWhile_append_of_pos digits]
    cases rest with
    | nil => simp
    | cons c r =>
      have hc : ¬ isDigit c := stop c rfl
      simp [hc]
  obtain ⟨d, ds, rfl⟩ := List.exists_cons_of_ne_nil ne
  rw [readDigits, cut]

theorem readWhole_toDigits (n : Nat) {rest : List Char} (stop : EndsNumber rest) :
    readWhole (Nat.toDigits 10 n ++ rest) = some (Nat.toDigits 10 n, rest) := by
  have digits := readDigits_append Nat.toDigits_ne_nil (fun _ => isDigit_of_mem_toDigits (n := n))
    fun c hc => (stop c hc).1
  rw [readWhole, digits]
  split
  · next t r same =>
    obtain ⟨zero, -⟩ : Nat.toDigits 10 n = '0' :: _ :: _ ∧ rest = _ := by simpa using same
    rcases Nat.eq_zero_or_pos n with rfl | pos
    · simp [Nat.toDigits_zero] at zero
    · exact absurd (by rw [zero]; rfl) (head?_toDigits_ne_zero pos)
  · rfl

theorem readNumber_toDigits (negative : Bool) (n : Nat) {rest : List Char} (stop : EndsNumber rest) :
    readNumber negative (Nat.toDigits 10 n ++ rest) = some (.integer negative n, rest) := by
  have fraction : readFraction rest = some (none, rest) := by
    cases rest with
    | nil => rfl
    | cons c r =>
      have hc : c ≠ '.' := (stop c rfl).2.1
      unfold readFraction
      split
      · simp_all
      · rfl
  have exponent : readExponent rest = some (none, rest) := by
    cases rest with
    | nil => rfl
    | cons c r => simp [readExponent, (stop c rfl).2.2]
  simp [readNumber, readWhole_toDigits n stop, fraction, exponent, digitsValue_toDigits]

theorem hexValue_hexDigit : ∀ d < 16, hexValue (hexDigit d) = some d := by decide

theorem readString_plain {c : Char} (quote : c ≠ '"') (solidus : c ≠ '\\') (plain : ¬ c.toNat < 32) (r : List Char) :
    readString (c :: r) = (readString r).map fun (s, t) => (c :: s, t) := by
  rw [readString.eq_def]
  split
  case h_5 same =>
    obtain ⟨rfl, rfl⟩ := List.cons.inj same
    exact if_neg plain
  all_goals simp_all

theorem readString_escapeChar (c : Char) (rest : List Char) :
    readString (escapeChar c ++ rest) = (readString rest).map fun (s, t) => (c :: s, t) := by
  unfold escapeChar
  split
  iterate 7 simp [readString, unescape]
  next quote solidus newline ret tab backspace feed =>
    split
    · next control =>
      have high := hexValue_hexDigit (c.toNat / 16) (by omega)
      have low := hexValue_hexDigit (c.toNat % 16) (by omega)
      have zero : hexValue '0' = some 0 := by decide
      have number : c.toNat / 16 * 16 + c.toNat % 16 = c.toNat := by omega
      simp [readString, hexValue4, zero, high, low, number, show ¬ 0xD800 ≤ c.toNat by omega]
    · next plain => exact readString_plain quote solidus plain rest

theorem readString_flatMap (cs rest : List Char) :
    readString (cs.flatMap escapeChar ++ '"' :: rest) = some (cs, rest) := by
  induction cs with
  | nil => simp [readString]
  | cons c cs ih => simp [readString_escapeChar, ih]

/-- White space between the parts of a value: before each item at some depth, and after the colon of a member. -/
structure Layout where
  gap : Nat → List Char
  colon : List Char
  gap_space : ∀ depth, ∀ c ∈ gap depth, isSpace c
  colon_space : ∀ c ∈ colon, isSpace c

def Layout.compact : Layout := ⟨fun _ => [], [], by simp, by simp⟩

def Layout.indented : Layout where
  gap := newLine
  colon := [' ']
  gap_space depth c h := by
    rcases List.mem_cons.1 h with rfl | h
    · rfl
    · rw [List.eq_of_mem_replicate h]
      rfl
  colon_space := by simp [isSpace]

mutual

def write (l : Layout) (depth : Nat) : Json → List Char
  | .null => "null".toList
  | .boolean b => (if b then "true" else "false").toList
  | .number n => n.render
  | .string s => quote s
  | .array [] => ['[', ']']
  | .array (x :: r) => '[' :: (writeItems l (depth + 1) (x :: r) ++ l.gap depth ++ [']'])
  | .object [] => ['{', '}']
  | .object (m :: r) => '{' :: (writeMembers l (depth + 1) (m :: r) ++ l.gap depth ++ ['}'])

def writeItems (l : Layout) (depth : Nat) : List Json → List Char
  | [] => []
  | [x] => l.gap depth ++ write l depth x
  | x :: y :: r => l.gap depth ++ write l depth x ++ ',' :: writeItems l depth (y :: r)

def writeMembers (l : Layout) (depth : Nat) : List (String × Json) → List Char
  | [] => []
  | [(k, v)] => l.gap depth ++ quote k ++ ':' :: (l.colon ++ write l depth v)
  | (k, v) :: m :: r =>
    l.gap depth ++ quote k ++ ':' :: (l.colon ++ (write l depth v ++ ',' :: writeMembers l depth (m :: r)))

end

mutual

theorem renderCompact_eq (depth : Nat) : ∀ j : Json, renderCompact j = write .compact depth j
  | .null => rfl
  | .boolean _ => rfl
  | .number _ => rfl
  | .string _ => rfl
  | .array [] => rfl
  | .array (x :: r) => by
    rw [renderCompact, write, renderItems_eq (depth + 1)]
    simp [Layout.compact]
  | .object [] => rfl
  | .object (m :: r) => by
    rw [renderCompact, write, renderMembers_eq (depth + 1)]
    simp [Layout.compact]

theorem renderItems_eq (depth : Nat) : ∀ xs, renderItems xs = writeItems .compact depth xs
  | [] => rfl
  | [x] => by
    rw [renderItems, writeItems, renderCompact_eq depth]
    rfl
  | x :: y :: r => by
    rw [renderItems, writeItems, renderCompact_eq depth, renderItems_eq depth]
    rfl

theorem renderMembers_eq (depth : Nat) : ∀ ms, renderMembers ms = writeMembers .compact depth ms
  | [] => rfl
  | [(k, v)] => by
    rw [renderMembers, writeMembers, renderCompact_eq depth]
    rfl
  | (k, v) :: m :: r => by
    rw [renderMembers, writeMembers, renderCompact_eq depth, renderMembers_eq depth]
    rfl

end

mutual

theorem renderIndented_eq (depth : Nat) : ∀ j : Json, renderIndented depth j = write .indented depth j
  | .null => rfl
  | .boolean _ => rfl
  | .number _ => rfl
  | .string _ => rfl
  | .array [] => rfl
  | .array (x :: r) => by
    rw [renderIndented, write, renderIndentedItems_eq]
    rfl
  | .object [] => rfl
  | .object (m :: r) => by
    rw [renderIndented, write, renderIndentedMembers_eq]
    rfl

theorem renderIndentedItems_eq (depth : Nat) : ∀ xs, renderIndentedItems depth xs = writeItems .indented depth xs
  | [] => rfl
  | [x] => by
    rw [renderIndentedItems, writeItems, renderIndented_eq]
    rfl
  | x :: y :: r => by
    rw [renderIndentedItems, writeItems, renderIndented_eq, renderIndentedItems_eq]
    rfl

theorem renderIndentedMembers_eq (depth : Nat) :
    ∀ ms, renderIndentedMembers depth ms = writeMembers .indented depth ms
  | [] => rfl
  | [(k, v)] => by
    rw [renderIndentedMembers, writeMembers, renderIndented_eq]
    rfl
  | (k, v) :: m :: r => by
    rw [renderIndentedMembers, writeMembers, renderIndented_eq, renderIndentedMembers_eq]
    rfl

end

def Number.Exact : Number → Prop
  | .integer false n => n < Nat.pow 2 64
  | .integer true n => n ≠ 0 ∧ n ≤ Nat.pow 2 63
  | .decimal .. => False

mutual

def Exact : Json → Prop
  | .number n => n.Exact
  | .array items => ExactItems items
  | .object members => ExactMembers members
  | _ => True

def ExactItems : List Json → Prop
  | [] => True
  | x :: xs => Exact x ∧ ExactItems xs

def ExactMembers : List (String × Json) → Prop
  | [] => True
  | (_, v) :: ms => Exact v ∧ ExactMembers ms

end

theorem skipSpace_append {ws : List Char} (blank : ∀ c ∈ ws, isSpace c) {c : Char} (solid : ¬ isSpace c)
    (r : List Char) : skipSpace (ws ++ c :: r) = c :: r := by
  rw [skipSpace, List.dropWhile_append_of_pos blank, List.dropWhile_cons_of_neg solid]

theorem endsNumber_cons {c : Char} (h : isSpace c ∨ c = ',' ∨ c = ']' ∨ c = '}') (r : List Char) :
    EndsNumber (c :: r) := by
  intro d hd
  obtain rfl : c = d := by simpa using hd
  simp only [isSpace, Bool.or_eq_true, decide_eq_true_eq] at h
  rcases h with (((rfl | rfl) | rfl) | rfl) | rfl | rfl | rfl <;> decide

theorem endsNumber_append {ws : List Char} (blank : ∀ c ∈ ws, isSpace c) {c : Char}
    (h : c = ',' ∨ c = ']' ∨ c = '}') (r : List Char) : EndsNumber (ws ++ c :: r) := by
  cases ws with
  | nil => exact endsNumber_cons (.inr h) r
  | cons b ws => exact endsNumber_cons (.inl (blank b List.mem_cons_self)) _

theorem render_eq {n : Number} (exact : n.Exact) : ∃ negative m, n = .integer negative m ∧
    n.render = (if negative then ['-'] else []) ++ Nat.toDigits 10 m := by
  match n, exact with
  | .integer false m, small =>
    have small : m < Nat.pow 2 64 := small
    exact ⟨false, m, rfl, by simp [Number.render, small, Nat.repr_eq_ofList_toDigits]⟩
  | .integer true m, small =>
    have small : m ≠ 0 ∧ m ≤ Nat.pow 2 63 := small
    exact ⟨true, m, rfl, by simp [Number.render, small, Nat.repr_eq_ofList_toDigits]⟩

theorem write_head (l : Layout) (depth : Nat) {j : Json} (exact : j.Exact) :
    ∃ c r, write l depth j = c :: r ∧ ¬ isSpace c ∧ c ≠ ']' := by
  match j, exact with
  | .null, _ => exact ⟨_, _, rfl, by decide, by decide⟩
  | .boolean true, _ => exact ⟨_, _, rfl, by decide, by decide⟩
  | .boolean false, _ => exact ⟨_, _, rfl, by decide, by decide⟩
  | .string _, _ => exact ⟨_, _, rfl, by decide, by decide⟩
  | .array [], _ => exact ⟨_, _, rfl, by decide, by decide⟩
  | .array (_ :: _), _ => exact ⟨_, _, rfl, by decide, by decide⟩
  | .object [], _ => exact ⟨_, _, rfl, by decide, by decide⟩
  | .object (_ :: _), _ => exact ⟨_, _, rfl, by decide, by decide⟩
  | .number n, exact =>
    obtain ⟨negative, m, rfl, text⟩ := render_eq exact
    rw [write, text]
    cases negative with
    | true => exact ⟨_, _, rfl, by decide, by decide⟩
    | false =>
      obtain ⟨d, ds, digits⟩ := List.exists_cons_of_ne_nil (Nat.toDigits_ne_nil (n := m) (b := 10))
      have digit : isDigit d := isDigit_of_mem_toDigits (n := m) (by rw [digits]; exact List.mem_cons_self)
      refine ⟨d, ds, by simp [digits], ?_, ?_⟩
      · rintro space
        have := (endsNumber_cons (.inl space) [] d rfl).1
        contradiction
      · rintro rfl
        contradiction

theorem readValue_digit {fuel : Nat} {d : Char} {r : List Char} (digit : isDigit d) {ws : List Char}
    (blank : ∀ c ∈ ws, isSpace c) :
    readValue (fuel + 1) (ws ++ d :: r) = (readNumber false (d :: r)).map fun (n, r) => (.number n, r) := by
  have solid : ¬ isSpace d := fun space => (endsNumber_cons (.inl space) [] d rfl).1 digit
  rw [readValue, skipSpace_append blank solid]
  split
  case h_8 => rfl
  all_goals next same => exact absurd digit (by rw [(List.cons.inj same).1]; decide)

theorem readValue_number (fuel : Nat) {n : Number} (exact : n.Exact) {ws rest : List Char}
    (blank : ∀ c ∈ ws, isSpace c) (stop : EndsNumber rest) :
    readValue (fuel + 1) (ws ++ (n.render ++ rest)) = some (.number n, rest) := by
  obtain ⟨negative, m, rfl, text⟩ := render_eq exact
  rw [text]
  cases negative with
  | true =>
    simp only [if_true, List.cons_append, List.nil_append]
    rw [readValue, skipSpace_append blank (by decide)]
    simp [readNumber_toDigits true m stop]
  | false =>
    obtain ⟨d, ds, digits⟩ := List.exists_cons_of_ne_nil (Nat.toDigits_ne_nil (n := m) (b := 10))
    have digit : isDigit d := isDigit_of_mem_toDigits (n := m) (by rw [digits]; exact List.mem_cons_self)
    have number := readNumber_toDigits false m stop
    rw [digits, List.cons_append] at number
    simp only [Bool.false_eq_true, if_false, List.nil_append, digits, List.cons_append]
    rw [readValue_digit digit blank, number]
    rfl

theorem readValue_quote (fuel : Nat) (s : String) {ws : List Char} (blank : ∀ c ∈ ws, isSpace c) (rest : List Char) :
    readValue (fuel + 1) (ws ++ (quote s ++ rest)) = some (.string s, rest) := by
  have whole : quote s ++ rest = '"' :: (s.toList.flatMap escapeChar ++ '"' :: rest) := by simp [quote]
  rw [whole, readValue, skipSpace_append blank (by decide)]
  simp [readString_flatMap]

theorem readValue_bracket (fuel : Nat) {ws : List Char} (blank : ∀ c ∈ ws, isSpace c) (r : List Char) :
    readValue (fuel + 1) (ws ++ '[' :: r) = match skipSpace r with
      | ']' :: t => some (array [], t)
      | _ => (readItems fuel r).map fun (xs, r) => (array xs, r) := by
  rw [readValue, skipSpace_append blank (by decide)]
  rfl

theorem readValue_items (fuel : Nat) {ws r : List Char} (blank : ∀ c ∈ ws, isSpace c)
    (more : ∀ t, skipSpace r ≠ ']' :: t) :
    readValue (fuel + 1) (ws ++ '[' :: r) = (readItems fuel r).map fun (xs, r) => (.array xs, r) := by
  rw [readValue_bracket fuel blank]
  split
  · next t same => exact absurd same (more t)
  · rfl

theorem readValue_brace (fuel : Nat) {ws : List Char} (blank : ∀ c ∈ ws, isSpace c) (r : List Char) :
    readValue (fuel + 1) (ws ++ '{' :: r) = match skipSpace r with
      | '}' :: t => some (object [], t)
      | _ => (readMembers fuel r).map fun (ms, r) => (object ms, r) := by
  rw [readValue, skipSpace_append blank (by decide)]
  rfl

theorem readValue_members (fuel : Nat) {ws r : List Char} (blank : ∀ c ∈ ws, isSpace c)
    (more : ∀ t, skipSpace r ≠ '}' :: t) :
    readValue (fuel + 1) (ws ++ '{' :: r) = (readMembers fuel r).map fun (ms, r) => (.object ms, r) := by
  rw [readValue_brace fuel blank]
  split
  · next t same => exact absurd same (more t)
  · rfl

theorem skipSpace_writeItems (l : Layout) (depth : Nat) {x : Json} {xs : List Json} (exact : ExactItems (x :: xs))
    (rest t : List Char) : skipSpace (writeItems l depth (x :: xs) ++ rest) ≠ ']' :: t := by
  obtain ⟨c, r, first, solid, ne⟩ := write_head l depth exact.1
  cases xs <;>
  · rw [writeItems, first]
    simp only [List.append_assoc, List.cons_append]
    rw [skipSpace_append (l.gap_space depth) solid]
    simp [ne]

theorem skipSpace_writeMembers (l : Layout) (depth : Nat) (k : String) (v : Json) (ms : List (String × Json))
    (rest t : List Char) : skipSpace (writeMembers l depth ((k, v) :: ms) ++ rest) ≠ '}' :: t := by
  cases ms <;>
  · rw [writeMembers, quote]
    simp only [List.append_assoc, List.cons_append]
    rw [skipSpace_append (l.gap_space depth) (by decide)]
    simp

theorem readMembers_colon (fuel : Nat) (k : String) {gap : List Char} (blank : ∀ c ∈ gap, isSpace c) {cs r : List Char}
    {v : Json} (value : readValue fuel cs = some (v, r)) :
    (∀ t, skipSpace r = ',' :: t → readMembers (fuel + 1) (gap ++ (quote k ++ ':' :: cs)) =
      (readMembers fuel t).map fun (ms, r) => ((k, v) :: ms, r)) ∧
    ∀ t, skipSpace r = '}' :: t → readMembers (fuel + 1) (gap ++ (quote k ++ ':' :: cs)) = some ([(k, v)], t) := by
  have whole : quote k ++ ':' :: cs = '"' :: (k.toList.flatMap escapeChar ++ '"' :: ':' :: cs) := by simp [quote]
  have colon : skipSpace (':' :: cs) = ':' :: cs := rfl
  rw [whole, readMembers, skipSpace_append blank (by decide)]
  simp only [readString_flatMap, Option.bind_some, Option.bind_eq_bind, colon, value, String.ofList_toList]
  constructor
  · intro t comma
    simp only [comma]
  · intro t brace
    simp only [brace]

mutual

theorem readValue_write (l : Layout) : ∀ (j : Json) (depth fuel : Nat) (ws rest : List Char), j.Exact →
    (∀ c ∈ ws, isSpace c) → EndsNumber rest → (write l depth j).length < fuel →
    readValue fuel (ws ++ (write l depth j ++ rest)) = some (j, rest)
  | _, _, 0, _, _, _, _, _, enough => absurd enough (by omega)
  | .null, _, fuel + 1, ws, rest, _, blank, _, _ => by
    rw [readValue]
    simp [write, skipSpace_append blank (by decide : ¬ isSpace 'n')]
  | .boolean true, _, fuel + 1, ws, rest, _, blank, _, _ => by
    rw [readValue]
    simp [write, skipSpace_append blank (by decide : ¬ isSpace 't')]
  | .boolean false, _, fuel + 1, ws, rest, _, blank, _, _ => by
    rw [readValue]
    simp [write, skipSpace_append blank (by decide : ¬ isSpace 'f')]
  | .number n, _, fuel + 1, ws, rest, exact, blank, stop, _ => readValue_number fuel exact blank stop
  | .string s, _, fuel + 1, ws, rest, _, blank, _, _ => readValue_quote fuel s blank rest
  | .array [], _, fuel + 1, ws, rest, _, blank, _, _ => by
    simp only [write, List.cons_append, List.nil_append]
    rw [readValue, skipSpace_append blank (by decide)]
    rfl
  | .array (x :: xs), depth, fuel + 1, ws, rest, exact, blank, _, enough => by
    have items := readItems_write l x xs (depth + 1) depth fuel rest exact (by simp [write] at enough; omega)
    simp only [write, List.cons_append, List.append_assoc, List.nil_append]
    rw [readValue_items fuel blank (skipSpace_writeItems l (depth + 1) exact _), items]
    rfl
  | .object [], _, fuel + 1, ws, rest, _, blank, _, _ => by
    simp only [write, List.cons_append, List.nil_append]
    rw [readValue, skipSpace_append blank (by decide)]
    rfl
  | .object ((k, v) :: ms), depth, fuel + 1, ws, rest, exact, blank, _, enough => by
    have members := readMembers_write l k v ms (depth + 1) depth fuel rest exact (by simp [write] at enough; omega)
    simp only [write, List.cons_append, List.append_assoc, List.nil_append]
    rw [readValue_members fuel blank (skipSpace_writeMembers l (depth + 1) k v ms _), members]
    rfl
termination_by structural _ _ fuel => fuel

theorem readItems_write (l : Layout) : ∀ (x : Json) (xs : List Json) (depth outer fuel : Nat) (rest : List Char),
    ExactItems (x :: xs) → (writeItems l depth (x :: xs)).length + 1 < fuel →
    readItems fuel (writeItems l depth (x :: xs) ++ (l.gap outer ++ ']' :: rest)) = some (x :: xs, rest)
  | _, _, _, _, 0, _, _, enough => absurd enough (by omega)
  | x, [], depth, outer, fuel + 1, rest, exact, enough => by
    have value := readValue_write l x depth fuel (l.gap depth) (l.gap outer ++ ']' :: rest) exact.1 (l.gap_space depth)
      (endsNumber_append (l.gap_space outer) (by simp) rest) (by simp [writeItems] at enough; omega)
    rw [writeItems, List.append_assoc, readItems, value]
    simp [skipSpace_append (l.gap_space outer) (by decide : ¬ isSpace ']')]
  | x, y :: r, depth, outer, fuel + 1, rest, exact, enough => by
    have later := readItems_write l y r depth outer fuel rest exact.2 (by simp [writeItems] at enough; omega)
    have value := readValue_write l x depth fuel (l.gap depth)
      (',' :: (writeItems l depth (y :: r) ++ (l.gap outer ++ ']' :: rest))) exact.1 (l.gap_space depth)
      (endsNumber_cons (by simp) _) (by simp [writeItems] at enough; omega)
    have comma (t : List Char) : skipSpace (',' :: t) = ',' :: t := rfl
    rw [writeItems, List.append_assoc, List.append_assoc, List.cons_append, readItems, value]
    simp [comma, later]
termination_by structural _ _ _ _ fuel => fuel

theorem readMembers_write (l : Layout) : ∀ (k : String) (v : Json) (ms : List (String × Json))
    (depth outer fuel : Nat) (rest : List Char), ExactMembers ((k, v) :: ms) →
    (writeMembers l depth ((k, v) :: ms)).length + 1 < fuel →
    readMembers fuel (writeMembers l depth ((k, v) :: ms) ++ (l.gap outer ++ '}' :: rest)) = some ((k, v) :: ms, rest)
  | _, _, _, _, _, 0, _, _, enough => absurd enough (by omega)
  | k, v, [], depth, outer, fuel + 1, rest, exact, enough => by
    have value := readValue_write l v depth fuel l.colon (l.gap outer ++ '}' :: rest) exact.1 l.colon_space
      (endsNumber_append (l.gap_space outer) (by simp) rest) (by simp [writeMembers] at enough; omega)
    simp only [writeMembers, List.append_assoc, List.cons_append]
    exact (readMembers_colon fuel k (l.gap_space depth) value).2 rest (skipSpace_append (l.gap_space outer) (by decide) rest)
  | k, v, (k', v') :: ms, depth, outer, fuel + 1, rest, exact, enough => by
    have later := readMembers_write l k' v' ms depth outer fuel rest exact.2 (by simp [writeMembers] at enough; omega)
    have value := readValue_write l v depth fuel l.colon
      (',' :: (writeMembers l depth ((k', v') :: ms) ++ (l.gap outer ++ '}' :: rest))) exact.1 l.colon_space
      (endsNumber_cons (by simp) _) (by simp [writeMembers] at enough; omega)
    have comma (t : List Char) : skipSpace (',' :: t) = ',' :: t := rfl
    simp only [writeMembers, List.append_assoc, List.cons_append]
    rw [(readMembers_colon fuel k (l.gap_space depth) value).1 _ (comma _), later]
    rfl
termination_by structural _ _ _ _ _ fuel => fuel

end

theorem readChars_write (l : Layout) {j : Json} (exact : j.Exact) : readChars (write l 0 j) = some j := by
  have value := readValue_write l j 0 ((write l 0 j).length + 1) [] [] exact (by simp) (by simp [EndsNumber]) (by omega)
  rw [List.nil_append, List.append_nil] at value
  simp [readChars, value, skipSpace]

theorem read_compact {j : Json} (exact : j.Exact) : read j.compact = some j := by
  rw [read, compact, renderCompact_eq 0, String.toList_ofList]
  exact readChars_write .compact exact

theorem read_indented {j : Json} (exact : j.Exact) : read j.indented = some j := by
  rw [read, indented, renderIndented_eq, String.toList_ofList]
  exact readChars_write .indented exact

end Json
end MigrationMining
