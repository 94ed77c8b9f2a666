import Mathlib.Data.List.Basic
import MigrationMining.Markup.Leaf

/-! Element trees and the text they are written as: which spans and leaves are found in the text of a tree. -/

namespace MigrationMining

namespace Text

/-- No occurrence of the pattern begins in the text, whatever follows. -/
def Passes (p : List Char) : List Char → Prop
  | [] => True
  | c :: x => (∀ y, ¬ p <+: c :: (x ++ y)) ∧ Passes p x

variable {p x x' : List Char}

theorem Passes.append (first : Passes p x) (second : Passes p x') : Passes p (x ++ x') := by
  induction x with
  | nil => exact second
  | cons c x ih =>
    have here (y : List Char) : ¬ p <+: c :: (x ++ x' ++ y) := by
      rw [List.append_assoc]
      exact first.1 (x' ++ y)
    exact ⟨here, ih first.2⟩

theorem passes_of_notMem {c : Char} {q : List Char} (absent : c ∉ x) : Passes (c :: q) x := by
  induction x with
  | nil => trivial
  | cons d x ih =>
    rw [List.mem_cons, not_or] at absent
    exact ⟨fun y begins => absent.1 (List.cons_prefix_cons.1 begins).1, ih absent.2⟩

theorem cutAt_append (passes : Passes p x) (y : List Char) :
    cutAt p (x ++ y) = (cutAt p y).map fun (a, b) => (x ++ a, b) := by
  induction x with
  | nil => simp
  | cons c x ih =>
    have here : ¬ p.isPrefixOf (c :: (x ++ y)) = true := fun begins => passes.1 y (List.isPrefixOf_iff_prefix.1 begins)
    rw [List.cons_append, cutAt, if_neg here, ih passes.2, Option.map_map]
    rfl

theorem cutAt_self (p y : List Char) : cutAt p (p ++ y) = some ([], y) := by
  cases whole : p ++ y with
  | nil =>
    obtain ⟨rfl, rfl⟩ := List.append_eq_nil_iff.1 whole
    rfl
  | cons c r =>
    have begins : p.isPrefixOf (c :: r) = true := List.isPrefixOf_iff_prefix.2 ⟨y, whole⟩
    rw [cutAt, if_pos begins, ← whole, List.drop_left]

theorem stripPrefix_eq_some_iff {p cs rest : List Char} : stripPrefix p cs = some rest ↔ cs = p ++ rest := by
  refine ⟨eq_of_stripPrefix, ?_⟩
  rintro rfl
  induction p with
  | nil => rfl
  | cons c p ih => simpa [stripPrefix] using ih

end Text

namespace Span

open Text

variable {d : Delimiters} {x y : List Char}

theorem first?_append (passes : Passes d.opening x) (y : List Char) :
    first? d (x ++ y) = (first? d y).map fun s => { s with before := x ++ s.before } := by
  unfold first?
  rw [cutAt_append passes]
  cases cutAt d.opening y with
  | none => rfl
  | some cut =>
    simp only [Option.map_some]
    cases cutAt d.closing cut.2 <;> rfl

theorem first?_here (inside : Passes d.closing x) (y : List Char) :
    first? d (d.opening ++ (x ++ (d.closing ++ y))) = some ⟨[], x, y⟩ := by
  unfold first?
  rw [cutAt_self]
  simp only [cutAt_append inside, cutAt_self, Option.map_some, List.append_nil]

theorem first?_nil (d : Delimiters) : first? d [] = none := by
  have opens : d.opening.isEmpty = false := List.isEmpty_eq_false_iff.2 d.opening_ne_nil
  simp [first?, cutAt, opens]

theorem removeAll_append (passes : Passes d.opening x) (y : List Char) : removeAll d (x ++ y) = x ++ removeAll d y := by
  rw [removeAll, first?_append passes, removeAll.eq_def d y]
  cases first? d y with
  | none => rfl
  | some s => simp

theorem removeAll_here (inside : Passes d.closing x) (y : List Char) :
    removeAll d (d.opening ++ (x ++ (d.closing ++ y))) = removeAll d y := by
  rw [removeAll, first?_here inside]
  rfl

theorem removeAll_nil (d : Delimiters) : removeAll d [] = [] := by
  rw [removeAll, first?_nil]

theorem insides_append (passes : Passes d.opening x) (y : List Char) : insides d (x ++ y) = insides d y := by
  rw [insides, first?_append passes, insides.eq_def d y]
  cases first? d y <;> rfl

theorem insides_here (inside : Passes d.closing x) (y : List Char) :
    insides d (d.opening ++ (x ++ (d.closing ++ y))) = x :: insides d y := by
  rw [insides, first?_here inside]

theorem insides_nil (d : Delimiters) : insides d [] = [] := by
  rw [insides, first?_nil]

end Span

namespace Leaf

open Text

variable {d : Delimiters} {x y t : List Char}

theorem here?_of_not_begins (other : ¬ d.opening <+: x) : here? d x = none := by
  have unstripped : stripPrefix d.opening x = none := by
    refine Option.eq_none_iff_forall_ne_some.2 fun rest stripped => other ?_
    exact ⟨rest, (stripPrefix_eq_some_iff.1 stripped).symm⟩
  simp [here?, unstripped]

theorem here?_opening (text : '<' ∉ t) (q : List Char) :
    here? d (d.opening ++ (t ++ '<' :: q)) = if d.closing <+: '<' :: q then some t else none := by
  have isText : ∀ c ∈ t, decide (c ≠ '<') = true := fun c mem => decide_eq_true fun h => text (h ▸ mem)
  have taken : (t ++ '<' :: q).takeWhile (· ≠ '<') = t := by
    rw [List.takeWhile_append_of_pos isText, List.takeWhile_cons_of_neg (by simp), List.append_nil]
  have dropped : (t ++ '<' :: q).dropWhile (· ≠ '<') = '<' :: q := by
    rw [List.dropWhile_append_of_pos isText, List.dropWhile_cons_of_neg (by simp)]
  rw [here?, stripPrefix_eq_some_iff.2 rfl]
  simp only [taken, dropped, List.isPrefixOf_iff_prefix]

theorem rawText?_append (passes : Passes d.opening x) (y : List Char) : rawText? d (x ++ y) = rawText? d y := by
  induction x with
  | nil => rfl
  | cons c x ih =>
    rw [List.cons_append, rawText?, here?_of_not_begins (passes.1 y), Option.none_or, ih passes.2]

end Leaf

/-- The name of an element: nothing that is markup by itself. -/
structure TagName where
  text : String
  nonempty : text.toList ≠ []
  plain : ∀ c ∈ text.toList, c ∉ ['<', '>', '/', '!']
  deriving DecidableEq

namespace TagName

open Text

variable {m n : TagName}

def isName (text : String) : Bool :=
  !text.toList.isEmpty && text.toList.all (['<', '>', '/', '!'].contains · = false)

def of (text : String) (name : isName text = true) : TagName where
  text := text
  nonempty empty := by simp [isName, empty] at name
  plain := by
    have all := (Bool.and_eq_true_iff.1 name).2
    simpa using all

def opening (n : TagName) : List Char := '<' :: (n.text.toList ++ ['>'])

def closing (n : TagName) : List Char := '<' :: '/' :: (n.text.toList ++ ['>'])

theorem opening_append (n : TagName) (x : List Char) : n.opening ++ x = '<' :: (n.text.toList ++ ['>'] ++ x) := rfl

theorem notMem_text (n : TagName) {c : Char} (markup : c ∈ ['<', '>', '/', '!']) : c ∉ n.text.toList :=
  fun mem => n.plain c mem markup

theorem eq_of_text_eq (same : m.text = n.text) : m = n := by
  cases m
  cases n
  cases same
  rfl

theorem eq_of_begins {y : List Char} (begins : n.text.toList ++ ['>'] <+: m.text.toList ++ '>' :: y) : n = m := by
  obtain ⟨rest, whole⟩ := begins
  have name (k : TagName) (z : List Char) : (k.text.toList ++ '>' :: z).takeWhile (· ≠ '>') = k.text.toList := by
    rw [List.takeWhile_append_of_pos, List.takeWhile_cons_of_neg (by simp), List.append_nil]
    intro c mem
    exact decide_eq_true fun h => k.notMem_text (by simp) (h ▸ mem)
  have same : n.text.toList = m.text.toList := by
    rw [← name n rest, ← name m y, ← whole]
    simp
  exact eq_of_text_eq (String.toList_inj.1 same)

theorem not_prefix_of_markup {c : Char} (markup : c ∈ ['<', '>', '/', '!']) {q y : List Char} :
    ¬ c :: q <+: n.text.toList ++ '>' :: y := by
  intro begins
  cases chars : n.text.toList with
  | nil => exact n.nonempty chars
  | cons d r =>
    rw [chars, List.cons_append] at begins
    obtain rfl := (List.cons_prefix_cons.1 begins).1
    exact n.notMem_text markup (chars ▸ List.mem_cons_self)

theorem passes_tag {q body : List Char} (absent : '<' ∉ body) (here : ∀ y, ¬ q <+: body ++ y) :
    Passes ('<' :: q) ('<' :: body) :=
  ⟨fun y begins => here y (List.cons_prefix_cons.1 begins).2, passes_of_notMem absent⟩

theorem notMem_opening_tail (n : TagName) : '<' ∉ n.text.toList ++ ['>'] := by
  simpa using n.notMem_text (by simp)

theorem notMem_closing_tail (n : TagName) : '<' ∉ '/' :: (n.text.toList ++ ['>']) := by
  simpa using n.notMem_text (by simp)

theorem opening_passes_opening (other : m ≠ n) : Passes n.opening m.opening := by
  refine passes_tag m.notMem_opening_tail fun y begins => other ?_
  rw [List.append_assoc] at begins
  exact (eq_of_begins begins).symm

theorem opening_passes_closing (m n : TagName) : Passes n.opening m.closing := by
  refine passes_tag m.notMem_closing_tail fun y begins => ?_
  cases chars : n.text.toList with
  | nil => exact n.nonempty chars
  | cons c r =>
    rw [chars, List.cons_append, List.cons_append] at begins
    obtain rfl := (List.cons_prefix_cons.1 begins).1
    exact n.notMem_text (by simp) (chars ▸ List.mem_cons_self)

theorem closing_passes_opening (m n : TagName) : Passes n.closing m.opening := by
  refine passes_tag m.notMem_opening_tail fun y begins => ?_
  rw [List.append_assoc] at begins
  exact not_prefix_of_markup (by simp) begins

theorem closing_passes_closing (other : m ≠ n) : Passes n.closing m.closing := by
  refine passes_tag m.notMem_closing_tail fun y begins => other ?_
  rw [List.cons_append, List.append_assoc] at begins
  exact (eq_of_begins (List.cons_prefix_cons.1 begins).2).symm

theorem comment_passes_opening (m : TagName) : Passes Delimiters.comment.opening m.opening := by
  refine passes_tag m.notMem_opening_tail fun y begins => ?_
  rw [List.append_assoc] at begins
  exact not_prefix_of_markup (by simp) begins

theorem comment_passes_closing (m : TagName) : Passes Delimiters.comment.opening m.closing :=
  passes_tag m.notMem_closing_tail fun _ begins => by simpa using (List.cons_prefix_cons.1 begins).1

end TagName

/-- What stands in an element: texts and elements, in order. -/
inductive Content where
  | nil
  | text (cs : List Char) (rest : Content)
  | element (tag : TagName) (inside rest : Content)
  deriving DecidableEq

/-- A text in which each character of the markup is written as a reference. -/
def escape (cs : List Char) : List Char :=
  cs.flatMap fun c =>
    if c = '<' then "&lt;".toList else if c = '>' then "&gt;".toList else if c = '&' then "&amp;".toList else [c]

theorem notMem_escape (cs : List Char) : '<' ∉ escape cs := by
  intro mem
  obtain ⟨c, -, mem⟩ := List.mem_flatMap.1 mem
  split_ifs at mem with less greater ampersand
  · simp at mem
  · simp at mem
  · simp at mem
  · exact less (List.mem_singleton.1 mem).symm

namespace Content

open Text

variable {c : Content} {n : TagName}

def write : Content → List Char
  | nil => []
  | text cs rest => escape cs ++ rest.write
  | element tag inside rest => tag.opening ++ (inside.write ++ (tag.closing ++ rest.write))

def tags : Content → List TagName
  | nil => []
  | text _ rest => rest.tags
  | element tag inside rest => tag :: (inside.tags ++ rest.tags)

/-- The content without its elements of that tag, wherever they stand. -/
def prune (n : TagName) : Content → Content
  | nil => nil
  | text cs rest => text cs (rest.prune n)
  | element tag inside rest => if tag = n then rest.prune n else element tag (inside.prune n) (rest.prune n)

/-- No element of that tag holds another one. -/
def unnested (n : TagName) : Content → Bool
  | nil => true
  | text _ rest => rest.unnested n
  | element tag inside rest => (if tag = n then n ∉ inside.tags else inside.unnested n) && rest.unnested n

def first? (n : TagName) : Content → Option Content
  | nil => none
  | text _ rest => rest.first? n
  | element tag inside rest => if tag = n then some inside else (inside.first? n).or (rest.first? n)

def dropFirst (n : TagName) : Content → Content
  | nil => nil
  | text cs rest => text cs (rest.dropFirst n)
  | element tag inside rest =>
    if tag = n then rest
    else if n ∈ inside.tags then element tag (inside.dropFirst n) rest
    else element tag inside (rest.dropFirst n)

/-- What stands in the elements of that tag, apart from those inside others. -/
def elements (n : TagName) : Content → List Content
  | nil => []
  | text _ rest => rest.elements n
  | element tag inside rest =>
    if tag = n then inside :: rest.elements n else inside.elements n ++ rest.elements n

/-- What stands in the elements of that tag that do not stand in others. -/
def children (n : TagName) : Content → List Content
  | nil => []
  | text _ rest => rest.children n
  | element tag inside rest => if tag = n then inside :: rest.children n else rest.children n

def ownText : Content → List Char
  | nil => []
  | text cs rest => cs ++ rest.ownText
  | element _ _ rest => rest.ownText

/-- The text of the first element of that tag to begin that has nothing but text in it. -/
def firstLeaf? (n : TagName) : Content → Option (List Char)
  | nil => none
  | text _ rest => rest.firstLeaf? n
  | element tag inside rest =>
    if tag = n ∧ inside.tags = [] then some inside.ownText else (inside.firstLeaf? n).or (rest.firstLeaf? n)

theorem passes_write {q : List Char} (tags : ∀ m ∈ c.tags, Passes ('<' :: q) m.opening ∧ Passes ('<' :: q) m.closing) :
    Passes ('<' :: q) c.write := by
  induction c with
  | nil => trivial
  | text cs rest ih => exact (passes_of_notMem (notMem_escape cs)).append (ih tags)
  | element tag inside rest inner outer =>
    have here := tags tag List.mem_cons_self
    have first := inner fun m mem => tags m (List.mem_cons_of_mem tag (List.mem_append_left _ mem))
    have later := outer fun m mem => tags m (List.mem_cons_of_mem tag (List.mem_append_right _ mem))
    exact here.1.append (first.append (here.2.append later))

theorem opening_passes_write (absent : n ∉ c.tags) : Passes n.opening c.write :=
  passes_write fun m mem =>
    ⟨TagName.opening_passes_opening fun h => absent (h ▸ mem), TagName.opening_passes_closing m n⟩

theorem closing_passes_write (absent : n ∉ c.tags) : Passes n.closing c.write :=
  passes_write fun m mem =>
    ⟨TagName.closing_passes_opening m n, TagName.closing_passes_closing fun h => absent (h ▸ mem)⟩

theorem comment_passes_write (c : Content) : Passes Delimiters.comment.opening c.write :=
  passes_write fun m _ => ⟨TagName.comment_passes_opening m, TagName.comment_passes_closing m⟩

theorem removeAll_comment_write (c : Content) : Span.removeAll .comment c.write = c.write := by
  have whole := Span.removeAll_append c.comment_passes_write []
  rwa [Span.removeAll_nil, List.append_nil] at whole

theorem removeAll_write (unnested : c.unnested n) (y : List Char) :
    Span.removeAll (.element n.text) (c.write ++ y) = (c.prune n).write ++ Span.removeAll (.element n.text) y := by
  induction c generalizing y with
  | nil => rfl
  | text cs rest ih =>
    rw [write, prune, write, List.append_assoc, List.append_assoc,
      Span.removeAll_append (passes_of_notMem (notMem_escape cs)), ih unnested]
  | element tag inside rest inner outer =>
    simp only [Content.unnested, Bool.and_eq_true] at unnested
    obtain ⟨first, later⟩ := unnested
    simp only [write, prune, List.append_assoc]
    by_cases same : tag = n
    · subst same
      rw [if_pos rfl] at first ⊢
      rw [← outer later]
      exact Span.removeAll_here (closing_passes_write (of_decide_eq_true first)) _
    · rw [if_neg same] at first ⊢
      simp only [write, List.append_assoc]
      rw [← outer later, Span.removeAll_append (TagName.opening_passes_opening same), inner first,
        Span.removeAll_append (TagName.opening_passes_closing tag n)]

theorem insides_write (unnested : c.unnested n) (y : List Char) :
    Span.insides (.element n.text) (c.write ++ y) =
      (c.elements n).map write ++ Span.insides (.element n.text) y := by
  induction c generalizing y with
  | nil => rfl
  | text cs rest ih =>
    rw [write, elements, List.append_assoc, Span.insides_append (passes_of_notMem (notMem_escape cs)), ih unnested]
  | element tag inside rest inner outer =>
    simp only [Content.unnested, Bool.and_eq_true] at unnested
    obtain ⟨first, later⟩ := unnested
    simp only [write, elements, List.append_assoc]
    by_cases same : tag = n
    · subst same
      rw [if_pos rfl] at first ⊢
      rw [List.map_cons, List.cons_append, ← outer later]
      exact Span.insides_here (closing_passes_write (of_decide_eq_true first)) _
    · rw [if_neg same] at first ⊢
      rw [List.map_append, List.append_assoc, ← outer later, Span.insides_append (TagName.opening_passes_opening same),
        inner first, Span.insides_append (TagName.opening_passes_closing tag n)]

theorem first?_eq_none_iff : c.first? n = none ↔ n ∉ c.tags := by
  induction c with
  | nil => simp [first?, tags]
  | text cs rest ih => exact ih
  | element tag inside rest inner outer =>
    by_cases same : tag = n
    · simp [first?, tags, same]
    · simp [first?, tags, same, Ne.symm same, inner, outer]

theorem dropFirst_eq_self (absent : n ∉ c.tags) : c.dropFirst n = c := by
  induction c with
  | nil => rfl
  | text cs rest ih => rw [dropFirst, ih absent]
  | element tag inside rest inner outer =>
    simp only [tags, List.mem_cons, List.mem_append, not_or] at absent
    rw [dropFirst, if_neg (Ne.symm absent.1), if_neg absent.2.1, outer absent.2.2]

theorem span_first?_eq_none (absent : n ∉ c.tags) : Span.first? (.element n.text) c.write = none := by
  have whole := Span.first?_append (d := .element n.text) (opening_passes_write absent) []
  rwa [Span.first?_nil, List.append_nil] at whole

theorem exists_span_first? {i : Content} (found : c.first? n = some i) (unnested : n ∉ i.tags) :
    ∃ before after, (c.dropFirst n).write = before ++ after ∧
      ∀ y, Span.first? (.element n.text) (c.write ++ y) = some ⟨before, i.write, after ++ y⟩ := by
  induction c with
  | nil => cases found
  | text cs rest ih =>
    obtain ⟨before, after, dropped, span⟩ := ih found
    refine ⟨escape cs ++ before, after, by rw [dropFirst, write, dropped, List.append_assoc], fun y => ?_⟩
    rw [write, List.append_assoc, Span.first?_append (passes_of_notMem (notMem_escape cs)), span, Option.map_some]
  | element tag inside rest inner outer =>
    rw [first?] at found
    by_cases same : tag = n
    · subst same
      rw [if_pos rfl] at found
      obtain rfl := Option.some.inj found
      refine ⟨[], rest.write, by rw [dropFirst, if_pos rfl, List.nil_append], fun y => ?_⟩
      rw [write, List.append_assoc, List.append_assoc, List.append_assoc]
      exact Span.first?_here (closing_passes_write unnested) _
    · rw [if_neg same] at found
      have opens : Passes n.opening tag.opening := TagName.opening_passes_opening same
      have closes : Passes n.opening tag.closing := TagName.opening_passes_closing tag n
      cases held : inside.first? n with
      | some j =>
        rw [held, Option.some_or] at found
        obtain ⟨before, after, dropped, span⟩ := inner (held.trans found)
        have holds : n ∈ inside.tags := by
          by_contra absent
          rw [first?_eq_none_iff.2 absent] at held
          cases held
        refine ⟨tag.opening ++ before, after ++ (tag.closing ++ rest.write), ?_, fun y => ?_⟩
        · rw [dropFirst, if_neg same, if_pos holds, write, dropped]
          simp only [List.append_assoc]
        · simp only [write, List.append_assoc]
          rw [Span.first?_append opens, span, Option.map_some]
      | none =>
        rw [held, Option.none_or] at found
        obtain ⟨before, after, dropped, span⟩ := outer found
        have absent := first?_eq_none_iff.1 held
        have passes : Passes n.opening (tag.opening ++ (inside.write ++ tag.closing)) :=
          opens.append ((opening_passes_write absent).append closes)
        refine ⟨tag.opening ++ (inside.write ++ tag.closing) ++ before, after, ?_, fun y => ?_⟩
        · rw [dropFirst, if_neg same, if_neg absent, write, dropped]
          simp only [List.append_assoc]
        · have shape : (element tag inside rest).write ++ y =
              tag.opening ++ (inside.write ++ tag.closing) ++ (rest.write ++ y) := by
            simp only [write, List.append_assoc]
          rw [shape, Span.first?_append passes, span, Option.map_some]

theorem removeFirst_write (unnested : ∀ i ∈ c.first? n, n ∉ i.tags) :
    Span.removeFirst (.element n.text) c.write = (c.dropFirst n).write := by
  unfold Span.removeFirst
  cases found : c.first? n with
  | none =>
    have absent := first?_eq_none_iff.1 found
    rw [span_first?_eq_none absent, dropFirst_eq_self absent]
  | some i =>
    obtain ⟨before, after, dropped, span⟩ := exists_span_first? found (unnested i found)
    have here := span []
    rw [List.append_nil] at here
    rw [here, dropped, List.append_nil]

theorem firstInside?_write (unnested : ∀ i ∈ c.first? n, n ∉ i.tags) :
    Span.firstInside? (.element n.text) c.write = (c.first? n).map write := by
  unfold Span.firstInside?
  cases found : c.first? n with
  | none => rw [span_first?_eq_none (first?_eq_none_iff.1 found)]; rfl
  | some i =>
    obtain ⟨before, after, -, span⟩ := exists_span_first? found (unnested i found)
    have here := span []
    rw [List.append_nil] at here
    rw [here, Option.map_some, Option.map_some]

theorem escape_append (xs ys : List Char) : escape (xs ++ ys) = escape xs ++ escape ys := List.flatMap_append

theorem write_of_tags_eq_nil (plain : c.tags = []) : c.write = escape c.ownText := by
  induction c with
  | nil => rfl
  | text cs rest ih => rw [write, ownText, escape_append, ih plain]
  | element tag inside rest inner outer => cases plain

theorem exists_write_of_tags_ne_nil (tagged : c.tags ≠ []) :
    ∃ cs m w, c.write = escape cs ++ (TagName.opening m ++ w) := by
  induction c with
  | nil => exact absurd rfl tagged
  | text cs rest ih =>
    obtain ⟨ds, m, w, written⟩ := ih tagged
    exact ⟨cs ++ ds, m, w, by rw [write, written, escape_append, List.append_assoc]⟩
  | element tag inside rest inner outer => exact ⟨[], tag, _, rfl⟩

theorem rawText?_leaf {t : List Char} (text : '<' ∉ t) (y : List Char) :
    Leaf.rawText? (.element n.text) (n.opening ++ (t ++ (n.closing ++ y))) = some t := by
  have found := Leaf.here?_opening (d := .element n.text) text ('/' :: (n.text.toList ++ ['>']) ++ y)
  have leaf : Leaf.here? (.element n.text) (n.opening ++ (t ++ (n.closing ++ y))) = some t :=
    found.trans (if_pos (List.prefix_append _ _))
  rw [n.opening_append] at leaf ⊢
  rw [Leaf.rawText?, leaf, Option.some_or]

theorem rawText?_not_leaf {t : List Char} (text : '<' ∉ t) {m : TagName} (y : List Char) :
    Leaf.rawText? (.element n.text) (n.opening ++ (t ++ (m.opening ++ y))) =
      Leaf.rawText? (.element n.text) (t ++ (m.opening ++ y)) := by
  have found := Leaf.here?_opening (d := .element n.text) text (m.text.toList ++ ['>'] ++ y)
  have other : ¬ n.closing <+: '<' :: (m.text.toList ++ ['>'] ++ y) :=
    (TagName.closing_passes_opening m n).1 y
  have noLeaf : Leaf.here? (.element n.text) (n.opening ++ (t ++ (m.opening ++ y))) = none :=
    found.trans (if_neg other)
  have passes : Passes n.opening (n.text.toList ++ ['>']) := passes_of_notMem n.notMem_opening_tail
  rw [n.opening_append] at noLeaf ⊢
  rw [Leaf.rawText?, noLeaf, Option.none_or, Leaf.rawText?_append passes]

theorem rawText?_write (c : Content) (n : TagName) (y : List Char) : Leaf.rawText? (.element n.text) (c.write ++ y) =
    ((c.firstLeaf? n).map escape).or (Leaf.rawText? (.element n.text) y) := by
  induction c generalizing y with
  | nil => rfl
  | text cs rest ih =>
    rw [write, List.append_assoc, Leaf.rawText?_append (passes_of_notMem (notMem_escape cs)), ih]
    rfl
  | element tag inside rest inner outer =>
    have closes : Passes n.opening tag.closing := TagName.opening_passes_closing tag n
    have after : Leaf.rawText? (.element n.text) (inside.write ++ (tag.closing ++ (rest.write ++ y))) =
        (((inside.firstLeaf? n).or (rest.firstLeaf? n)).map escape).or (Leaf.rawText? (.element n.text) y) := by
      rw [inner, Leaf.rawText?_append closes, outer]
      cases inside.firstLeaf? n <;> rfl
    simp only [write, List.append_assoc, firstLeaf?]
    by_cases same : tag = n
    · subst same
      by_cases plain : inside.tags = []
      · rw [if_pos ⟨rfl, plain⟩, write_of_tags_eq_nil plain]
        exact rawText?_leaf (notMem_escape _) _
      · rw [if_neg fun leaf => plain leaf.2, ← after]
        obtain ⟨cs, m, w, written⟩ := exists_write_of_tags_ne_nil plain
        rw [written, List.append_assoc, List.append_assoc]
        exact rawText?_not_leaf (notMem_escape cs) _
    · rw [if_neg fun leaf => same leaf.1, ← after, Leaf.rawText?_append (TagName.opening_passes_opening same)]

def nonBlank? (cs : List Char) : Option (List Char) := if (trim cs).isEmpty then none else some (trim cs)

theorem text?_write (c : Content) (n : TagName) :
    Leaf.text? n.text c.write = (c.firstLeaf? n).bind fun t => nonBlank? (escape t) := by
  have raw := c.rawText?_write n []
  rw [List.append_nil, Leaf.rawText?, Option.or_none] at raw
  unfold Leaf.text?
  rw [raw]
  cases c.firstLeaf? n <;> rfl

end Content

end MigrationMining
