import MigrationMining.Proofs.Occurrences
import MigrationMining.UsagePage

/-! Usage pages as they are written: paragraphs of links between pieces of any text, and the clients that are read from
them. -/

namespace MigrationMining

namespace Text

variable {p q x y : List Char}

/-- A pattern that has its only bracket at its front does not begin in a text without it, where a bracket follows. -/
theorem not_prefix_of_absent (once : '<' ∉ q) (absent : ¬ '<' :: q <:+: x) (filled : x ≠ []) :
    ¬ '<' :: q <+: x ++ '<' :: y := by
  intro begins
  rcases List.prefix_or_prefix_of_prefix begins (List.prefix_append x ('<' :: y)) with inside | ⟨rest, across⟩
  · exact absent inside.isInfix
  · -- the pattern goes on with the bracket that follows, which is not its first character
    rw [← across, List.prefix_append_right_inj] at begins
    cases rest with
    | nil =>
      rw [List.append_nil] at across
      exact absent (across ▸ List.infix_refl _)
    | cons c rest =>
      obtain ⟨d, x, rfl⟩ := List.exists_cons_of_ne_nil filled
      obtain rfl := (List.cons_prefix_cons.1 begins).1
      have mem : '<' ∈ x ++ '<' :: rest := by simp
      rw [List.cons_append, List.cons.injEq] at across
      exact once (across.2 ▸ mem)

theorem cutAt_of_absent (once : '<' ∉ q) (absent : ¬ '<' :: q <:+: x) (y : List Char) :
    cutAt ('<' :: q) (x ++ ('<' :: q ++ y)) = some (x, y) := by
  rw [cutAt_eq_some_iff, List.append_assoc]
  refine ⟨rfl, fun i within => ?_⟩
  rw [List.drop_append_of_le_length within.le, List.cons_append]
  refine not_prefix_of_absent once (fun inside => absent (inside.trans (List.drop_suffix i x).isInfix)) ?_
  rw [Ne, List.drop_eq_nil_iff]
  omega

theorem cutAt_passes (passes : Passes p x) (y : List Char) : cutAt p (x ++ (p ++ y)) = some (x, y) := by
  rw [cutAt_append passes, cutAt_self, Option.map_some]
  simp only [List.append_nil]

theorem passes_of_not_suffix (once : '>' ∉ p) (unended : '>' ∉ x) (other : ¬ p <:+ x) :
    Passes (p ++ ['>']) (x ++ ['>']) := by
  have cut {a b : List Char} (free : '>' ∉ a) : (a ++ '>' :: b).takeWhile (· ≠ '>') = a := by
    have inText : ∀ c ∈ a, decide (c ≠ '>') = true := fun c mem => decide_eq_true fun same => free (same ▸ mem)
    rw [List.takeWhile_append_of_pos inText, List.takeWhile_cons_of_neg (by simp), List.append_nil]
  have here {s : List Char} (free : '>' ∉ s) (ends : s <:+ x) (y : List Char) :
      ¬ p ++ ['>'] <+: s ++ ['>'] ++ y := by
    rintro ⟨rest, whole⟩
    rw [List.append_assoc, List.append_assoc, List.singleton_append, List.singleton_append] at whole
    have same : p = s := by rw [← cut once, whole, cut free]
    exact other (same ▸ ends)
  suffices all : ∀ s, s <:+ x → Passes (p ++ ['>']) (s ++ ['>']) from all x List.suffix_rfl
  intro s ends
  induction s with
  | nil =>
    refine ⟨fun y => ?_, trivial⟩
    exact here List.not_mem_nil ends y
  | cons c s ih =>
    refine ⟨fun y => ?_, ih ((List.suffix_cons c s).trans ends)⟩
    exact here (fun mem => unended (ends.subset mem)) ends y

end Text

namespace UsagePage

open Text

abbrev PlainText := { cs : List Char // '<' ∉ cs }

structure Link where
  attributes : { cs : List Char // '>' ∉ cs }
  text : PlainText

/-- A subtitle: links with text before, between and after them. -/
structure Paragraph where
  lead : PlainText
  links : List (Link × PlainText)

/-- Any text that begins no subtitle. -/
abbrev Piece := { cs : List Char // ¬ subtitle.opening <:+: cs }

/-- A page: subtitles with pieces of other text around them. -/
structure Listing where
  entries : List (Piece × Paragraph)
  ending : Piece

def Link.write (l : Link) : List Char :=
  '<' :: 'a' :: (l.attributes.val ++ ['>'] ++ (l.text.val ++ ['<', '/', 'a', '>']))

namespace Paragraph

def inside (p : Paragraph) : List Char := p.lead.val ++ p.links.flatMap fun (l, gap) => l.write ++ gap.val

def write (p : Paragraph) : List Char := subtitle.opening ++ (p.inside ++ subtitle.closing)

/-- The client that a subtitle names: one of exactly two links, neither of which has a blank text. -/
def client? (p : Paragraph) : Option Project :=
  match p.links with
  | [(group, _), (artifact, _)] =>
    if trim group.text.val = [] ∨ trim artifact.text.val = [] then none
    else some ⟨String.ofList (trim group.text.val), String.ofList (trim artifact.text.val)⟩
  | _ => none

end Paragraph

namespace Listing

def paragraphs (page : Listing) : List Paragraph := page.entries.map (·.2)

def write (page : Listing) : List Char :=
  page.entries.flatMap (fun (gap, p) => gap.val ++ p.write) ++ page.ending.val

end Listing

def Link.ClosesParagraph (l : Link) : Prop := ['<', '/', 'p'] <:+ l.attributes.val

theorem link?_write (lead : PlainText) (l : Link) (y : List Char) :
    link? (lead.val ++ (l.write ++ y)) = some (l.text.val, y) := by
  have shape : lead.val ++ (l.write ++ y) = lead.val ++ (['<', 'a'] ++ (l.attributes.val ++ (['>'] ++
      (l.text.val ++ (['<', '/', 'a', '>'] ++ y))))) := by simp [Link.write]
  rw [shape, link?, cutAt_passes (passes_of_notMem lead.2), Option.bind_some]
  simp only [cutAt_passes (passes_of_notMem l.attributes.2), Option.bind_some]
  rw [cutAt_passes (passes_of_notMem l.text.2)]

theorem link?_plain (lead : PlainText) : link? lead.val = none := by
  have absent : ¬ ['<', 'a'] <:+: lead.val := fun inside => lead.2 (inside.subset List.mem_cons_self)
  rw [link?, cutAt_eq_none_iff.2 absent, Option.bind_none]

theorem linkTexts_inside (p : Paragraph) : linkTexts p.inside = p.links.map (·.1.text.val) := by
  obtain ⟨lead, links⟩ := p
  rw [Paragraph.inside]
  induction links generalizing lead with
  | nil => rw [List.flatMap_nil, List.append_nil, linkTexts, link?_plain, List.map_nil]
  | cons entry links ih =>
    obtain ⟨l, gap⟩ := entry
    rw [List.flatMap_cons, List.append_assoc, linkTexts, link?_write]
    exact congrArg _ (ih gap)

theorem client?_inside (p : Paragraph) : UsagePage.client? p.inside = p.client? := by
  rw [UsagePage.client?, linkTexts_inside, Paragraph.client?]
  rcases p.links with _ | ⟨⟨group, _⟩, _ | ⟨⟨artifact, _⟩, _ | ⟨_, _⟩⟩⟩ <;> simp

theorem closing_eq : subtitle.closing = ['<', '/', 'p', '>'] := rfl

theorem closing_passes_write {l : Link} (intact : ¬ l.ClosesParagraph) : Passes subtitle.closing l.write := by
  rw [closing_eq]
  have attributes : Passes ['<', '/', 'p', '>'] (l.attributes.val ++ ['>']) :=
    passes_of_not_suffix (p := ['<', '/', 'p']) (by decide) l.attributes.2 intact
  have ends : Passes ['<', '/', 'p', '>'] ['<', '/', 'a', '>'] := by simp [Passes]
  have text : Passes ['<', '/', 'p', '>'] (l.text.val ++ ['<', '/', 'a', '>']) :=
    (passes_of_notMem l.text.2).append ends
  exact ⟨fun y => by simp, fun y => by simp, attributes.append text⟩

theorem closing_passes_inside {p : Paragraph} (intact : ∀ l ∈ p.links, ¬ l.1.ClosesParagraph) :
    Passes subtitle.closing p.inside := by
  obtain ⟨lead, links⟩ := p
  rw [Paragraph.inside]
  induction links generalizing lead with
  | nil =>
    rw [List.flatMap_nil, List.append_nil]
    exact passes_of_notMem lead.2
  | cons entry links ih =>
    obtain ⟨here, later⟩ := List.forall_mem_cons.1 intact
    rw [List.flatMap_cons, List.append_assoc]
    exact (passes_of_notMem lead.2).append ((closing_passes_write here).append (ih entry.2 later))

theorem insides_paragraph (gap : Piece) {p : Paragraph} (intact : ∀ l ∈ p.links, ¬ l.1.ClosesParagraph)
    (y : List Char) : Span.insides subtitle (gap.val ++ (p.write ++ y)) = p.inside :: Span.insides subtitle y := by
  have once : '<' ∉ subtitle.opening.tail := by decide
  -- the piece may end as a subtitle begins, so that `Passes` does not hold of it
  have opened : cutAt subtitle.opening (gap.val ++ (subtitle.opening ++ (p.inside ++ (subtitle.closing ++ y)))) =
      some (gap.val, p.inside ++ (subtitle.closing ++ y)) := cutAt_of_absent once gap.2 _
  have closed : cutAt subtitle.closing (p.inside ++ (subtitle.closing ++ y)) = some (p.inside, y) :=
    cutAt_passes (closing_passes_inside intact) y
  have found : Span.first? subtitle (gap.val ++ (p.write ++ y)) = some ⟨gap.val, p.inside, y⟩ := by
    rw [Paragraph.write, List.append_assoc, List.append_assoc]
    simp only [Span.first?, opened, closed]
  rw [Span.insides, found]

theorem insides_piece (gap : Piece) : Span.insides subtitle gap.val = [] := by
  have unfound : Span.first? subtitle gap.val = none := by
    simp only [Span.first?, cutAt_eq_none_iff.2 gap.2]
  rw [Span.insides, unfound]

theorem insides_write (page : Listing) (intact : ∀ p ∈ page.paragraphs, ∀ l ∈ p.links, ¬ l.1.ClosesParagraph) :
    Span.insides subtitle page.write = page.paragraphs.map (·.inside) := by
  obtain ⟨entries, ending⟩ := page
  rw [Listing.write]
  induction entries with
  | nil => exact insides_piece ending
  | cons entry entries ih =>
    obtain ⟨here, later⟩ := List.forall_mem_cons.1 intact
    rw [List.flatMap_cons, List.append_assoc, List.append_assoc, insides_paragraph _ here, ih later]
    rfl

/-- From a page are read, in order, the clients of its subtitles, whatever stands around them and in the tags of their
links, as long as no tag ends as the paragraph does. -/
theorem clients_write (page : Listing) (intact : ∀ p ∈ page.paragraphs, ∀ l ∈ p.links, ¬ l.1.ClosesParagraph) :
    clients (String.ofList page.write) = page.paragraphs.filterMap (·.client?) := by
  rw [clients, String.toList_ofList, clientsOf, insides_write page intact, List.filterMap_map]
  exact List.filterMap_congr fun p _ => client?_inside p

namespace Listing

/-- A subtitle with a padded link, one with three links, one with a blank link, and the first one again, with other tags
between them. -/
def mixed : Listing where
  entries := [(⟨"<p>".toList, by decide⟩, paired),
    (⟨"<p class=\"im-description\">y</p>".toList, by decide⟩, ⟨⟨[], by decide⟩, [x, e, x]⟩),
    (⟨"</p><a>".toList, by decide⟩, ⟨⟨[], by decide⟩, [x, blank]⟩),
    (⟨[], by decide⟩, paired)]
  ending := ⟨"<a>z</a>".toList, by decide⟩
where
  x : Link × PlainText := (⟨⟨" href=\"</p\"".toList, by decide⟩, ⟨['x'], by decide⟩⟩, ⟨[' '], by decide⟩)
  e : Link × PlainText := (⟨⟨[], by decide⟩, ⟨" e\n".toList, by decide⟩⟩, ⟨[], by decide⟩)
  blank : Link × PlainText := (⟨⟨[], by decide⟩, ⟨[' '], by decide⟩⟩, ⟨[], by decide⟩)
  paired : Paragraph := ⟨⟨"by ".toList, by decide⟩, [x, e]⟩

def broken : Listing where
  entries := [(⟨[], by decide⟩, ⟨⟨[], by decide⟩, [g, a]⟩)]
  ending := ⟨[], by decide⟩
where
  g : Link × PlainText := (⟨⟨" x</p".toList, by decide⟩, ⟨['g'], by decide⟩⟩, ⟨[], by decide⟩)
  a : Link × PlainText := (⟨⟨" y".toList, by decide⟩, ⟨['a'], by decide⟩⟩, ⟨[], by decide⟩)

end Listing

theorem clients_of_mixed :
    (∀ p ∈ Listing.mixed.paragraphs, ∀ l ∈ p.links, ¬ l.1.ClosesParagraph) ∧
      clients (String.ofList Listing.mixed.write) = [⟨"x", "e"⟩, ⟨"x", "e"⟩] := by
  have intact : ∀ p ∈ Listing.mixed.paragraphs, ∀ l ∈ p.links, ¬ l.1.ClosesParagraph := by
    unfold Link.ClosesParagraph
    decide +kernel
  have named : Listing.mixed.paragraphs.filterMap (·.client?) = [⟨"x", "e"⟩, ⟨"x", "e"⟩] := by decide +kernel
  exact ⟨intact, (clients_write Listing.mixed intact).trans named⟩

theorem clients_of_broken :
    String.ofList Listing.broken.write = "<p class=\"im-subtitle\"><a x</p>g</a><a y>a</a></p>" ∧
      Listing.broken.paragraphs.filterMap (·.client?) = [⟨"g", "a"⟩] ∧
      clients (String.ofList Listing.broken.write) = [] := by
  refine ⟨?_, ?_, ?_⟩ <;> decide +kernel

end UsagePage
end MigrationMining
