import MigrationMining.Coordinate
import MigrationMining.Markup.Span

/-! Pages of a usage listing, which name the clients of a library, and walking them to their end. -/

namespace MigrationMining.UsagePage

def subtitle : Delimiters := ⟨"<p class=\"im-subtitle\">".toList, "</p>".toList, by decide⟩

/-- The text of the first link of a paragraph, as it stands, and what follows the link. -/
def link? (cs : List Char) : Option (List Char × List Char) :=
  (Text.cutAt ['<', 'a'] cs).bind fun (_, r) =>
    (Text.cutAt ['>'] r).bind fun (_, r) => Text.cutAt ['<', '/', 'a', '>'] r

theorem length_of_link? {cs text after : List Char} (h : link? cs = some (text, after)) :
    after.length < cs.length := by
  obtain ⟨⟨x, r⟩, h₁, h⟩ := Option.bind_eq_some_iff.1 h
  obtain ⟨⟨y, r'⟩, h₂, h⟩ := Option.bind_eq_some_iff.1 h
  have e₁ := congrArg List.length (Text.eq_of_cutAt h₁)
  have e₂ := congrArg List.length (Text.eq_of_cutAt h₂)
  have e₃ := congrArg List.length (Text.eq_of_cutAt h)
  simp at e₁ e₂ e₃
  omega

def linkTexts (cs : List Char) : List (List Char) :=
  match _h : link? cs with
  | none => []
  | some (text, after) => text :: linkTexts after
termination_by cs.length
decreasing_by exact length_of_link? _h

/-- The client of a subtitle: exactly two links, the group and the artifact. -/
def client? (subtitleText : List Char) : Option Project :=
  match (linkTexts subtitleText).map Text.trim with
  | [g, a] => if g.isEmpty || a.isEmpty then none else some ⟨String.ofList g, String.ofList a⟩
  | _ => none

def clientsOf (cs : List Char) : List Project := (Span.insides subtitle cs).filterMap client?

def clients (html : String) : List Project := clientsOf html.toList

/-- The items of a list that are not in `seen`, each at its first occurrence. -/
def fresh (seen : List Project) : List Project → List Project
  | [] => []
  | p :: ps => if p ∈ seen then fresh seen ps else p :: fresh (p :: seen) ps

/-- How many pages a walk may ask for: their numbers have 32 bits. -/
def pageLimit : Nat := Nat.pow 2 32

/-- Asks for page after page, at most `limit`, and hands what is new on each to `visit`, until a page lists
nothing new. -/
def walkFrom {σ α : Type} (fetch : Nat → StateM σ (List Project)) (visit : List Project → StateM σ (List α)) :
    (limit page : Nat) → (seen : List Project) → StateM σ (List α)
  | 0, _, _ => pure []
  | limit + 1, page, seen => do
    let new := fresh seen (← fetch page)
    if new.isEmpty then return []
    let found ← visit new
    return found ++ (← walkFrom fetch visit limit (page + 1) (new ++ seen))

def walk {σ α : Type} (fetch : Nat → StateM σ (List Project)) (visit : List Project → StateM σ (List α)) :
    StateM σ (List α) := walkFrom fetch visit pageLimit 1 []

end MigrationMining.UsagePage
