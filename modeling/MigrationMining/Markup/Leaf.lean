import MigrationMining.Markup.Span
import MigrationMining.Text.Blank

/-! Leaf elements: a start tag without attributes, text, and an end tag. -/

namespace MigrationMining.Leaf

/-- The text of the leaf that `cs` begins with, if it begins with one of that tag. -/
def here? (d : Delimiters) (cs : List Char) : Option (List Char) :=
  match Text.stripPrefix d.opening cs with
  | none => none
  | some r => if d.closing.isPrefixOf (r.dropWhile (· ≠ '<')) then some (r.takeWhile (· ≠ '<')) else none

/-- The text of the first leaf of that tag, as it stands. -/
def rawText? (d : Delimiters) : List Char → Option (List Char)
  | [] => none
  | c :: r => (here? d (c :: r)).or (rawText? d r)

def rawTexts (d : Delimiters) : List Char → List (List Char)
  | [] => []
  | c :: r => match here? d (c :: r) with
    | some t => t :: rawTexts d r
    | none => rawTexts d r

/-- The trimmed text of the first leaf of that tag; a blank one says nothing. -/
def text? (tag : String) (cs : List Char) : Option (List Char) :=
  match rawText? (.element tag) cs with
  | none => none
  | some t => if (Text.trim t).isEmpty then none else some (Text.trim t)

end MigrationMining.Leaf
