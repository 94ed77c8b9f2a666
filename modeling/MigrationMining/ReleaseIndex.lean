import MigrationMining.Markup.Leaf

/-! The metadata document of a project, which lists its released versions. -/

namespace MigrationMining.ReleaseIndex

/-- The version a text stands for: the text trimmed. Of nothing but white space the last character is kept, and
the empty text is no version. -/
def version? (t : List Char) : Option (List Char) :=
  match t.getLast? with
  | none => none
  | some c => if Text.allBlank t then some [c] else some (Text.trim t)

def versionsOf (cs : List Char) : List (List Char) :=
  match Span.firstInside? (.element "versions") (Span.removeAll .comment cs) with
  | none => []
  | some block => (Leaf.rawTexts (.element "version") block).filterMap version?

def versions (xml : String) : List String := (versionsOf xml.toList).map String.ofList

end MigrationMining.ReleaseIndex
