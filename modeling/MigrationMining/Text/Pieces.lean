/-! Cutting a text into pieces: at a separator, once at the first separator, and into lines. -/

namespace MigrationMining.Text

/-- The pieces between the separators, one more than there are separators. -/
def splitOn {α : Type} [DecidableEq α] (sep : α) : List α → List (List α)
  | [] => [[]]
  | c :: r =>
    if c = sep then [] :: splitOn sep r
    else match splitOn sep r with
      | [] => [[c]]
      | p :: ps => (c :: p) :: ps

def splitOnce (sep : Char) : List Char → Option (List Char × List Char)
  | [] => none
  | c :: r => if c = sep then some ([], r) else (splitOnce sep r).map fun (a, b) => (c :: a, b)

def chopReturn (line : List Char) : List Char :=
  if line.getLast? = some '\r' then line.dropLast else line

/-- The lines of a text: each ends at a line feed, before which one carriage return is dropped. A last
line without a line feed is kept as it is, unless it is empty. -/
def lines (cs : List Char) : List (List Char) :=
  let pieces := splitOn '\n' cs
  let last := pieces.getLast?.getD []
  pieces.dropLast.map chopReturn ++ (if last.isEmpty then [] else [last])

def joinWith (sep : List Char) : List (List Char) → List Char
  | [] => []
  | [p] => p
  | p :: q :: ps => p ++ sep ++ joinWith sep (q :: ps)

theorem length_dropWhile_le {α : Type} (p : α → Bool) (l : List α) : (l.dropWhile p).length ≤ l.length :=
  (List.dropWhile_sublist p).length_le

theorem splitOn_ne_nil {α : Type} [DecidableEq α] (sep : α) (cs : List α) : splitOn sep cs ≠ [] := by
  cases cs with
  | nil => simp [splitOn]
  | cons c r =>
    unfold splitOn
    split
    · simp
    · split <;> simp

end MigrationMining.Text
