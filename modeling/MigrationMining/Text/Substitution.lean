/-! Searching a text for another and replacing its occurrences. -/

namespace MigrationMining.Text

def contains (pattern : List Char) : List Char → Bool
  | [] => pattern.isEmpty
  | c :: r => pattern.isPrefixOf (c :: r) || contains pattern r

/-- Drops the first `skip` characters and from then on writes `replacement` for each occurrence of the non-empty
`pattern`, from left to right without overlaps. -/
def replaceFrom (pattern replacement : List Char) : Nat → List Char → List Char
  | _, [] => []
  | skip + 1, _ :: r => replaceFrom pattern replacement skip r
  | 0, c :: r =>
    if pattern.isPrefixOf (c :: r) then replacement ++ replaceFrom pattern replacement (pattern.length - 1) r
    else c :: replaceFrom pattern replacement 0 r

def replace (pattern replacement cs : List Char) : List Char := replaceFrom pattern replacement 0 cs

/-- What stands before the first occurrence of `pattern`, and what stands after it. -/
def cutAt (pattern : List Char) : List Char → Option (List Char × List Char)
  | [] => if pattern.isEmpty then some ([], []) else none
  | c :: r =>
    if pattern.isPrefixOf (c :: r) then some ([], (c :: r).drop pattern.length)
    else (cutAt pattern r).map fun (a, b) => (c :: a, b)

/-- The text without its leading `pattern`, if it begins so; the pattern comes first. -/
def stripPrefix : List Char → List Char → Option (List Char)
  | [], cs => some cs
  | _ :: _, [] => none
  | p :: ps, c :: cs => if p = c then stripPrefix ps cs else none

end MigrationMining.Text
