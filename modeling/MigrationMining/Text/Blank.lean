/-! White space in the sense of Unicode's `White_Space` property, and cutting it off the ends of a text. -/

namespace MigrationMining.Text

/-- The characters with the property `White_Space`; U+200B, U+FEFF and U+180E do not have it. -/
def isBlank (c : Char) : Bool :=
  let n := c.toNat
  (9 ≤ n && n ≤ 13) || n == 0x20 || n == 0x85 || n == 0xA0 || n == 0x1680 ||
    (0x2000 ≤ n && n ≤ 0x200A) || n == 0x2028 || n == 0x2029 || n == 0x202F || n == 0x205F ||
    n == 0x3000

def trimLeft (cs : List Char) : List Char := cs.dropWhile isBlank

def trimRight (cs : List Char) : List Char := (cs.reverse.dropWhile isBlank).reverse

def trim (cs : List Char) : List Char := trimRight (trimLeft cs)

def strip (s : String) : String := String.ofList (trim s.toList)

def allBlank (cs : List Char) : Bool := cs.all isBlank

@[simp] theorem trim_nil : trim [] = [] := rfl

@[simp] theorem toList_strip (s : String) : (strip s).toList = trim s.toList := by simp [strip]

end MigrationMining.Text
