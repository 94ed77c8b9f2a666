import MigrationMining.Text.Blank
import MigrationMining.Text.Pieces
import Std.Data.ExtTreeSet

/-! Projects and the coordinates of their releases: how they are written, read and ordered. -/

namespace MigrationMining

/-- A project of a repository, all releases taken together. -/
structure Project where
  group : String
  artifact : String
  deriving DecidableEq, Inhabited

/-- One release of a project. -/
structure Coordinate where
  group : String
  artifact : String
  version : String
  deriving DecidableEq, Inhabited

/-- A dependency of a client release on a library release. -/
structure Link where
  library : Coordinate
  client : Coordinate
  deriving DecidableEq, Inhabited

/-- Why a text names no project or no release; each cause keeps the text. -/
inductive MalformedName where
  | notAProject (text : String)
  | notACoordinate (text : String)
  | emptyField (text : String)
  deriving DecidableEq

def MalformedName.message : MalformedName → String
  | .notAProject text => "expected <group>:<artifact>, got '" ++ text ++ "'"
  | .notACoordinate text =>
    "expected <group>:<artifact>[:<extension>[:<classifier>]]:<version>, got '" ++ text ++ "'"
  | .emptyField text => "empty coordinate field in '" ++ text ++ "'"

namespace Project

def text (p : Project) : String := p.group ++ ":" ++ p.artifact

def release (p : Project) (version : String) : Coordinate := ⟨p.group, p.artifact, version⟩

def parse (text : String) : Except MalformedName Project :=
  match Text.splitOn ':' (Text.trim text.toList) with
  | [g, a] =>
    if g.isEmpty || a.isEmpty then .error (.notAProject text)
    else .ok ⟨String.ofList g, String.ofList a⟩
  | _ => .error (.notAProject text)

instance : Ord Project where
  compare := compareLex (compareOn group) (compareOn artifact)

instance : Std.TransOrd Project :=
  inferInstanceAs (Std.TransCmp (compareLex (compareOn group) (compareOn artifact)))

instance : Std.LawfulEqOrd Project where
  eq_of_compare {a b} h := by
    obtain ⟨ag, aa⟩ := a
    obtain ⟨bg, ba⟩ := b
    have h' : (compare ag bg).then (compare aa ba) = .eq := h
    simp only [Ordering.then_eq_eq, Std.compare_eq_iff_eq] at h'
    simp [h'.1, h'.2]

end Project

namespace Coordinate

def text (c : Coordinate) : String := c.group ++ ":" ++ c.artifact ++ ":" ++ c.version

def project (c : Coordinate) : Project := ⟨c.group, c.artifact⟩

/-- Reads `<group>:<artifact>:<version>`, white space around it aside. An extension, or an extension and a
classifier, may stand before the version and are dropped. -/
def parse (text : String) : Except MalformedName Coordinate :=
  match Text.splitOn ':' (Text.trim text.toList) with
  | [g, a, v] | [g, a, _, v] | [g, a, _, _, v] =>
    if g.isEmpty || a.isEmpty || v.isEmpty then .error (.emptyField text)
    else .ok ⟨String.ofList g, String.ofList a, String.ofList v⟩
  | _ => .error (.notACoordinate text)

def fileStem (c : Coordinate) : String :=
  String.ofList (c.text.toList.map fun ch => if ch = ':' then '_' else ch)

/-- Coordinates are ordered by group, then by artifact, then by version. -/
instance : Ord Coordinate where
  compare := compareLex (compareOn group) (compareLex (compareOn artifact) (compareOn version))

instance : Std.TransOrd Coordinate :=
  inferInstanceAs (Std.TransCmp
    (compareLex (compareOn group) (compareLex (compareOn artifact) (compareOn version))))

instance : Std.LawfulEqOrd Coordinate where
  eq_of_compare {a b} h := by
    obtain ⟨ag, aa, av⟩ := a
    obtain ⟨bg, ba, bv⟩ := b
    have h' : (compare ag bg).then ((compare aa ba).then (compare av bv)) = .eq := h
    simp only [Ordering.then_eq_eq, Std.compare_eq_iff_eq] at h'
    simp [h'.1, h'.2.1, h'.2.2]

@[simp] theorem project_release (p : Project) (v : String) : (p.release v).project = p := rfl

end Coordinate

abbrev ProjectSet := Std.ExtTreeSet Project compare

abbrev CoordinateSet := Std.ExtTreeSet Coordinate compare

end MigrationMining
