import MigrationMining.Text.Pieces

/-! Paths of a Unix file tree: joining, components, and the parts of a file name. -/

namespace MigrationMining

structure Path where
  text : String
  deriving DecidableEq, Inhabited

namespace Path

inductive Component where
  | root
  | current
  | parent
  | normal (name : String)
  deriving DecidableEq

def isAbsolute (p : Path) : Bool := p.text.toList.head? = some '/'

def isEmpty (p : Path) : Bool := p.text.isEmpty

/-- An absolute second path replaces the first; otherwise one slash stands between them. -/
def join (p q : Path) : Path :=
  if q.isAbsolute || p.isEmpty then q
  else if p.text.toList.getLast? = some '/' then ⟨p.text ++ q.text⟩
  else ⟨p.text ++ "/" ++ q.text⟩

instance : HDiv Path String Path := ⟨fun p s => p.join ⟨s⟩⟩

/-- A component for each piece between slashes; an empty piece and a `.` are none. -/
def componentOf? (piece : List Char) : Option Component :=
  if piece = [] ∨ piece = ['.'] then none
  else if piece = ['.', '.'] then some .parent
  else some (.normal (String.ofList piece))

/-- The components of a path. A leading slash is the root, a leading `.` the current directory. -/
def components (p : Path) : List Component :=
  let pieces := Text.splitOn '/' p.text.toList
  let first : List Component :=
    if p.isAbsolute then [.root] else if pieces.head? = some ['.'] then [.current] else []
  first ++ pieces.filterMap componentOf?

def fileName? (p : Path) : Option String :=
  match p.components.getLast? with
  | some (.normal name) => some name
  | _ => none

/-- A file name with the dot-separated part at its end cut off, and that part. -/
def splitExtension (name : String) : String × Option String :=
  match Text.splitOnce '.' name.toList.reverse with
  | some (ext, stem) =>
    if stem.isEmpty || name = ".." then (name, none)
    else (String.ofList stem.reverse, some (String.ofList ext.reverse))
  | none => (name, none)

def extension? (p : Path) : Option String := p.fileName?.bind fun name => (splitExtension name).2

/-- The path with another extension at its last name, or with a first one; a path that ends in no name stays as it is. -/
def withExtension (p : Path) (extension : String) : Path :=
  match p.fileName? with
  | none => p
  | some name =>
    let stem := (splitExtension name).1
    let named := if extension.isEmpty then stem else stem ++ "." ++ extension
    -- empty pieces and dots after the last name are dropped with it
    let upTo := (Text.splitOn '/' p.text.toList).reverse.dropWhile (componentOf? · = none)
    ⟨String.ofList (Text.joinWith ['/'] (upTo.tail.reverse ++ [named.toList]))⟩

def append (p : Path) (suffix : String) : Path := ⟨p.text ++ suffix⟩

def below? (base p : Path) : Option (List Component) :=
  if base.components.isPrefixOf p.components then some (p.components.drop base.components.length) else none

/-- The root stands before everything, then `.`, then `..`, then names by code point. -/
def Component.rank : Component → Nat × String
  | .root => (0, "")
  | .current => (1, "")
  | .parent => (2, "")
  | .normal name => (3, name)

def Component.le (a b : Component) : Bool :=
  a.rank.1 < b.rank.1 || (a.rank.1 = b.rank.1 && (compare a.rank.2 b.rank.2).isLE)

def componentsLe : List Component → List Component → Bool
  | [], _ => true
  | _ :: _, [] => false
  | a :: as, b :: bs => if a = b then componentsLe as bs else a.le b

def le (p q : Path) : Bool := componentsLe p.components q.components

end Path

end MigrationMining
