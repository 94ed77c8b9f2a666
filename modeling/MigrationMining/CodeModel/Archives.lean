import MigrationMining.FileStore

/-! Finding the archives of a directory tree. -/

namespace MigrationMining.Archives

def below (root : Path) (names : List String) : Path := names.foldl (fun p name => p / name) root

def isArchive (p : Path) : Bool := p.extension? = some "jar"

def isEntryName (name : String) : Bool :=
  !name.toList.contains '/' && Path.componentOf? name.toList = some (.normal name)

def namesBelow? (place target : Place) : Option (List String) :=
  let names := target.drop place.length
  if place.isPrefixOf target && !names.isEmpty && names.all isEntryName then some names else none

def filesBelow (fs : FileStore) (root : Path) : List Path :=
  match fs.locate root, fs.stat root with
  | .ok place, .ok .directory => (fs.files.filterMap fun (target, _) => namesBelow? place target).map (below root)
  | .ok _, .ok (.file ..) => [root]
  | _, _ => []

/-- The files named `….jar` at and below a path, in the order of their paths. -/
def find (fs : FileStore) (root : Path) : List Path := ((filesBelow fs root).filter isArchive).mergeSort Path.le

end MigrationMining.Archives
