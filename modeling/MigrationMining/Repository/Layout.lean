import MigrationMining.Coordinate
import MigrationMining.Path

/-! Where a repository keeps the files of a release, in the web and in a directory. -/

namespace MigrationMining.Layout

def groupPath (group : String) : String :=
  String.ofList (group.toList.map fun c => if c = '.' then '/' else c)

def fileName (c : Coordinate) (extension : String) : String :=
  c.artifact ++ "-" ++ c.version ++ "." ++ extension

/-- `<root>/<group path>/<artifact>/<version>/<artifact>-<version>.<extension>` -/
def archivePath (root : Path) (c : Coordinate) (extension : String) : Path :=
  root / groupPath c.group / c.artifact / c.version / fileName c extension

def componentText : Path.Component → String
  | .root => "/"
  | .current => "."
  | .parent => ".."
  | .normal name => name

/-- The release whose directory the parts lead to, if the file is named after it. -/
def releaseOfParts? (parts : List String) : Option Coordinate :=
  match parts.reverse with
  | file :: version :: artifact :: g :: gs =>
    if (artifact ++ "-" ++ version).toList.isPrefixOf file.toList then
      some ⟨String.intercalate "." (g :: gs).reverse, artifact, version⟩
    else none
  | _ => none

def releaseOf? (root archive : Path) : Option Coordinate :=
  (Path.below? root archive).bind fun cs => releaseOfParts? (cs.map componentText)

def belowLast? (names : List String) (cs : List Path.Component) : Option (List Path.Component) :=
  match cs with
  | [] => none
  | c :: r =>
    match belowLast? names r with
    | some found => some found
    | none =>
      match c with
      | .normal name => if name ∈ names then some r else none
      | _ => none

/-- The release of an archive below the nearest directory that has one of those names. -/
def releaseBelow? (names : List String) (archive : Path) : Option Coordinate :=
  (belowLast? names archive.components).bind fun cs => releaseOfParts? (cs.map componentText)

def base (url : String) : String := String.ofList (url.toList.reverse.dropWhile (· = '/')).reverse

def metadataUrl (repository : String) (p : Project) : String :=
  base repository ++ "/" ++ groupPath p.group ++ "/" ++ p.artifact ++ "/maven-metadata.xml"

def fileUrl (repository : String) (c : Coordinate) (extension : String) : String :=
  base repository ++ "/" ++ groupPath c.group ++ "/" ++ c.artifact ++ "/" ++ c.version ++ "/" ++ fileName c extension

def usageUrl (usage : String) (c : Coordinate) (page : Nat) : String :=
  base usage ++ "/artifact/" ++ c.group ++ "/" ++ c.artifact ++ "/" ++ c.version ++ "/usages?p=" ++ toString page

end MigrationMining.Layout
