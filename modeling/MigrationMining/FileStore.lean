import MigrationMining.Failure
import MigrationMining.Path

/-! A tree of files as a value: what is found at a path, and the tree after a change. Names are looked up from
the working directory; `/` and the directories above the working directory exist and hold nothing at first. -/

namespace MigrationMining

inductive FileNode where
  | directory
  | file (content : ByteArray) (modified : Int)

/-- Where something lies: the names to follow from the working directory. -/
abbrev Place := List String

def Place.path (place : Place) : Path :=
  match place with
  | "/" :: names => ⟨"/" ++ String.intercalate "/" names⟩
  | names => ⟨String.intercalate "/" names⟩

structure FileStore where
  nodes : List (Place × FileNode) := []
  /-- The time, in nanoseconds since 1970, at which files are written from now on. -/
  clock : Int := 0

namespace FileStore

/-- The working directory, the root and what stands above the working directory. -/
def isFixedDirectory (place : Place) : Bool := place = ["/"] || place.all (· = "..")

def node? (fs : FileStore) (place : Place) : Option FileNode :=
  if isFixedDirectory place then some .directory else (fs.nodes.find? (·.1 = place)).map (·.2)

def put (fs : FileStore) (place : Place) (node : FileNode) : FileStore :=
  { fs with nodes := (place, node) :: fs.nodes.filter (·.1 ≠ place) }

def erase (fs : FileStore) (place : Place) : FileStore :=
  { fs with nodes := fs.nodes.filter (·.1 ≠ place) }

def requireDirectory (fs : FileStore) (place : Place) : Except FileFailure Unit :=
  match fs.node? place with
  | some .directory => .ok ()
  | some (.file ..) => .error .notADirectory
  | none => .error .missing

def stepUp (place : Place) : Place :=
  if place = ["/"] then place else if place.all (· = "..") then place ++ [".."] else place.dropLast

def step (fs : FileStore) (place : Place) : Path.Component → Except FileFailure Place
  | .root => .ok ["/"]
  | .current => .ok place
  | .parent => (fs.requireDirectory place).map fun _ => stepUp place
  | .normal name => (fs.requireDirectory place).map fun _ => place ++ [name]

/-- The place of a path, all but the last of whose components must be directories. -/
def locate (fs : FileStore) (p : Path) : Except FileFailure Place :=
  if p.isEmpty then .error .missing else p.components.foldlM fs.step []

def meansDirectory (p : Path) : Bool :=
  match (Text.splitOn '/' p.text.toList).reverse with
  | last :: _ :: _ => last = [] || last = ['.']
  | _ => false

def stat (fs : FileStore) (p : Path) : Except FileFailure FileNode := do
  let place ← fs.locate p
  match fs.node? place with
  | none => .error .missing
  | some (.file content modified) =>
    if meansDirectory p then .error .notADirectory else .ok (.file content modified)
  | some .directory => .ok .directory

def exists? (fs : FileStore) (p : Path) : Bool := (fs.stat p).toBool

def isFile (fs : FileStore) (p : Path) : Bool :=
  match fs.stat p with
  | .ok (.file ..) => true
  | _ => false

def readBytes (fs : FileStore) (p : Path) : Except FileFailure ByteArray :=
  match fs.stat p with
  | .ok (.file content _) => .ok content
  | .ok .directory => .error .isADirectory
  | .error e => .error e

def readText (fs : FileStore) (p : Path) : Except FileFailure String := do
  match String.fromUTF8? (← fs.readBytes p) with
  | some text => .ok text
  | none => .error .notText

def writeBytes (fs : FileStore) (p : Path) (content : ByteArray) : Except FileFailure FileStore := do
  let place ← fs.locate p
  match fs.node? place with
  | some .directory => .error .isADirectory
  | _ =>
    if meansDirectory p then .error .isADirectory
    else
      fs.requireDirectory place.dropLast
      return fs.put place (.file content fs.clock)

def makeDirectory (fs : FileStore) (place : Place) : Except FileFailure FileStore :=
  match fs.node? place with
  | some .directory => .ok fs
  | some (.file ..) => .error .exists
  | none => .ok (fs.put place .directory)

/-- Why a change of several steps has failed, and the tree that its first steps have left. -/
structure Interrupted where
  cause : FileFailure
  files : FileStore

/-- The tree after a change of several steps, whether all of them were taken or not. -/
def treeAfter : Except Interrupted FileStore → FileStore
  | .ok fs => fs
  | .error e => e.files

/-- A step on the tree; its failure leaves the tree as it is then. -/
def orInterrupt {α : Type} (fs : FileStore) (r : Except FileFailure α) : Except Interrupted α := r.mapError (⟨·, fs⟩)

/-- Goes one component on from a place, making a directory there if there is nothing yet. -/
def stepMaking (here : FileStore × Place) (c : Path.Component) : Except Interrupted (FileStore × Place) := do
  let place ← here.1.orInterrupt (here.1.step here.2 c)
  return (← here.1.orInterrupt (here.1.makeDirectory place), place)

/-- Makes the directory of a path and all that are missing above it, one after the other. -/
def makeDirectories (fs : FileStore) (p : Path) : Except Interrupted FileStore :=
  (p.components.foldlM stepMaking (fs, [])).map (·.1)

/-- The directory part of a path, `none` if it has none to make. -/
def directoryOf? (p : Path) : Option Path :=
  let name := p.text.toList.reverse.dropWhile (· = '/')
  match (name.dropWhile (· ≠ '/')).dropWhile (· = '/') with
  | [] => none
  | dir => some ⟨String.ofList dir.reverse⟩

def saveBytes (fs : FileStore) (p : Path) (content : ByteArray) : Except Interrupted FileStore := do
  let fs ← match directoryOf? p with
    | some dir => fs.makeDirectories dir
    | none => pure fs
  fs.orInterrupt (fs.writeBytes p content)

def save (fs : FileStore) (p : Path) (text : String) : Except Interrupted FileStore := fs.saveBytes p text.toUTF8

def remove (fs : FileStore) (p : Path) : Except FileFailure FileStore := do
  match ← fs.stat p with
  | .directory => .error .isADirectory
  | .file .. => return fs.erase (← fs.locate p)

/-- Moves a file to another path, over a file that may be there. -/
def rename (fs : FileStore) (source target : Path) : Except FileFailure FileStore := do
  match ← fs.stat source with
  | .directory => .error .isADirectory
  | node =>
    let place ← fs.locate target
    fs.requireDirectory place.dropLast
    match fs.node? place with
    | some .directory => .error .isADirectory
    | _ => return (fs.erase (← fs.locate source)).put place node

/-- The files of the tree below the working directory, with their places. -/
def files (fs : FileStore) : List (Place × ByteArray) :=
  fs.nodes.filterMap fun (place, node) =>
    match node with
    | .file content _ => some (place, content)
    | .directory => none

/-- The files that are new or hold something else than in an earlier tree. -/
def changedSince (before fs : FileStore) : List (Place × ByteArray) :=
  fs.files.filter fun (place, content) =>
    match before.node? place with
    | some (.file old _) => old.data ≠ content.data
    | _ => true

end FileStore

end MigrationMining
