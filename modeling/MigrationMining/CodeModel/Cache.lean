import MigrationMining.CodeModel.Backend
import MigrationMining.Digest

/-! Extracting code models once: a model is kept in memory and, given a directory, in a file named after the
coordinate, the size and the time of its archive. -/

namespace MigrationMining

/-- An archive as it is found at a path. -/
structure Snapshot where
  coordinate : Coordinate
  path : Path
  deriving DecidableEq

namespace Snapshot

/-- The size and the time that are told of a directory. -/
def directorySize : Nat := 4096

/-- Size and time of the archive, nothing if there is none. Times before 1970 count as 0. -/
def stamp (fs : FileStore) (p : Path) : List UInt8 :=
  match fs.stat p with
  | .ok (.file content modified) => Digest.littleEndian 8 content.size ++ Digest.littleEndian 16 modified.toNat
  | .ok .directory => Digest.littleEndian 8 directorySize ++ Digest.littleEndian 16 fs.clock.toNat
  | .error _ => []

def key (fs : FileStore) (s : Snapshot) : String := Digest.hex (s.coordinate.text.toUTF8.toList ++ stamp fs s.path)

end Snapshot

structure CacheCounts where
  memoryHits : Nat := 0
  diskHits : Nat := 0
  extractions : Nat := 0
  discarded : Nat := 0
  deriving DecidableEq

structure ModelCache where
  models : Std.ExtTreeMap String CodeModel compare := ∅
  counts : CacheCounts := {}

structure ModelStore where
  files : FileStore
  cache : ModelCache := {}

structure Extractor where
  backend : Backend
  directory : Option Path

namespace Extractor

def ofKind (programs : Programs) (kind : String) (command : Option String) (args : List String) (directory : Path) :
    Except Failure Extractor :=
  match kind, command with
  | "facts", _ => .ok ⟨.facts, some directory⟩
  | "command", some program => .ok ⟨.command programs program args, some directory⟩
  | "command", none => .error (.configuration "extractor.command is required for kind 'command'")
  | _, _ => .error (.configuration ("Unknown extractor kind: " ++ kind))

def entry? (x : Extractor) (key : String) : Option Path := x.directory.map fun dir => dir / (key ++ ".json")

def readEntry (fs : FileStore) (entry : Path) : Except ExtractFailure (Option CodeModel) :=
  match fs.readBytes entry with
  | .ok content =>
    match ModelFacts.parse content with
    | some f => .ok (some f.model)
    | none => .error (.corruptEntry entry)
  | .error .missing => .ok none
  | .error e => .error (.file e)

def attempt (fs : FileStore) (f : FileStore → Except FileFailure FileStore) : FileStore :=
  match f fs with
  | .ok fs => fs
  | .error _ => fs

/-- Writes a model beside its entry and moves it there. What cannot be moved is left beside the entry. -/
def writeEntry (fs : FileStore) (entry : Path) (m : CodeModel) : FileStore :=
  let part := entry.append ".part"
  match fs.save part m.facts.toJson.compact with
  | .ok fs => attempt fs (·.rename part entry)
  | .error e => e.files

def remember (key : String) (m : CodeModel) (count : CacheCounts → CacheCounts) (s : ModelStore) : ModelStore :=
  { s with cache := { models := s.cache.models.insert key m, counts := count s.cache.counts } }

def counting (count : CacheCounts → CacheCounts) (s : ModelStore) : ModelStore :=
  { s with cache := { s.cache with counts := count s.cache.counts } }

def extract (x : Extractor) (key : String) (archive : Path) (s : ModelStore) :
    Except ExtractFailure CodeModel × ModelStore :=
  let (answer, files) := x.backend.extract archive s.files
  let s := { s with files }
  match answer with
  | .error e => (.error e, s)
  | .ok m =>
    let s := match x.entry? key with
      | some entry => { s with files := writeEntry s.files entry m }
      | none => s
    (.ok m, remember key m (fun c => { c with extractions := c.extractions + 1 }) s)

/-- The model of an archive: from memory, else from its file, else from the backend. -/
def model (x : Extractor) (snapshot : Snapshot) (s : ModelStore) : Except ExtractFailure CodeModel × ModelStore :=
  let key := snapshot.key s.files
  match s.cache.models[key]? with
  | some m => (.ok m, counting (fun c => { c with memoryHits := c.memoryHits + 1 }) s)
  | none =>
    match x.entry? key with
    | none => x.extract key snapshot.path s
    | some entry =>
      match readEntry s.files entry with
      | .ok (some m) => (.ok m, remember key m (fun c => { c with diskHits := c.diskHits + 1 }) s)
      | .ok none => x.extract key snapshot.path s
      | .error _ =>
        let s := counting (fun c => { c with discarded := c.discarded + 1 }) s
        x.extract key snapshot.path { s with files := attempt s.files (·.remove entry) }

def declarations (x : Extractor) (snapshot : Snapshot) : StateM ModelStore (Except Failure Namespace) := fun s =>
  let (m, s) := x.model snapshot s
  ((m.map (·.declarations)).mapError (·.failure), s)

def callGraph (x : Extractor) (snapshot : Snapshot) : StateM ModelStore (Except Failure CallGraph) := fun s =>
  let (m, s) := x.model snapshot s
  ((m.map (·.callGraph)).mapError (·.failure), s)

end Extractor

end MigrationMining
