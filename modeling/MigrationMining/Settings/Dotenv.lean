import MigrationMining.Settings.Readers
import MigrationMining.Text.Pieces

/-! A reader of files of variables: a line `name=value` each, blank lines and comments. Values may be quoted, escaped, and refer
to other variables. White space around a line is dropped before it is read. -/

namespace MigrationMining.Dotenv

/-- Inside a value: whether a reference to a variable has been begun, and how. -/
inductive Reference where
  | none
  | bare (name : List Char)
  | braced (name : List Char)

structure Scan where
  quote : Option Char := Option.none
  escaped : Bool := false
  /-- A blank outside quotation marks was met: only blanks and a comment may follow. -/
  closing : Bool := false
  finished : Bool := false
  reference : Reference := .none
  output : List Char := []

namespace Scan

def push (s : Scan) (cs : List Char) : Scan := { s with output := s.output ++ cs }

def resolve (env : Environment) (name : List Char) : List Char := ((env.value? (String.ofList name)).getD "").toList

def escape? (c : Char) : Option Char :=
  if c ∈ ['\\', '\'', '"', '$', ' '] then some c else if c = 'n' then some '\n' else none

def plain (s : Scan) (c : Char) : Option Scan :=
  if c = '$' then some { s with reference := .bare [] }
  else match s.quote with
    | some _ =>
      some (if c = '"' then { s with quote := Option.none }
        else if c = '\\' then { s with escaped := true } else s.push [c])
    | Option.none =>
      some (if c = '\'' || c = '"' then { s with quote := some c }
        else if c = '\\' then { s with escaped := true }
        else if c = ' ' || c = '\t' then { s with closing := true }
        else s.push [c])

def step (env : Environment) (s : Scan) (c : Char) : Option Scan :=
  if s.finished then some s
  else if s.closing then
    if c = ' ' || c = '\t' then some s else if c = '#' then some { s with finished := true } else Option.none
  else if s.escaped then (escape? c).map fun c => { s.push [c] with escaped := false }
  else if s.quote = some '\'' then some (if c = '\'' then { s with quote := Option.none } else s.push [c])
  else match s.reference with
    | .none => s.plain c
    | .bare name =>
      if c.isAlphanum then some { s with reference := .bare (name ++ [c]) }
      else if c = '\x7b' && name.isEmpty then some { s with reference := .braced [] }
      else
        let s := s.push (resolve env name)
        some (if c = '$' then { s with reference := .bare [] } else { s.push [c] with reference := .none })
    | .braced name =>
      if c = '\x7d' then some { s.push (resolve env name) with reference := .none }
      else some { s with reference := .braced (name ++ [c]) }

def finish (env : Environment) (s : Scan) : Option (List Char) :=
  if s.quote.isSome then Option.none
  else match s.reference with
    | .none => some s.output
    | .bare name => some (s.push (resolve env name)).output
    | .braced _ => Option.none

end Scan

def value? (env : Environment) (cs : List Char) : Option (List Char) :=
  (cs.foldlM (Scan.step env) {}).bind (Scan.finish env)

def isNameStart (c : Char) : Bool := c.isAlpha || c = '_'

def isNameChar (c : Char) : Bool := c.isAlphanum || c = '_' || c = '.'

def name? (cs : List Char) : Option (List Char × List Char) :=
  match cs with
  | [] => none
  | c :: r =>
    if isNameStart c then some (c :: r.takeWhile isNameChar, Text.trimLeft (r.dropWhile isNameChar)) else none

def equals? : List Char → Option (List Char)
  | '=' :: r => some r
  | _ => none

/-- The name before the equals sign, after the word `export` if that is there. -/
def named? (cs : List Char) : Option (List Char × List Char) := do
  let (name, r) ← name? cs
  match equals? r with
  | some r => return (name, r)
  | none =>
    if name = "export".toList then
      let (name, r) ← name? r
      return (name, ← equals? r)
    else none

/-- What a line is: nothing, or a variable and its value. -/
inductive Line where
  | nothing
  | entry (name value : String)

def line? (env : Environment) (cs : List Char) : Option Line :=
  match Text.trim cs with
  | [] | '#' :: _ => some .nothing
  | cs => do
    let (name, r) ← named? cs
    let value ← match Text.trimLeft r with
      | [] | '#' :: _ => some []
      | r => value? env r
    return .entry (String.ofList name) (String.ofList value)

/-- Adds the variables of the lines, up to the first that is malformed. A variable that is set stays as it is. -/
def extend (env : Environment) : List (List Char) → Environment
  | [] => env
  | l :: ls =>
    match line? env l with
    | none => env
    | some .nothing => extend env ls
    | some (.entry name value) =>
      if (env.value? name).isSome then extend env ls else extend (env ++ [(name, value)]) ls

/-- The lines before the first one that is no UTF-8 text. -/
def readable : List (List UInt8) → List (List Char)
  | [] => []
  | line :: rest =>
    match String.fromUTF8? ⟨line.toArray⟩ with
    | some text => text.toList :: readable rest
    | none => []

/-- The lines of a file, up to the first one that is no text; the last may be empty. -/
def lines (content : ByteArray) : List (List Char) := readable (Text.splitOn 10 content.toList)

def load (env : Environment) (content : ByteArray) : Environment := extend env (lines content)

/-- The variables that lines set, in their order and with repetitions, up to the first line that is malformed. A reference
to a variable means its value in the environment or else the first one that was set before. -/
def assigned (env : Environment) : List (List Char) → Environment
  | [] => []
  | l :: ls =>
    match line? env l with
    | none => []
    | some .nothing => assigned env ls
    | some (.entry name value) => (name, value) :: assigned (env ++ [(name, value)]) ls

def fromPath (s : Settings.Surroundings) (file : Path) : Environment :=
  match s.files.readBytes file with
  | .ok content => load s.env content
  | .error _ => s.env

def reader : Settings.VariableReader where
  fromFilename s name :=
    match (s.upwards name).find? s.files.isFile with
    | some file => fromPath s file
    | none => s.env
  fromPath
  entries env content := assigned env (lines content)

end MigrationMining.Dotenv
