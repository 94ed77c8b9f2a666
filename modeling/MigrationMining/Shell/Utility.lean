import MigrationMining.FileStore
import MigrationMining.Text.Blank

/-! The utilities that scripts call: what they print, given their arguments and their input. -/

namespace MigrationMining.Shell

/-- What a command leaves: its status, what it printed, and its complaints. -/
structure Outcome where
  status : Nat := 0
  output : ByteArray := .empty
  errors : ByteArray := .empty

namespace Utility

def bytesOf (cs : List Char) : List UInt8 := (String.ofList cs).toUTF8.toList

def isOctalDigit (c : Char) : Bool := '0' ≤ c && c ≤ '7'

def octalValue (ds : List Char) : Nat := ds.foldl (fun n d => n * 8 + (d.toNat - 48)) 0

def unescape : Char → Option UInt8
  | 'n' => some 10
  | 't' => some 9
  | 'r' => some 13
  | 'a' => some 7
  | 'b' => some 8
  | 'f' => some 12
  | 'v' => some 11
  | '\\' => some 92
  | _ => none

/-- The byte of an escape and how many characters it has after the reverse solidus: a letter, or at most `digits`
octal digits. -/
def escape? (digits : Nat) (cs : List Char) : Option (UInt8 × Nat) :=
  match (cs.take digits).takeWhile isOctalDigit, cs with
  | d :: ds, _ => some (UInt8.ofNat (octalValue (d :: ds)), ds.length + 1)
  | [], c :: _ => (unescape c).map (·, 1)
  | [], [] => none

/-- Replaces escapes by their bytes; the flag tells whether `\c` was met, which ends all output. A zero may stand
before three octal digits. `skip` characters have been dealt with. -/
def unescapeText (skip : Nat) : List Char → List UInt8 × Bool
  | [] => ([], false)
  | c :: r =>
    match skip with
    | n + 1 => unescapeText n r
    | 0 =>
      if c = '\\' && r.head? = some 'c' then ([], true)
      else
        let (here, taken) := match c, escape? (if r.head? = some '0' then 4 else 3) r with
          | '\\', some (byte, n) => ([byte], n)
          | _, _ => (bytesOf [c], 0)
        let (t, ended) := unescapeText taken r
        (here ++ t, ended)

def printed (bytes : List UInt8) : Outcome := { output := ⟨bytes.toArray⟩ }

def echo (args : List String) : Outcome :=
  let (isOpen, args) := match args with
    | "-n" :: r => (true, r)
    | _ => (false, args)
  let (t, ended) := unescapeText 0 (String.intercalate " " args).toList
  printed (if isOpen || ended then t else t ++ [10])

/-- One pass through a format, taking arguments as it needs them. `skip` characters have been dealt with. -/
def format (skip : Nat) : List Char → List String → List UInt8 × List String
  | [], args => ([], args)
  | c :: r, args =>
    match skip with
    | n + 1 => format n r args
    | 0 =>
      let (here, taken, args) := match c, r with
        | '%', '%' :: _ => (bytesOf ['%'], 1, args)
        | '%', 's' :: _ | '%', 'd' :: _ => (bytesOf (args.headD "").toList, 1, args.tail)
        | '%', 'b' :: _ => ((unescapeText 0 (args.headD "").toList).1, 1, args.tail)
        | '\\', r => ((escape? 3 r).map fun (byte, n) => ([byte], n, args)).getD (bytesOf ['\\'], 0, args)
        | c, _ => (bytesOf [c], 0, args)
      let (t, rest) := format taken r args
      (here ++ t, rest)

def formatAll (fmt : List Char) : Nat → List String → List UInt8
  | 0, _ => []
  | n + 1, args =>
    let (t, rest) := format 0 fmt args
    if rest.isEmpty || rest.length = args.length then t else t ++ formatAll fmt n rest

def printf (args : List String) : Outcome :=
  match args with
  | [] => { status := 2, errors := "printf: usage: printf format [arg ...]\n".toUTF8 }
  | fmt :: args => printed (formatAll fmt.toList (args.length + 1) args)

def reason : FileFailure → String
  | .missing => "No such file or directory"
  | .exists => "File exists"
  | .notADirectory => "Not a directory"
  | .isADirectory => "Is a directory"
  | .notEmpty => "Directory not empty"
  | .notText => "Invalid argument"

/-- The files one after the other, the input for `-` and for no file at all. -/
def cat (fs : FileStore) (input : ByteArray) (args : List String) : Outcome :=
  (if args.isEmpty then ["-"] else args).foldl (fun o name =>
    if name = "-" then { o with output := o.output ++ input }
    else match fs.readBytes ⟨name⟩ with
      | .ok content => { o with output := o.output ++ content }
      | .error e =>
        { o with status := 1, errors := o.errors ++ ("cat: " ++ name ++ ": " ++ reason e ++ "\n").toUTF8 }) {}

def holds (fs : FileStore) : List String → Bool
  | [] => false
  | "!" :: args => !holds fs args
  | ["-n", s] => s ≠ ""
  | ["-z", s] => s = ""
  | ["-e", p] => fs.exists? ⟨p⟩
  | ["-f", p] => fs.isFile ⟨p⟩
  | ["-s", p] => match fs.readBytes ⟨p⟩ with | .ok content => content.size > 0 | .error _ => false
  | ["-d", p] => match fs.stat ⟨p⟩ with | .ok .directory => true | _ => false
  | [s] => s ≠ ""
  | [a, "=", b] => a = b
  | [a, "!=", b] => a ≠ b
  | [a, "-eq", b] => a.toInt? = b.toInt?
  | [a, "-ne", b] => a.toInt? ≠ b.toInt?
  | _ => false

def test (fs : FileStore) (args : List String) : Outcome := { status := if holds fs args then 0 else 1 }

def run? (fs : FileStore) (input : ByteArray) (name : String) (args : List String) : Option Outcome :=
  match name with
  | "echo" => some (echo args)
  | "printf" => some (printf args)
  | "cat" => some (cat fs input args)
  | "test" => some (test fs args)
  | "[" => some (test fs args.dropLast)
  | "true" | ":" | "sleep" => some {}
  | "false" => some { status := 1 }
  | _ => none

end Utility

end MigrationMining.Shell
