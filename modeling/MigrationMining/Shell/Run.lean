import MigrationMining.CodeModel.Program
import MigrationMining.Shell.Script
import MigrationMining.Shell.Utility

/-! Running scripts and programs. A script sees the files and its arguments, and may write files. -/

namespace MigrationMining.Shell

structure Session where
  files : FileStore
  arguments : List String
  output : ByteArray := .empty
  errors : ByteArray := .empty
  status : Nat := 0
  ending : Option Ending := none

namespace Session

def processId : String := "1"

def valueOf (s : Session) : Parameter → String
  | .argument n => s.arguments.getD n ""
  | .arguments => String.intercalate " " s.arguments.tail
  | .argumentCount => toString (s.arguments.length - 1)
  | .processId => processId
  | .lastStatus => toString s.status
  | .variable _ => ""

def fields (cs : List Char) : List String :=
  ((Text.splitOn ' ' (cs.map fun c => if Text.isBlank c then ' ' else c)).filter (!·.isEmpty)).map String.ofList

def expand (s : Session) (w : Word) : List String :=
  match w with
  | [.quoted .arguments] => s.arguments.tail
  | _ =>
    if w.all fun p => match p with | .split _ => true | _ => false then
      fields (w.flatMap fun p => match p with | .split p => (s.valueOf p).toList | _ => [])
    else
      [String.ofList (w.flatMap fun p =>
        match p with
        | .text t => t
        | .quoted p | .split p => (s.valueOf p).toList)]

/-- A word that has no parts is an empty text in quotation marks. -/
def expandWord (s : Session) (w : Word) : List String := if w.isEmpty then [""] else s.expand w

inductive Sink where
  | output
  | errors
  | nowhere
  | file (path : Path)
  deriving DecidableEq

structure Streams where
  input : ByteArray
  one : Sink := .output
  two : Sink := .errors

def Streams.set (t : Streams) (descriptor : Nat) (sink : Sink) : Streams :=
  match descriptor with
  | 1 => { t with one := sink }
  | 2 => { t with two := sink }
  | _ => t

def nullDevice : String := "/dev/null"

def openFile (fs : FileStore) (p : Path) (keep : Bool) : Except FileFailure FileStore :=
  match fs.readBytes p with
  | .ok content => fs.writeBytes p (if keep then content else .empty)
  | .error .missing => fs.writeBytes p .empty
  | .error e => .error e

def redirect (s : Session) (t : Streams) (r : Redirection) : Except String (Session × Streams) :=
  let name := String.intercalate " " (s.expandWord r.target)
  match r.direction with
  | .duplicate =>
    match name with
    | "1" => .ok (s, t.set r.descriptor t.one)
    | "2" => .ok (s, t.set r.descriptor t.two)
    | "-" => .ok (s, t.set r.descriptor .nowhere)
    | _ => .error (name ++ ": Bad file descriptor")
  | .input =>
    if name = nullDevice then .ok (s, { t with input := .empty })
    else match s.files.readBytes ⟨name⟩ with
      | .ok content => .ok (s, { t with input := content })
      | .error _ => .error ("cannot open " ++ name ++ ": No such file")
  | .output | .appending =>
    if name = nullDevice then .ok (s, t.set r.descriptor .nowhere)
    else match openFile s.files ⟨name⟩ (r.direction = .appending) with
      | .ok files => .ok ({ s with files }, t.set r.descriptor (.file ⟨name⟩))
      | .error .isADirectory => .error ("cannot create " ++ name ++ ": Is a directory")
      | .error _ => .error ("cannot create " ++ name ++ ": Directory nonexistent")

def write (s : Session) (sink : Sink) (text : ByteArray) : Session :=
  if text.isEmpty then s
  else match sink with
    | .output => { s with output := s.output ++ text }
    | .errors => { s with errors := s.errors ++ text }
    | .nowhere => s
    | .file p =>
      match s.files.readBytes p with
      | .ok content => { s with files := (s.files.writeBytes p (content ++ text)).toOption.getD s.files }
      | .error _ => s

/-- A complaint of the shell itself, with the name of the script and the line. -/
def complain (s : Session) (line : Nat) (text : String) : ByteArray :=
  (s.arguments.headD "" ++ ": " ++ toString line ++ ": " ++ text ++ "\n").toUTF8

def signalOf (name : String) : Option Nat :=
  match name with
  | "-9" | "-KILL" | "-SIGKILL" => some 9
  | "-15" | "-TERM" | "-SIGTERM" => some 15
  | "-1" | "-HUP" => some 1
  | "-2" | "-INT" => some 2
  | "-3" | "-QUIT" => some 3
  | "-6" | "-ABRT" => some 6
  | _ => none

def leave (s : Session) (args : List String) : Session :=
  let status := match args with
    | n :: _ => (n.toNat?).getD 2
    | [] => s.status
  { s with status := status % 256, ending := some (.exited (status % 256)) }

def call (s : Session) (t : Streams) (line : Nat) (words : List String) : Session :=
  match words with
  | [] => { s with status := 0 }
  | "exit" :: args => s.leave args
  | ["kill", target] => if target = processId then { s with ending := some (.killed 15) } else { s with status := 1 }
  | ["kill", signal, target] =>
    match signalOf signal with
    | some n => if target = processId then { s with ending := some (.killed n) } else { s with status := 1 }
    | none => { s with status := 1 }
  | name :: args =>
    match Utility.run? s.files t.input name args with
    | some o => { (s.write t.one o.output).write t.two o.errors with status := o.status }
    | none => { s.write t.two (s.complain line (name ++ ": not found")) with status := 127 }

def runCommand (s : Session) (input : ByteArray) (c : SimpleCommand) : Session :=
  match c.redirections.foldlM (fun (s, t) r => s.redirect t r) (s, ({ input } : Streams)) with
  | .error e => { s.write .errors (s.complain c.line e) with status := 2 }
  | .ok (s', t) => s'.call t c.line (c.words.flatMap s'.expandWord)

/-- The output of each command of a pipe is the input of the next. Only a command that stands alone can end the
script. -/
def runPipe (s : Session) (input : ByteArray) : List SimpleCommand → Session
  | [] => s
  | [c] => s.runCommand input c
  | c :: d :: cs =>
    let first := { s with output := .empty }.runCommand input c
    let rest := { first with output := s.output, status := s.status, ending := none }.runPipe first.output (d :: cs)
    { rest with ending := none }

def runStep (s : Session) (step : Step) : Session :=
  let goesOn := s.ending.isNone && match step.connector with
    | .always => true
    | .onSuccess => s.status = 0
    | .onFailure => s.status ≠ 0
  if goesOn then s.runPipe .empty step.pipe else s

def run (s : Session) (text : String) : Session :=
  match Script.read text with
  | .ok script => script.foldl runStep s
  | .error e => { s.write .errors (s.complain 1 e.message) with status := 2 }

end Session

def Session.finish (s : Session) : Finished := ⟨s.ending.getD (.exited s.status), s.output, s.errors, s.files⟩

def programName (program : String) : String :=
  match Text.splitOn '/' program.toList with
  | [[], d, name] => if d = "bin".toList then String.ofList name else program
  | [[], u, d, name] => if u = "usr".toList && d = "bin".toList then String.ofList name else program
  | _ => program

/-- The shell as a program: the script stands after `-c`, or in a file. -/
def runShell (fs : FileStore) (program : String) (args : List String) : Finished :=
  match args with
  | "-c" :: script :: [] => (Session.run { files := fs, arguments := [program] } script).finish
  | "-c" :: script :: names => (Session.run { files := fs, arguments := names } script).finish
  | file :: _ =>
    match fs.readText ⟨file⟩ with
    | .ok script => (Session.run { files := fs, arguments := args } script).finish
    | .error _ =>
      ⟨.exited 2, .empty, (program ++ ": 0: cannot open " ++ file ++ ": No such file\n").toUTF8, fs⟩
  | [] => ⟨.exited 0, .empty, .empty, fs⟩

def start? (fs : FileStore) (program : String) (args : List String) : Option Finished :=
  match programName program with
  | "sh" | "dash" => some (runShell fs program args)
  | ":" | "[" => none
  | name =>
    (Utility.run? fs .empty name args).map fun o => ⟨.exited o.status, o.output, o.errors, fs⟩

end MigrationMining.Shell
