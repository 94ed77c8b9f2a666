import MigrationMining.Path
import MigrationMining.Pipeline.Dataset
import MigrationMining.Settings.Environment

/-! The command line: what the arguments of the program ask for. -/

namespace MigrationMining.Console

inductive OutputFormat where
  | json
  | pretty
  | table
  deriving DecidableEq

def OutputFormat.ofText? : String → Option OutputFormat
  | "json" => some .json
  | "pretty" => some .pretty
  | "table" => some .table
  | _ => none

inductive Command where
  | versions (library : String)
  | analyze (library : String) (selection : Selection)
  | download (library : String) (selection : Selection) (all : Bool)
  | migrate (library : String) (candidate : Nat) (limit : Option Nat)
  | diffPairs (file : Path)
  | models (dir : Option Path)
  | initConfig (path : Option Path)
  deriving DecidableEq

structure Invocation where
  format : OutputFormat
  config : Option Path
  verbose : Bool
  command : Command
  deriving DecidableEq

inductive Refusal where
  | usage
  | version (program : String)
  deriving DecidableEq

inductive ValueKind where
  | text
  | path
  | count
  | format
  deriving DecidableEq

def ValueKind.accepts : ValueKind → String → Bool
  | .text, _ => true
  | .path, s => !s.isEmpty
  | .count, s => (Text.number? 64 s.toList).isSome
  | .format, s => (OutputFormat.ofText? s).isSome

structure OptionSpec where
  name : String
  letter : Option Char := none
  kind : Option ValueKind
  deriving DecidableEq

/-- What may be given in one place: before the subcommand, or after it. -/
structure Level where
  program : String
  options : List OptionSpec
  operands : List ValueKind
  isTop : Bool

def globalOptions : List OptionSpec :=
  [⟨"output", some 'o', some .format⟩, ⟨"config", some 'c', some .path⟩, ⟨"verbose", some 'v', none⟩]

def programName : String := "depshift"

def topLevel : Level := ⟨programName, globalOptions, [], true⟩

def subcommands : List (String × List OptionSpec × List ValueKind) :=
  let versionOptions : List OptionSpec := [⟨"v1", none, some .text⟩, ⟨"v2", none, some .text⟩]
  [("versions", [], [.text]),
    ("analyze", versionOptions, [.text]),
    ("download", versionOptions ++ [⟨"all", none, none⟩], [.text]),
    ("migrate", [⟨"candidate", none, some .count⟩, ⟨"limit", none, some .count⟩], [.text]),
    ("diff-pairs", [], [.path]),
    ("models", [⟨"dir", none, some .path⟩], []),
    ("init-config", [], [.path])]

def levelOf? (subcommand : String) : Option Level :=
  (subcommands.find? (·.1 = subcommand)).map fun (name, options, operands) =>
    ⟨programName ++ "-" ++ name, options ++ globalOptions, operands, false⟩

/-- What has been given: options with their values, flags with an empty one, and operands. -/
structure Given where
  options : List (String × String) := []
  operands : List String := []
  deriving DecidableEq

namespace Given

def value? (g : Given) (name : String) : Option String := (g.options.find? (·.1 = name)).map (·.2)

def has (g : Given) (name : String) : Bool := (g.value? name).isSome

def addOption (g : Given) (o : OptionSpec) (value : String) : Except Refusal Given :=
  if g.has o.name || !(o.kind.all (·.accepts value)) then .error .usage
  else .ok { g with options := g.options ++ [(o.name, value)] }

def addOperand (g : Given) (level : Level) (value : String) : Except Refusal Given :=
  match level.operands[g.operands.length]? with
  | some kind => if kind.accepts value then .ok { g with operands := g.operands ++ [value] } else .error .usage
  | none => .error .usage

end Given

/-- Whether a word is taken for options; a single hyphen is a value. -/
def looksLikeOption (word : String) : Bool :=
  match word.toList with
  | '-' :: _ :: _ => true
  | _ => false

inductive Mode where
  | word
  | value (option : OptionSpec)
  | operand
  deriving DecidableEq

/-- An option without a value attached to it: a flag is complete, others take the next word. -/
def bareOption (g : Given) (o : OptionSpec) : Except Refusal (Mode × Given) :=
  if o.kind.isNone then (Mode.word, ·) <$> g.addOption o "" else .ok (.value o, g)

def longOption (level : Level) (g : Given) (word : List Char) : Except Refusal (Mode × Given) := do
  let (name, attached) := match Text.splitOnce '=' word with
    | some (name, value) => (String.ofList name, some (String.ofList value))
    | none => (String.ofList word, none)
  if name = "version" && attached.isNone then throw (.version level.program)
  match level.options.find? (·.name = name), attached with
  | none, _ => throw .usage
  | some o, some value => if o.kind.isNone then throw .usage else return (.word, ← g.addOption o value)
  | some o, none => bareOption g o

/-- A word of letters: flags, and at the end maybe an option with the rest as its value. -/
def letterOptions (level : Level) (g : Given) : List Char → Except Refusal (Mode × Given)
  | [] => .ok (.word, g)
  | c :: r => do
    if c = 'V' then throw (.version level.program)
    match level.options.find? (·.letter = some c), r with
    | none, _ => throw .usage
    | some o, [] => bareOption g o
    | some o, e :: value =>
      if o.kind.isNone then letterOptions level (← g.addOption o "") r
      else return (.word, ← g.addOption o (String.ofList (if e = '=' then value else e :: value)))

def subcommandOf? (level : Level) (word : String) : Option Level := if level.isTop then levelOf? word else none

/-- Reads the words of a level up to a subcommand, with which the rest is given back. After `--` all words are
operands. -/
def readLevel (level : Level) (mode : Mode) (g : Given) :
    List String → Except Refusal (Given × Option (Level × String × List String))
  | [] =>
    match mode with
    | .value _ => .error .usage
    | _ => .ok (g, none)
  | word :: rest =>
    match mode with
    | .operand => do readLevel level .operand (← g.addOperand level word) rest
    | .value o => do
      if looksLikeOption word then throw .usage
      readLevel level .word (← g.addOption o word) rest
    | .word => do
      match subcommandOf? level word, word.toList with
      | some sub, _ => return (g, some (sub, word, rest))
      | none, ['-', '-'] => readLevel level .operand g rest
      | none, '-' :: '-' :: cs =>
        let (mode, g) ← longOption level g cs
        readLevel level mode g rest
      | none, '-' :: c :: cs =>
        let (mode, g) ← letterOptions level g (c :: cs)
        readLevel level mode g rest
      | none, _ => readLevel level .word (← g.addOperand level word) rest

def countOf (text : String) : Option Nat := Text.number? 64 text.toList

/-- The command of a subcommand and what was given with it; a missing operand is refused. -/
def commandOf? (subcommand : String) (g : Given) : Option Command :=
  let selection := Selection.ofVersions (g.value? "v1") (g.value? "v2")
  match subcommand, g.operands with
  | "versions", [library] => some (.versions library)
  | "analyze", [library] => some (.analyze library selection)
  | "download", [library] => some (.download library selection (g.has "all"))
  | "migrate", [library] =>
    some (.migrate library ((g.value? "candidate").bind countOf |>.getD 1) ((g.value? "limit").bind countOf))
  | "diff-pairs", [file] => some (.diffPairs ⟨file⟩)
  | "models", [] => some (.models ((g.value? "dir").map Path.mk))
  | "init-config", operands => some (.initConfig (operands.head?.map Path.mk))
  | _, _ => none

def configVariable : String := "DEPSHIFT_CONFIG"

/-- The file of settings. The variable counts where the option is not given, and must not be empty there. -/
def configOf (env : Environment) (top sub : Given) : Except Refusal (Option Path) :=
  let given := (sub.value? "config").orElse fun _ => top.value? "config"
  let isAlwaysGiven := sub.has "config" && top.has "config"
  let fromEnv := env.value? configVariable
  if fromEnv = some "" && !isAlwaysGiven then .error .usage
  else .ok ((given.orElse fun _ => fromEnv).map Path.mk)

/-- What the arguments ask for. A global option counts after the subcommand rather than before it. -/
def parse (env : Environment) (args : List String) : Except Refusal Invocation := do
  match ← readLevel topLevel .word {} args with
  | (_, none) => throw .usage
  | (top, some (level, name, rest)) =>
    let (sub, _) ← readLevel level .word {} rest
    match commandOf? name sub with
    | none => throw .usage
    | some command =>
      let format := (sub.value? "output").orElse fun _ => top.value? "output"
      return {
        format := (format.bind OutputFormat.ofText?).getD .pretty
        config := ← configOf env top sub
        verbose := sub.has "verbose" || top.has "verbose"
        command }

end MigrationMining.Console
