import MigrationMining.Text.Pieces

/-! Shell scripts: simple commands joined by pipes and by what follows on success or failure, and how they are
read from text. -/

namespace MigrationMining.Shell

inductive Parameter where
  | argument (number : Nat)
  | arguments
  | argumentCount
  | processId
  | lastStatus
  | variable (name : String)
  deriving DecidableEq

/-- A piece of a word. A parameter outside quotation marks is split at white space. -/
inductive Part where
  | text (content : List Char)
  | quoted (parameter : Parameter)
  | split (parameter : Parameter)
  deriving DecidableEq

abbrev Word := List Part

inductive Direction where
  | input
  | output
  | appending
  | duplicate
  deriving DecidableEq

structure Redirection where
  descriptor : Nat
  direction : Direction
  target : Word
  deriving DecidableEq

structure SimpleCommand where
  line : Nat
  words : List Word
  redirections : List Redirection
  deriving DecidableEq

inductive Connector where
  | always
  | onSuccess
  | onFailure
  deriving DecidableEq

structure Step where
  connector : Connector
  pipe : List SimpleCommand
  deriving DecidableEq

abbrev Script := List Step

inductive Token where
  | word (word : Word)
  | redirect (descriptor : Nat) (direction : Direction)
  | separator
  | newLine
  | bar
  | andIf
  | orIf
  deriving DecidableEq

inductive SyntaxError where
  | openQuote
  | openBrace
  | noTarget
  | noCommand
  deriving DecidableEq

def SyntaxError.message : SyntaxError → String
  | .openQuote => "Syntax error: Unterminated quoted string"
  | .openBrace => "Syntax error: Missing '\x7d'"
  | .noTarget => "Syntax error: newline unexpected"
  | .noCommand => "Syntax error: end of file unexpected"

def isNameChar (c : Char) : Bool := c.isAlphanum || c = '_'

def parameterOf (letters : List Char) : Parameter :=
  match letters with
  | ['@'] | ['*'] => .arguments
  | ['#'] => .argumentCount
  | ['$'] => .processId
  | ['?'] => .lastStatus
  | _ =>
    match (String.ofList letters).toNat? with
    | some n => .argument n
    | none => .variable (String.ofList letters)

/-- The parameter after a dollar sign, and what follows it. Without braces its name is one sign, one digit, or as
long as letters, digits and underscores go on. -/
def parameter? (cs : List Char) : Option (Parameter × List Char) :=
  match cs with
  | [] => none
  | c :: r =>
    if c = '\x7b' then some (parameterOf (r.takeWhile (· ≠ '\x7d')), (r.dropWhile (· ≠ '\x7d')).drop 1)
    else if c.isDigit || c ∈ ['@', '*', '#', '$', '?'] then some (parameterOf [c], r)
    else if isNameChar c then some (parameterOf (c :: r.takeWhile isNameChar), r.dropWhile isNameChar)
    else none

theorem length_of_parameter? {cs r : List Char} {p : Parameter} (h : parameter? cs = some (p, r)) :
    r.length ≤ cs.length := by
  cases cs with
  | nil => simp [parameter?] at h
  | cons c cs =>
    have hb := Text.length_dropWhile_le (· ≠ '\x7d') cs
    have hn := Text.length_dropWhile_le isNameChar cs
    simp only [parameter?] at h
    split at h
    · cases h
      simp only [List.length_drop, List.length_cons]
      omega
    · split at h
      · cases h
        simp
      · split at h
        · cases h
          simp only [List.length_cons]
          omega
        · cases h

inductive Mode where
  | plain
  | single
  | double
  | comment

abbrev Draft := Option (List Part)

def Draft.add (d : Draft) (p : Part) : Draft := some (p :: d.getD [])

def Draft.tokens : Draft → List Token
  | none => []
  | some parts => [.word parts.reverse]

def digit? : Part → Option Nat
  | .text [c] => if c.isDigit then some (c.toNat - 48) else none
  | _ => none

/-- The tokens of a redirection. A digit right before it is the descriptor, any other word stands for itself. -/
def redirect (d : Draft) (standard : Nat) (direction : Direction) : List Token :=
  match d with
  | some [p] =>
    match digit? p with
    | some n => [.redirect n direction]
    | none => d.tokens ++ [.redirect standard direction]
  | _ => d.tokens ++ [.redirect standard direction]

def tokens (mode : Mode) (draft : Draft) (cs : List Char) : Except SyntaxError (List Token) :=
  match mode, cs with
  | .single, [] | .double, [] => .error .openQuote
  | .plain, [] | .comment, [] => .ok draft.tokens
  | .comment, c :: r => if c = '\n' then (.newLine :: ·) <$> tokens .plain none r else tokens .comment none r
  | .single, c :: r => if c = '\'' then tokens .plain draft r else tokens .single (draft.add (.text [c])) r
  | .double, '"' :: r => tokens .plain draft r
  | .double, '\\' :: '\n' :: r => tokens .double draft r
  | .double, '\\' :: e :: r =>
    tokens .double (draft.add (.text (if e ∈ ['"', '\\', '$', '\x60'] then [e] else ['\\', e]))) r
  | .double, '$' :: r =>
    match h : parameter? r with
    | some (p, r') =>
      have := length_of_parameter? h
      tokens .double (draft.add (.quoted p)) r'
    | none => tokens .double (draft.add (.text ['$'])) r
  | .double, c :: r => tokens .double (draft.add (.text [c])) r
  | .plain, '\\' :: '\n' :: r => tokens .plain draft r
  | .plain, '\\' :: c :: r => tokens .plain (draft.add (.text [c])) r
  | .plain, '$' :: r =>
    match h : parameter? r with
    | some (p, r') =>
      have := length_of_parameter? h
      tokens .plain (draft.add (.split p)) r'
    | none => tokens .plain (draft.add (.text ['$'])) r
  | .plain, '\'' :: r => tokens .single (some (draft.getD [])) r
  | .plain, '"' :: r => tokens .double (some (draft.getD [])) r
  | .plain, '&' :: '&' :: r => (draft.tokens ++ .andIf :: ·) <$> tokens .plain none r
  | .plain, '|' :: '|' :: r => (draft.tokens ++ .orIf :: ·) <$> tokens .plain none r
  | .plain, '|' :: r => (draft.tokens ++ .bar :: ·) <$> tokens .plain none r
  | .plain, '&' :: r | .plain, ';' :: r => (draft.tokens ++ .separator :: ·) <$> tokens .plain none r
  | .plain, '\n' :: r => (draft.tokens ++ .newLine :: ·) <$> tokens .plain none r
  | .plain, '>' :: '>' :: r => (redirect draft 1 .appending ++ ·) <$> tokens .plain none r
  | .plain, '>' :: '&' :: r => (redirect draft 1 .duplicate ++ ·) <$> tokens .plain none r
  | .plain, '>' :: r => (redirect draft 1 .output ++ ·) <$> tokens .plain none r
  | .plain, '<' :: r => (redirect draft 0 .input ++ ·) <$> tokens .plain none r
  | .plain, c :: r =>
    if c = ' ' || c = '\t' then (draft.tokens ++ ·) <$> tokens .plain none r
    else if c = '#' && draft.isNone then tokens .comment none r
    else tokens .plain (draft.add (.text [c])) r
termination_by cs.length

/-- What has been read of a script: finished steps and pipes latest first, and the command at hand. -/
structure Reading where
  steps : List Step := []
  connector : Connector := .always
  pipe : List SimpleCommand := []
  line : Nat := 1
  words : List Word := []
  redirections : List Redirection := []

namespace Reading

def hasCommand (r : Reading) : Bool := !r.words.isEmpty || !r.redirections.isEmpty

def endCommand (r : Reading) : Reading :=
  if r.hasCommand then
    { r with pipe := ⟨r.line, r.words, r.redirections⟩ :: r.pipe, words := [], redirections := [] }
  else r

def endPipe (r : Reading) (next : Connector) : Reading :=
  let r := r.endCommand
  if r.pipe.isEmpty then { r with connector := next }
  else { r with steps := ⟨r.connector, r.pipe.reverse⟩ :: r.steps, pipe := [], connector := next }

def readTokens (r : Reading) : List Token → Except SyntaxError Script
  | [] =>
    if r.hasCommand || (r.pipe.isEmpty && r.connector = .always) then .ok (r.endPipe .always).steps.reverse
    else .error .noCommand
  | .redirect descriptor direction :: .word w :: ts =>
    readTokens { r with redirections := r.redirections ++ [⟨descriptor, direction, w⟩] } ts
  | .redirect .. :: _ => .error .noTarget
  | .word w :: ts => readTokens { r with words := r.words ++ [w] } ts
  | .separator :: ts => readTokens (r.endPipe .always) ts
  | .newLine :: ts =>
    let r := if r.hasCommand then r.endPipe .always else r
    readTokens { r with line := r.line + 1 } ts
  | .bar :: ts => readTokens r.endCommand ts
  | .andIf :: ts => readTokens (r.endPipe .onSuccess) ts
  | .orIf :: ts => readTokens (r.endPipe .onFailure) ts

end Reading

def Script.read (text : String) : Except SyntaxError Script := do
  Reading.readTokens {} (← tokens .plain none text.toList)

end MigrationMining.Shell
