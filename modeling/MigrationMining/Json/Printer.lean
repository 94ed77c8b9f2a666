import MigrationMining.Json.Basic
import MigrationMining.Decimal.Shortest

/-! Two written forms of a JSON value: compact, and indented by two spaces a level. -/

namespace MigrationMining.Json

def hexDigit (n : Nat) : Char := if n < 10 then Char.ofNat (48 + n) else Char.ofNat (87 + n)

/-- Quotation marks, reverse solidi and control characters are escaped, all else stands for itself. -/
def escapeChar (c : Char) : List Char :=
  match c with
  | '"' => ['\\', '"']
  | '\\' => ['\\', '\\']
  | '\n' => ['\\', 'n']
  | '\r' => ['\\', 'r']
  | '\t' => ['\\', 't']
  | '\x08' => ['\\', 'b']
  | '\x0c' => ['\\', 'f']
  | c => if c.toNat < 32 then ['\\', 'u', '0', '0', hexDigit (c.toNat / 16), hexDigit (c.toNat % 16)] else [c]

def quote (s : String) : List Char := '"' :: s.toList.flatMap escapeChar ++ ['"']

/-- Integers of 64 bits are written as they are; all other numbers are written as the nearest double. -/
def Number.render : Number → List Char
  | .integer false n =>
    if n < Nat.pow 2 64 then n.repr.toList else Decimal.shortest (Float.ofScientific n false 0)
  | .integer true n =>
    if n ≠ 0 ∧ n ≤ Nat.pow 2 63 then '-' :: n.repr.toList else Decimal.shortest (-Float.ofScientific n false 0)
  | .decimal negative m e =>
    let x := Float.ofScientific m (e < 0) e.natAbs
    Decimal.shortest (if negative then -x else x)

mutual

def renderCompact : Json → List Char
  | .null => "null".toList
  | .boolean b => (if b then "true" else "false").toList
  | .number n => n.render
  | .string s => quote s
  | .array items => '[' :: (renderItems items ++ [']'])
  | .object members => '{' :: (renderMembers members ++ ['}'])

def renderItems : List Json → List Char
  | [] => []
  | [x] => renderCompact x
  | x :: y :: r => renderCompact x ++ ',' :: renderItems (y :: r)

def renderMembers : List (String × Json) → List Char
  | [] => []
  | [(k, v)] => quote k ++ ':' :: renderCompact v
  | (k, v) :: m :: r => quote k ++ ':' :: (renderCompact v ++ ',' :: renderMembers (m :: r))

end

def newLine (depth : Nat) : List Char := '\n' :: List.replicate (2 * depth) ' '

mutual

def renderIndented (depth : Nat) : Json → List Char
  | .null => "null".toList
  | .boolean b => (if b then "true" else "false").toList
  | .number n => n.render
  | .string s => quote s
  | .array [] => ['[', ']']
  | .array (x :: r) => '[' :: (renderIndentedItems (depth + 1) (x :: r) ++ newLine depth ++ [']'])
  | .object [] => ['{', '}']
  | .object (m :: r) => '{' :: (renderIndentedMembers (depth + 1) (m :: r) ++ newLine depth ++ ['}'])

def renderIndentedItems (depth : Nat) : List Json → List Char
  | [] => []
  | [x] => newLine depth ++ renderIndented depth x
  | x :: y :: r => newLine depth ++ renderIndented depth x ++ ',' :: renderIndentedItems depth (y :: r)

def renderIndentedMembers (depth : Nat) : List (String × Json) → List Char
  | [] => []
  | [(k, v)] => newLine depth ++ quote k ++ ':' :: ' ' :: renderIndented depth v
  | (k, v) :: m :: r =>
    newLine depth ++ quote k ++ ':' :: ' ' :: (renderIndented depth v ++ ',' :: renderIndentedMembers depth (m :: r))

end

def compact (j : Json) : String := String.ofList (renderCompact j)

def indented (j : Json) : String := String.ofList (renderIndented 0 j)

end MigrationMining.Json
