import MigrationMining.Console.Arguments
import MigrationMining.Console.Table

/-! How results are printed: as JSON, as lines of names and values, or as tables. -/

namespace MigrationMining.Console

def memberText (name : String) (value : Json) : String :=
  match value with
  | .string s => name ++ ": " ++ s ++ "\n"
  | .null => name ++ ": -\n"
  | .array items =>
    if isRows items then name ++ ":\n" ++ Table.render items ++ "\n" else name ++ ": " ++ value.compact ++ "\n"
  | other => name ++ ": " ++ other.compact ++ "\n"

mutual

def prettyText : Json → String
  | .object members => String.join (members.map fun (name, value) => memberText name value)
  | .array items => itemTexts 1 items
  | other => other.indented ++ "\n"

def itemTexts (number : Nat) : List Json → String
  | [] => ""
  | x :: xs => "\nItem " ++ toString number ++ ":\n" ++ prettyText x ++ itemTexts (number + 1) xs

end

def tableText (value : Json) : String :=
  match value with
  | .array items => if isRows items then Table.render items ++ "\n" else prettyText value
  | _ => prettyText value

def outputText (format : OutputFormat) (value : Json) : String :=
  let value := value.sorted
  match format with
  | .json => value.indented ++ "\n"
  | .pretty => prettyText value
  | .table => tableText value

end MigrationMining.Console
