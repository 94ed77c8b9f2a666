import MigrationMining.Toml.Scalar

/-! Reading TOML documents of version 1.0: strings, keys, values, and the lines of a document. -/

namespace MigrationMining.Toml

def isForbidden (c : Char) : Bool := (c.toNat < 32 && c ≠ '\t') || c.toNat = 127

def scalarValue? (n : Nat) : Option Char := if n.isValidChar then some (Char.ofNat n) else none

def hexNumber? (cs : List Char) : Option Nat := if cs.all isHexDigit then some (valueIn 16 cs) else none

def unescape : Char → Option Char
  | 'b' => some '\x08'
  | 't' => some '\t'
  | 'n' => some '\n'
  | 'f' => some '\x0c'
  | 'r' => some '\r'
  | '"' => some '"'
  | '\\' => some '\\'
  | _ => none

abbrev Read := Option (List Char × List Char)

def consTo (c : Option Char) (rest : Read) : Read :=
  match c, rest with
  | some c, some (s, r) => some (c :: s, r)
  | _, _ => none

def readBasic : List Char → Read
  | [] => none
  | '"' :: r => some ([], r)
  | '\\' :: 'u' :: a :: b :: c :: d :: r =>
    consTo ((hexNumber? [a, b, c, d]).bind scalarValue?) (readBasic r)
  | '\\' :: 'U' :: a :: b :: c :: d :: e :: f :: g :: h :: r =>
    consTo ((hexNumber? [a, b, c, d, e, f, g, h]).bind scalarValue?) (readBasic r)
  | '\\' :: e :: r => consTo (unescape e) (readBasic r)
  | c :: r => if isForbidden c then none else consTo (some c) (readBasic r)

def readLiteral : List Char → Read
  | [] => none
  | '\'' :: r => some ([], r)
  | c :: r => if isForbidden c then none else consTo (some c) (readLiteral r)

def isLineEnd (cs : List Char) : Bool :=
  match cs.dropWhile fun c => c = ' ' || c = '\t' with
  | '\n' :: _ | '\r' :: '\n' :: _ => true
  | _ => false

/-- A string of several lines in quotation marks, from its content on. After a reverse solidus at the end of a
line, white space is skipped. Up to two quotation marks may stand right before the closing three. -/
def readLines (skipping : Bool) : List Char → Read
  | [] => none
  | '"' :: '"' :: '"' :: '"' :: '"' :: r => some (['"', '"'], r)
  | '"' :: '"' :: '"' :: '"' :: r => some (['"'], r)
  | '"' :: '"' :: '"' :: r => some ([], r)
  | '\\' :: 'u' :: a :: b :: c :: d :: r =>
    consTo ((hexNumber? [a, b, c, d]).bind scalarValue?) (readLines false r)
  | '\\' :: 'U' :: a :: b :: c :: d :: e :: f :: g :: h :: r =>
    consTo ((hexNumber? [a, b, c, d, e, f, g, h]).bind scalarValue?) (readLines false r)
  | '\\' :: e :: r =>
    if isLineEnd (e :: r) then readLines true r else consTo (unescape e) (readLines false r)
  | '\r' :: '\n' :: r =>
    if skipping then readLines true r else consTo (some '\r') (consTo (some '\n') (readLines false r))
  | '\n' :: r => if skipping then readLines true r else consTo (some '\n') (readLines false r)
  | c :: r =>
    if skipping && (c = ' ' || c = '\t') then readLines true r
    else if isForbidden c then none
    else consTo (some c) (readLines false r)

def readLiteralLines : List Char → Read
  | [] => none
  | '\'' :: '\'' :: '\'' :: '\'' :: '\'' :: r => some (['\'', '\''], r)
  | '\'' :: '\'' :: '\'' :: '\'' :: r => some (['\''], r)
  | '\'' :: '\'' :: '\'' :: r => some ([], r)
  | '\r' :: '\n' :: r => consTo (some '\r') (consTo (some '\n') (readLiteralLines r))
  | '\n' :: r => consTo (some '\n') (readLiteralLines r)
  | c :: r => if isForbidden c then none else consTo (some c) (readLiteralLines r)

/-- A line end right after the opening of a string of several lines does not belong to it. -/
def dropFirstLineEnd : List Char → List Char
  | '\n' :: r => r
  | '\r' :: '\n' :: r => r
  | cs => cs

/-- Any string, from its opening on; `none` if there is none or it is broken. -/
def readString : List Char → Read
  | '"' :: '"' :: '"' :: r => readLines false (dropFirstLineEnd r)
  | '\'' :: '\'' :: '\'' :: r => readLiteralLines (dropFirstLineEnd r)
  | '"' :: r => readBasic r
  | '\'' :: r => readLiteral r
  | _ => none

def skipBlanks (cs : List Char) : List Char := cs.dropWhile fun c => c = ' ' || c = '\t'

/-- What follows a comment, if one begins here; a comment ends before its line does. -/
def skipComment (cs : List Char) : Option (List Char) :=
  match cs with
  | '#' :: r =>
    let rest := r.dropWhile (!isForbidden ·)
    match rest with
    | [] | '\n' :: _ | '\r' :: '\n' :: _ => some rest
    | _ => none
  | cs => some cs

/-- What follows the end of a line, before which there may be blanks and a comment. -/
def endLine (cs : List Char) : Option (List Char) :=
  match skipComment (skipBlanks cs) with
  | some [] => some []
  | some ('\n' :: r) | some ('\r' :: '\n' :: r) => some r
  | _ => none

/-- Skips blanks, comments and line ends; `fuel` bounds the number of lines. -/
def skipLines : Nat → List Char → Option (List Char)
  | 0, cs => some cs
  | fuel + 1, cs =>
    let cs := skipBlanks cs
    match cs with
    | '#' :: _ | '\n' :: _ | '\r' :: '\n' :: _ => (endLine cs).bind (skipLines fuel)
    | _ => some cs

def isBareChar (c : Char) : Bool := (c.isAlphanum) || c = '_' || c = '-'

def readKeyPart (cs : List Char) : Read :=
  match cs with
  | '"' :: r => readBasic r
  | '\'' :: r => readLiteral r
  | _ =>
    match cs.takeWhile isBareChar with
    | [] => none
    | word => some (word, cs.dropWhile isBareChar)

/-- The parts of a key with dots between them, and what follows the blanks after it. -/
def readKey : Nat → List Char → Option (List String × List Char)
  | 0, _ => none
  | fuel + 1, cs => do
    let (part, r) ← readKeyPart (skipBlanks cs)
    match skipBlanks r with
    | '.' :: r => (readKey fuel r).map fun (parts, r) => (String.ofList part :: parts, r)
    | r => return ([String.ofList part], r)

def isTokenChar (c : Char) : Bool := c.isAlphanum || c ∈ ['_', '-', '+', '.', ':']

/-- A token that is no string. A date goes on after one space if a digit follows. -/
def readScalar (cs : List Char) : Option (Toml × List Char) :=
  let token := cs.takeWhile isTokenChar
  let rest := cs.dropWhile isTokenChar
  match rest with
  | ' ' :: d :: r =>
    if isDate token && Json.isDigit d then
      let time := (d :: r).takeWhile isTokenChar
      (datetime? (token ++ ' ' :: time)).map (·, (d :: r).dropWhile isTokenChar)
    else (scalar? token).map (·, rest)
  | _ => (scalar? token).map (·, rest)

/-- How deeply arrays and tables in braces may be nested. -/
def depthLimit : Nat := 80

mutual

/-- A value and what follows it; `fuel` bounds the number of values, `depth` is how much nesting is left. -/
def readValue : (fuel depth : Nat) → List Char → Option (Toml × List Char)
  | 0, _, _ => none
  | fuel + 1, depth, cs =>
    match cs with
    | '"' :: _ | '\'' :: _ => (readString cs).map fun (s, r) => (.string (String.ofList s), r)
    | '[' :: r => if depth = 0 then none else (readItems fuel (depth - 1) r).map fun (xs, r) => (.array xs, r)
    | '\x7b' :: r =>
      if depth = 0 then none
      else match skipBlanks r with
        | '\x7d' :: r => some (.table .inline [], r)
        | r => (readEntries fuel (depth - 1) [] r).map fun (es, r) => (.table .inline es, r)
    | cs => readScalar cs

/-- The items of an array up to its closing bracket; a comma may stand after the last one. -/
def readItems : (fuel depth : Nat) → List Char → Option (List Toml × List Char)
  | 0, _, _ => none
  | fuel + 1, depth, cs => do
    match ← skipLines (fuel + 1) cs with
    | ']' :: r => return ([], r)
    | cs =>
      let (x, r) ← readValue fuel depth cs
      match ← skipLines (fuel + 1) r with
      | ',' :: r => (readItems fuel depth r).map fun (xs, r) => (x :: xs, r)
      | ']' :: r => return ([x], r)
      | _ => none

def readEntries : (fuel depth : Nat) → Entries → List Char → Option (Entries × List Char)
  | 0, _, _, _ => none
  | fuel + 1, depth, es, cs => do
    let (key, r) ← readKey (fuel + 1) cs
    match r with
    | '=' :: r =>
      let (v, r) ← readValue fuel depth (skipBlanks r)
      let es ← es.put key.dropLast (key.getLast?.getD "") v
      match skipBlanks r with
      | ',' :: r => readEntries fuel depth es r
      | '\x7d' :: r => return (es, r)
      | _ => none
    | _ => none

end

structure Document where
  entries : Entries := []
  header : List String := []

def readPair (d : Document) (cs : List Char) : Option (Document × List Char) := do
  let (key, r) ← readKey cs.length cs
  match r with
  | '=' :: r =>
    let (v, r) ← readValue (r.length + 1) depthLimit (skipBlanks r)
    let entries ← d.entries.reach (·.put key.dropLast (key.getLast?.getD "") v) d.header
    return ({ d with entries }, r)
  | _ => none

def readHeader (d : Document) (cs : List Char) : Option (Document × List Char) :=
  match cs with
  | '[' :: '[' :: r => do
    let (key, r) ← readKey r.length r
    match r with
    | ']' :: ']' :: r =>
      let entries ← d.entries.openRow key.dropLast (key.getLast?.getD "")
      return (⟨entries, key⟩, r)
    | _ => none
  | '[' :: r => do
    let (key, r) ← readKey r.length r
    match r with
    | ']' :: r =>
      let entries ← d.entries.openTable key.dropLast (key.getLast?.getD "")
      return (⟨entries, key⟩, r)
    | _ => none
  | _ => none

def readDocument : (fuel : Nat) → Document → List Char → Option Document
  | 0, d, cs => if cs.isEmpty then some d else none
  | fuel + 1, d, cs => do
    match ← skipLines (cs.length + 1) cs with
    | [] => return d
    | '[' :: r =>
      let (d, r) ← readHeader d ('[' :: r)
      readDocument fuel d (← endLine r)
    | cs =>
      let (d, r) ← readPair d cs
      readDocument fuel d (← endLine r)

def byteOrderMark : Char := '\ufeff'

/-- The entries of a document, `none` if it is malformed. A byte order mark at its start is dropped. -/
def read (text : String) : Option Entries :=
  let cs := match text.toList with
    | c :: r => if c = byteOrderMark then r else c :: r
    | [] => []
  (readDocument (cs.length + 1) {} cs).map (·.entries)

end MigrationMining.Toml
