import MigrationMining.Json.Basic
import MigrationMining.Text.Substitution

/-! Reading JSON text: exactly the texts of the standard, with escapes that name a Unicode scalar value. -/

namespace MigrationMining.Json

def isSpace (c : Char) : Bool := c = ' ' || c = '\t' || c = '\n' || c = '\r'

def skipSpace (cs : List Char) : List Char := cs.dropWhile isSpace

def hexValue (c : Char) : Option Nat :=
  if '0' ≤ c ∧ c ≤ '9' then some (c.toNat - 48)
  else if 'a' ≤ c ∧ c ≤ 'f' then some (c.toNat - 87)
  else if 'A' ≤ c ∧ c ≤ 'F' then some (c.toNat - 55)
  else none

def hexValue4 (a b c d : Char) : Option Nat := do
  return ((← hexValue a) * 16 + (← hexValue b)) * 256 + ((← hexValue c) * 16 + (← hexValue d))

def unescape : Char → Option Char
  | '"' => some '"'
  | '\\' => some '\\'
  | '/' => some '/'
  | 'b' => some '\x08'
  | 'f' => some '\x0c'
  | 'n' => some '\n'
  | 'r' => some '\r'
  | 't' => some '\t'
  | _ => none

def joinSurrogates (high low : Nat) : Option Char :=
  if 0xD800 ≤ high ∧ high < 0xDC00 ∧ 0xDC00 ≤ low ∧ low < 0xE000 then
    some (Char.ofNat (0x10000 + (high - 0xD800) * 0x400 + (low - 0xDC00)))
  else none

/-- The content of a string up to its closing quotation mark, and what follows. -/
def readString : List Char → Option (List Char × List Char)
  | [] => none
  | '"' :: r => some ([], r)
  | '\\' :: 'u' :: a :: b :: c :: d :: r =>
    match hexValue4 a b c d with
    | none => none
    | some n =>
      if 0xD800 ≤ n ∧ n < 0xE000 then
        match r with
        | '\\' :: 'u' :: e :: f :: g :: h :: r' =>
          match hexValue4 e f g h with
          | none => none
          | some m =>
            match joinSurrogates n m with
            | none => none
            | some ch => (readString r').map fun (s, t) => (ch :: s, t)
        | _ => none
      else (readString r).map fun (s, t) => (Char.ofNat n :: s, t)
  | '\\' :: e :: r =>
    match unescape e with
    | none => none
    | some ch => (readString r).map fun (s, t) => (ch :: s, t)
  | c :: r => if c.toNat < 32 then none else (readString r).map fun (s, t) => (c :: s, t)

def isDigit (c : Char) : Bool := '0' ≤ c && c ≤ '9'

def digitsValue (ds : List Char) : Nat := ds.foldl (fun n d => n * 10 + (d.toNat - 48)) 0

def readDigits (cs : List Char) : Option (List Char × List Char) :=
  match cs.span isDigit with
  | ([], _) => none
  | (ds, r) => some (ds, r)

/-- The digits before the point: one zero, or digits that do not begin with zero. -/
def readWhole (cs : List Char) : Option (List Char × List Char) :=
  match readDigits cs with
  | some ('0' :: _ :: _, _) => none
  | other => other

def readFraction (cs : List Char) : Option (Option (List Char) × List Char) :=
  match cs with
  | '.' :: r => (readDigits r).map fun (ds, r) => (some ds, r)
  | _ => some (none, cs)

def readExponent (cs : List Char) : Option (Option Int × List Char) :=
  match cs with
  | c :: r =>
    if c = 'e' || c = 'E' then
      match r with
      | '-' :: r => (readDigits r).map fun (ds, r) => (some (-(digitsValue ds : Int)), r)
      | '+' :: r => (readDigits r).map fun (ds, r) => (some (digitsValue ds : Int), r)
      | _ => (readDigits r).map fun (ds, r) => (some (digitsValue ds : Int), r)
    else some (none, cs)
  | [] => some (none, cs)

def readNumber (negative : Bool) (cs : List Char) : Option (Number × List Char) := do
  let (whole, r) ← readWhole cs
  let (fraction, r) ← readFraction r
  let (exponent, r) ← readExponent r
  match fraction, exponent with
  | none, none => return (.integer negative (digitsValue whole), r)
  | _, _ =>
    let fraction := fraction.getD []
    return (.decimal negative (digitsValue (whole ++ fraction)) (exponent.getD 0 - fraction.length), r)

mutual

/-- A value and what follows it; `fuel` bounds the depth of nesting and the number of items. -/
def readValue : Nat → List Char → Option (Json × List Char)
  | 0, _ => none
  | fuel + 1, cs =>
    match skipSpace cs with
    | 'n' :: 'u' :: 'l' :: 'l' :: r => some (.null, r)
    | 't' :: 'r' :: 'u' :: 'e' :: r => some (.boolean true, r)
    | 'f' :: 'a' :: 'l' :: 's' :: 'e' :: r => some (.boolean false, r)
    | '"' :: r => (readString r).map fun (s, r) => (.string (String.ofList s), r)
    | '-' :: r => (readNumber true r).map fun (n, r) => (.number n, r)
    | '[' :: r =>
      match skipSpace r with
      | ']' :: r => some (.array [], r)
      | _ => (readItems fuel r).map fun (xs, r) => (.array xs, r)
    | '{' :: r =>
      match skipSpace r with
      | '}' :: r => some (.object [], r)
      | _ => (readMembers fuel r).map fun (ms, r) => (.object ms, r)
    | cs => (readNumber false cs).map fun (n, r) => (.number n, r)

/-- The items of an array from one item on, up to the closing bracket. -/
def readItems : Nat → List Char → Option (List Json × List Char)
  | 0, _ => none
  | fuel + 1, cs => do
    let (x, r) ← readValue fuel cs
    match skipSpace r with
    | ',' :: r => (readItems fuel r).map fun (xs, r) => (x :: xs, r)
    | ']' :: r => some ([x], r)
    | _ => none

/-- The members of an object from one member on, up to the closing brace. -/
def readMembers : Nat → List Char → Option (List (String × Json) × List Char)
  | 0, _ => none
  | fuel + 1, cs =>
    match skipSpace cs with
    | '"' :: r => do
      let (k, r) ← readString r
      match skipSpace r with
      | ':' :: r =>
        let (v, r) ← readValue fuel r
        match skipSpace r with
        | ',' :: r => (readMembers fuel r).map fun (ms, r) => ((String.ofList k, v) :: ms, r)
        | '}' :: r => some ([(String.ofList k, v)], r)
        | _ => none
      | _ => none
    | _ => none

end

def readChars (cs : List Char) : Option Json :=
  match readValue (cs.length + 1) cs with
  | some (j, r) => if (skipSpace r).isEmpty then some j else none
  | none => none

def read (s : String) : Option Json := readChars s.toList

end MigrationMining.Json
