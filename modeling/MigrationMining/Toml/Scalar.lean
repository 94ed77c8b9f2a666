import MigrationMining.Json.Reader
import MigrationMining.Text.Pieces
import MigrationMining.Toml.Basic

/-! Numbers and times of a TOML document, each from the whole text of its token. -/

namespace MigrationMining.Toml

/-- The digits of a number in which single underscores stand between digits. -/
def digits? (isDigit : Char → Bool) (cs : List Char) : Option (List Char) :=
  let pieces := Text.splitOn '_' cs
  if pieces.all fun p => !p.isEmpty && p.all isDigit then some pieces.flatten else none

def valueIn (base : Nat) (ds : List Char) : Nat :=
  ds.foldl (fun n d => n * base + (Json.hexValue d).getD 0) 0

def isBinaryDigit (c : Char) : Bool := c = '0' || c = '1'

def isOctalDigit (c : Char) : Bool := '0' ≤ c && c ≤ '7'

def isHexDigit (c : Char) : Bool := (Json.hexValue c).isSome

/-- Decimal digits that do not begin with a zero that could be left out. -/
def wholeDigits? (cs : List Char) : Option (List Char) :=
  match digits? Json.isDigit cs with
  | some ('0' :: _ :: _) => none
  | other => other

def splitSign : List Char → Bool × List Char
  | '-' :: r => (true, r)
  | '+' :: r => (false, r)
  | cs => (false, cs)

/-- Integers of at most 128 bits; those in other bases have no sign. -/
def integer? (cs : List Char) : Option Toml :=
  let read : Option Int := match cs with
    | '0' :: 'x' :: r => (digits? isHexDigit r).map fun ds => (valueIn 16 ds : Int)
    | '0' :: 'o' :: r => (digits? isOctalDigit r).map fun ds => (valueIn 8 ds : Int)
    | '0' :: 'b' :: r => (digits? isBinaryDigit r).map fun ds => (valueIn 2 ds : Int)
    | cs =>
      let (negative, r) := splitSign cs
      (wholeDigits? r).map fun ds => if negative then -(valueIn 10 ds : Int) else valueIn 10 ds
  match read with
  | some n => if -(Nat.pow 2 127 : Int) ≤ n ∧ n < (Nat.pow 2 128 : Int) then some (.integer n) else none
  | none => none

/-- The digits of an exponent; its sign is apart, and it may begin with zeros. -/
def exponent? (cs : List Char) : Option Int :=
  let (negative, r) := splitSign cs
  (digits? Json.isDigit r).map fun ds => if negative then -(valueIn 10 ds : Int) else valueIn 10 ds

/-- Whether `0.digits · 10^exponent` is too large for a double: it is no less than the midpoint between the largest
double and the next power of two. -/
def overflows (ds : List Char) (exponent : Int) : Bool :=
  let ds := ds.dropWhile (· = '0')
  let limit := Nat.pow 2 1024 - Nat.pow 2 970
  if ds.isEmpty || exponent < 309 then false
  else if 309 < exponent then true
  else if ds.length ≤ 309 then limit ≤ valueIn 10 ds * Nat.pow 10 (309 - ds.length)
  else limit * Nat.pow 10 (ds.length - 309) ≤ valueIn 10 ds

def float? (cs : List Char) : Option Toml := do
  let (_, r) := splitSign cs
  if r = "inf".toList || r = "nan".toList then return .float
  let isExponentMark (c : Char) : Bool := c = 'e' || c = 'E'
  let mantissa := r.takeWhile (!isExponentMark ·)
  let exponent ← match r.dropWhile (!isExponentMark ·) with
    | [] => some none
    | _ :: e => (exponent? e).map some
  let (whole, fraction) ← match Text.splitOnce '.' mantissa with
    | none => (wholeDigits? mantissa).map (·, none)
    | some (whole, fraction) => do pure (← wholeDigits? whole, some (← digits? Json.isDigit fraction))
  if fraction.isNone && exponent.isNone then none
  let ds := whole ++ fraction.getD []
  let zeros := (ds.takeWhile (· = '0')).length
  if overflows ds (exponent.getD 0 + whole.length - zeros) then none
  return .float

def twoDigits? : List Char → Option Nat
  | [a, b] => if Json.isDigit a && Json.isDigit b then some (valueIn 10 [a, b]) else none
  | _ => none

def isLeapYear (y : Nat) : Bool := y % 4 = 0 && (y % 100 ≠ 0 || y % 400 = 0)

def daysIn (year month : Nat) : Nat :=
  if month = 2 then (if isLeapYear year then 29 else 28) else if month ∈ [4, 6, 9, 11] then 30 else 31

def isDate (cs : List Char) : Bool :=
  match Text.splitOn '-' cs with
  | [y, m, d] =>
    match twoDigits? m, twoDigits? d with
    | some m, some d =>
      y.length = 4 && y.all Json.isDigit && 1 ≤ m && m ≤ 12 && 1 ≤ d && d ≤ daysIn (valueIn 10 y) m
    | _, _ => false
  | _ => false

def isAtMost (limit : Nat) (cs : List Char) : Bool := (twoDigits? cs).any (· ≤ limit)

/-- Seconds go up to 60, for leap seconds, and may have a fraction. -/
def isSecond (cs : List Char) : Bool :=
  match Text.splitOnce '.' cs with
  | none => isAtMost 60 cs
  | some (whole, fraction) => isAtMost 60 whole && !fraction.isEmpty && fraction.all Json.isDigit

def isTime (cs : List Char) : Bool :=
  match Text.splitOn ':' cs with
  | [h, m, s] => isAtMost 23 h && isAtMost 59 m && isSecond s
  | _ => false

def isOffset (cs : List Char) : Bool :=
  match Text.splitOn ':' cs with
  | [h, m] => isAtMost 23 h && isAtMost 59 m
  | _ => false

/-- A time of day, maybe with an offset: `Z`, or a sign, hours and minutes. -/
def isOffsetTime (cs : List Char) : Bool :=
  let time := cs.takeWhile fun c => Json.isDigit c || c = ':' || c = '.'
  isTime time && match cs.drop time.length with
    | [] => true
    | ['Z'] | ['z'] => true
    | '+' :: r | '-' :: r => isOffset r
    | _ => false

/-- A date, a time of day, or both with `T` or one space between them; only both together have an offset. -/
def datetime? (cs : List Char) : Option Toml :=
  let date := cs.take 10
  let good := match cs.drop 10 with
    | [] => isDate cs || isTime cs
    | c :: r => (isDate date && (c = 'T' || c = 't' || c = ' ') && isOffsetTime r) || isTime cs
  if good then some .datetime else none

def scalar? (cs : List Char) : Option Toml :=
  if cs = "true".toList then some (.boolean true)
  else if cs = "false".toList then some (.boolean false)
  else (integer? cs).orElse fun _ => (float? cs).orElse fun _ => datetime? cs

end MigrationMining.Toml
