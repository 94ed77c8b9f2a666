import MigrationMining.Text.Pieces
import MigrationMining.Text.Substitution
import MigrationMining.Json.Printer
import MigrationMining.Web.Client

/-! Absolute URLs in the form in which they are requested: scheme and host in lower case, no dot segments, and
characters outside the URL alphabet percent-encoded. -/

namespace MigrationMining.Url

def upperHex (n : Nat) : Char := (Json.hexDigit n).toUpper

def percentEncode (c : Char) : List Char :=
  (String.singleton c).toUTF8.toList.flatMap fun b => ['%', upperHex (b.toNat / 16), upperHex (b.toNat % 16)]

def isControl (c : Char) : Bool := c.toNat < 32 || c.toNat = 127

def encodeWhere (reserved : List Char) (cs : List Char) : List Char :=
  cs.flatMap fun c => if isControl c || 127 < c.toNat || reserved.contains c then percentEncode c else [c]

def encodePath : List Char → List Char := encodeWhere [' ', '"', '<', '>', '\x60', '#', '?', '{', '}']

def encodeQuery : List Char → List Char := encodeWhere [' ', '"', '<', '>', '#', '\'']

/-- Segments that stand for the directory itself, also with an encoded dot. -/
def isDot (segment : List Char) : Bool :=
  let s := String.ofList (segment.map Char.toLower)
  s = "." || s = "%2e"

def isDoubleDot (segment : List Char) : Bool :=
  let s := String.ofList (segment.map Char.toLower)
  s = ".." || s = ".%2e" || s = "%2e." || s = "%2e%2e"

/-- The segments of a path after those in `done` (last first), without dot segments. -/
def resolveSegments : List (List Char) → List (List Char) → List (List Char)
  | done, [] => done.reverse
  | done, [s] =>
    if isDoubleDot s then (([] : List Char) :: done.tail).reverse
    else if isDot s then ([] :: done).reverse
    else (s :: done).reverse
  | done, s :: t :: r =>
    if isDoubleDot s then resolveSegments done.tail (t :: r)
    else if isDot s then resolveSegments done (t :: r)
    else resolveSegments (s :: done) (t :: r)

def isSlash (c : Char) : Bool := c = '/' || c = '\\'

/-- A path that begins with a slash, dot segments resolved and encoded. -/
def normalPath (cs : List Char) : List Char :=
  let cs := cs.map fun c => if c = '\\' then '/' else c
  let segments := match cs with
    | '/' :: r => Text.splitOn '/' r
    | r => Text.splitOn '/' r
  '/' :: Text.joinWith ['/'] ((resolveSegments [] segments).map encodePath)

def isHostChar (c : Char) : Bool :=
  !isControl c && !(" #%/:<>?@[\\]^|".toList.contains c)

def authority? (usualPort : Nat) (cs : List Char) : Option (List Char) :=
  let afterUser := match Text.splitOnce '@' cs.reverse with
    | some (r, _) => r.reverse
    | none => cs
  let (host, port) := match Text.splitOnce ':' afterUser with
    | some (h, p) => (h, p)
    | none => (afterUser, [])
  if host.isEmpty || !host.all isHostChar || !port.all Char.isDigit then none
  else
    let number := port.foldl (fun n d => n * 10 + (d.toNat - 48)) 0
    if 65535 < number then none
    else if port.isEmpty || number = usualPort then some (host.map Char.toLower)
    else some (host.map Char.toLower ++ ':' :: number.repr.toList)

def scheme? (cs : List Char) : Option (List Char × List Char) :=
  match Text.splitOnce ':' cs with
  | some (s :: ss, r) =>
    if s.isAlpha && ss.all (fun c => c.isAlphanum || c = '+' || c = '-' || c = '.') then
      some ((s :: ss).map Char.toLower, r)
    else none
  | _ => none

/-- What is requested for a URL: its text in normal form, without a fragment. -/
def request (url : String) : Except String String :=
  let isEdge (c : Char) : Bool := c.toNat ≤ 32
  let trimmed := ((url.toList.dropWhile isEdge).reverse.dropWhile isEdge).reverse
  let cs := trimmed.filter fun c => c ≠ '\t' ∧ c ≠ '\n' ∧ c ≠ '\r'
  match scheme? cs with
  | none => .error "builder error"
  | some (scheme, r) =>
    let usualPort := if scheme = "http".toList then 80 else if scheme = "https".toList then 443 else 0
    if usualPort = 0 then .error ("builder error for url (" ++ url ++ ")")
    else
      let r := r.dropWhile isSlash
      let rest := r.dropWhile fun c => !(isSlash c || c = '?' || c = '#')
      match authority? usualPort (r.takeWhile fun c => !(isSlash c || c = '?' || c = '#')) with
      | none => .error "builder error"
      | some host =>
        let noFragment := rest.takeWhile (· ≠ '#')
        let query := match noFragment.dropWhile (· ≠ '?') with
          | [] => []
          | _ :: q => '?' :: encodeQuery q
        .ok (String.ofList (scheme ++ "://".toList ++ host ++ normalPath (noFragment.takeWhile (· ≠ '?')) ++ query))

def isHeaderByte (b : UInt8) : Bool := (32 ≤ b && b ≠ 127) || b = 9

/-- The client for a user agent, which goes into a header, and a timeout. -/
def client (userAgent : String) (_timeout : Nat) : Except String Client :=
  if userAgent.toUTF8.toList.all isHeaderByte then .ok ⟨request⟩ else .error "builder error"

end MigrationMining.Url
