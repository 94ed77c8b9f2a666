import MigrationMining.Json.Printer

/-! The SHA-256 digest of a text of bytes. -/

namespace MigrationMining.Digest

abbrev Word := UInt32

def rotate (x : Word) (n : Word) : Word := (x >>> n) ||| (x <<< (32 - n))

/-- The first 32 bits of the fractional parts of the cube roots of the first 64 primes. -/
def roundWords : List Word := [
  0x428a2f98, 0x71374491, 0xb5c0fbcf, 0xe9b5dba5, 0x3956c25b, 0x59f111f1, 0x923f82a4, 0xab1c5ed5,
  0xd807aa98, 0x12835b01, 0x243185be, 0x550c7dc3, 0x72be5d74, 0x80deb1fe, 0x9bdc06a7, 0xc19bf174,
  0xe49b69c1, 0xefbe4786, 0x0fc19dc6, 0x240ca1cc, 0x2de92c6f, 0x4a7484aa, 0x5cb0a9dc, 0x76f988da,
  0x983e5152, 0xa831c66d, 0xb00327c8, 0xbf597fc7, 0xc6e00bf3, 0xd5a79147, 0x06ca6351, 0x14292967,
  0x27b70a85, 0x2e1b2138, 0x4d2c6dfc, 0x53380d13, 0x650a7354, 0x766a0abb, 0x81c2c92e, 0x92722c85,
  0xa2bfe8a1, 0xa81a664b, 0xc24b8b70, 0xc76c51a3, 0xd192e819, 0xd6990624, 0xf40e3585, 0x106aa070,
  0x19a4c116, 0x1e376c08, 0x2748774c, 0x34b0bcb5, 0x391c0cb3, 0x4ed8aa4a, 0x5b9cca4f, 0x682e6ff3,
  0x748f82ee, 0x78a5636f, 0x84c87814, 0x8cc70208, 0x90befffa, 0xa4506ceb, 0xbef9a3f7, 0xc67178f2]

structure Registers where
  a : Word
  b : Word
  c : Word
  d : Word
  e : Word
  f : Word
  g : Word
  h : Word
  deriving DecidableEq

/-- The first 32 bits of the fractional parts of the square roots of the first eight primes. -/
def start : Registers :=
  ⟨0x6a09e667, 0xbb67ae85, 0x3c6ef372, 0xa54ff53a, 0x510e527f, 0x9b05688c, 0x1f83d9ab, 0x5be0cd19⟩

def Registers.add (x y : Registers) : Registers :=
  ⟨x.a + y.a, x.b + y.b, x.c + y.c, x.d + y.d, x.e + y.e, x.f + y.f, x.g + y.g, x.h + y.h⟩

def Registers.words (x : Registers) : List Word := [x.a, x.b, x.c, x.d, x.e, x.f, x.g, x.h]

def round (r : Registers) (constant word : Word) : Registers :=
  let choice := (r.e &&& r.f) ^^^ (~~~r.e &&& r.g)
  let majority := (r.a &&& r.b) ^^^ (r.a &&& r.c) ^^^ (r.b &&& r.c)
  let t := r.h + (rotate r.e 6 ^^^ rotate r.e 11 ^^^ rotate r.e 25) + choice + constant + word
  let u := (rotate r.a 2 ^^^ rotate r.a 13 ^^^ rotate r.a 22) + majority
  ⟨t + u, r.a, r.b, r.c, r.d + t, r.e, r.f, r.g⟩

def nextWord (latest : List Word) : Word :=
  let back (i : Nat) : Word := latest.getD i 0
  let x := back 14
  let y := back 1
  back 15 + (rotate x 7 ^^^ rotate x 18 ^^^ (x >>> 3)) + back 6 + (rotate y 17 ^^^ rotate y 19 ^^^ (y >>> 10))

def extend : Nat → List Word → List Word
  | 0, latest => latest
  | n + 1, latest => extend n (nextWord latest :: latest)

def schedule (block : List Word) : List Word := (extend 48 block.reverse).reverse

def compress (r : Registers) (block : List Word) : Registers :=
  r.add ((roundWords.zip (schedule block)).foldl (fun s (k, w) => round s k w) r)

/-- The `n` bytes of a number, lowest first; what does not fit is dropped. -/
def littleEndian (n value : Nat) : List UInt8 := (List.range n).map fun i => UInt8.ofNat (value / Nat.pow 256 i)

/-- A one bit, zeros up to eight bytes before the end of a block, and the number of bits. -/
def padding (length : Nat) : List UInt8 :=
  0x80 :: List.replicate ((119 - length % 64) % 64) 0 ++ (littleEndian 8 (8 * length)).reverse

def wordOf (a b c d : UInt8) : Word :=
  (a.toUInt32 <<< 24) ||| (b.toUInt32 <<< 16) ||| (c.toUInt32 <<< 8) ||| d.toUInt32

def words : List UInt8 → List Word
  | a :: b :: c :: d :: r => wordOf a b c d :: words r
  | _ => []

def absorb (r : Registers) : List Word → Registers
  | [] => r
  | w :: ws => absorb (compress r ((w :: ws).take 16)) (ws.drop 15)
termination_by ws => ws.length
decreasing_by simp only [List.length_drop, List.length_cons]; omega

def sha256 (bytes : List UInt8) : List Word := (absorb start (words (bytes ++ padding bytes.length))).words

def hexWord (w : Word) : List Char := (List.range 8).map fun i => Json.hexDigit (w.toNat / Nat.pow 16 (7 - i) % 16)

def hex (bytes : List UInt8) : String := String.ofList ((sha256 bytes).flatMap hexWord)

end MigrationMining.Digest
