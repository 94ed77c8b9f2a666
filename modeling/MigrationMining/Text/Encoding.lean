/-! Bytes as text: in place of what is no UTF-8 stands the replacement character, once for each longest part that
begins a character. -/

namespace MigrationMining.Text

def replacement : Char := '\ufffd'

/-- A character of which some bytes have been read: its value so far, how many bytes are missing, and between which
bounds the next one lies. -/
structure Begun where
  value : Nat
  missing : Nat
  low : UInt8 := 0x80
  high : UInt8 := 0xbf
  deriving DecidableEq

def firstByte (b : UInt8) : Char ⊕ Begun :=
  let n := b.toNat
  if b < 0x80 then .inl (Char.ofNat n)
  else if b < 0xc2 then .inl replacement
  else if b < 0xe0 then .inr ⟨n - 0xc0, 1, 0x80, 0xbf⟩
  else if b < 0xf0 then .inr ⟨n - 0xe0, 2, if b = 0xe0 then 0xa0 else 0x80, if b = 0xed then 0x9f else 0xbf⟩
  else if b < 0xf5 then .inr ⟨n - 0xf0, 3, if b = 0xf0 then 0x90 else 0x80, if b = 0xf4 then 0x8f else 0xbf⟩
  else .inl replacement

def Begun.next (p : Begun) (b : UInt8) : Char ⊕ Begun :=
  let value := p.value * 64 + (b.toNat - 0x80)
  if p.missing ≤ 1 then .inl (Char.ofNat value) else .inr { value, missing := p.missing - 1 }

def decodeFrom (begun : Option Begun) : List UInt8 → List Char
  | [] => if begun.isSome then [replacement] else []
  | b :: r =>
    let (before, here) := match begun with
      | none => ([], firstByte b)
      | some p => if p.low ≤ b && b ≤ p.high then ([], p.next b) else ([replacement], firstByte b)
    match here with
    | .inl c => before ++ c :: decodeFrom none r
    | .inr p => before ++ decodeFrom (some p) r

def decode (bytes : List UInt8) : List Char := decodeFrom none bytes

end MigrationMining.Text
