import MigrationMining.Decimal.Binary64

/-! Doubles written with the fewest digits that read back as the same double. -/

namespace MigrationMining.Decimal

/-- The reals that round to a double, as multiples of `2^exponent`: the ends belong to it iff `closed`. -/
structure Interval where
  low : Nat
  value : Nat
  high : Nat
  exponent : Int
  closed : Bool

/-- Half a unit on each side; below a power of two the spacing is half as wide. -/
def Binary64.interval (x : Binary64) : Interval :=
  let atPower := x.significand = Nat.pow 2 52 ∧ -1074 < x.exponent
  { low := 4 * x.significand - (if atPower then 1 else 2)
    value := 4 * x.significand
    high := 4 * x.significand + 2
    exponent := x.exponent - 2
    closed := x.significand % 2 = 0 }

/-- The point `digits · 10^scale` of a decimal grid, compared with `m · 2^e`. -/
def compareGrid (digits : Nat) (scale : Int) (m : Nat) (e : Int) : Ordering :=
  let left := digits * Nat.pow 10 scale.toNat * Nat.pow 2 (-e).toNat
  let right := m * Nat.pow 2 e.toNat * Nat.pow 10 (-scale).toNat
  compare left right

def Interval.holds (i : Interval) (digits : Nat) (scale : Int) : Bool :=
  let low := compareGrid digits scale i.low i.exponent
  let high := compareGrid digits scale i.high i.exponent
  if i.closed then low.isGE && high.isLE else low.isGT && high.isLT

def Interval.below (i : Interval) (scale : Int) : Nat :=
  (i.value * Nat.pow 2 i.exponent.toNat * Nat.pow 10 (-scale).toNat) /
    (Nat.pow 10 scale.toNat * Nat.pow 2 (-i.exponent).toNat)

/-- Whether `d` is nearer to the value than `d + 1`, or as near and even. -/
def Interval.prefersLower (i : Interval) (d : Nat) (scale : Int) : Bool :=
  match compareGrid (2 * d + 1) scale (2 * i.value) i.exponent with
  | .gt => true
  | .lt => false
  | .eq => d % 2 = 0

def Interval.hit? (i : Interval) (scale : Int) : Option Nat :=
  let d := i.below scale
  match i.holds d scale, i.holds (d + 1) scale with
  | true, true => if i.prefersLower d scale then some d else some (d + 1)
  | true, false => some d
  | false, true => some (d + 1)
  | false, false => none

/-- Tries ever finer grids, from `10^scale` on; the coarsest with a hit has the fewest digits. -/
def Interval.search (i : Interval) : Nat → Int → Nat × Int
  | 0, scale => (i.below scale, scale)
  | n + 1, scale =>
    match i.hit? scale with
    | some d => (d, scale)
    | none => i.search n (scale - 1)

def dropZeros : Nat → Nat → Int → Nat × Int
  | 0, d, scale => (d, scale)
  | n + 1, d, scale => if d ≠ 0 ∧ d % 10 = 0 then dropZeros n (d / 10) (scale + 1) else (d, scale)

/-- The shortest digits of a positive double and their scale: the value is near `digits · 10^scale`. -/
def Binary64.shortestDigits (x : Binary64) : Nat × Int :=
  let i := x.interval
  let magnitude : Int := (x.significand.log2 + x.exponent) * 30103 / 100000 + 2
  let (d, scale) := i.search 24 magnitude
  dropZeros 24 d scale

/-- Digits without an exponent: from `1e-5` on and below `1e16` as a plain decimal with at least one place,
beyond that with an exponent. -/
def layOut (digits : List Char) (scale : Int) : List Char :=
  let n : Int := digits.length
  let point := n + scale
  if 0 ≤ scale ∧ point ≤ 16 then digits ++ List.replicate scale.toNat '0' ++ ['.', '0']
  else if 0 < point ∧ point ≤ 16 then digits.take point.toNat ++ '.' :: digits.drop point.toNat
  else if -5 < point ∧ point ≤ 0 then '0' :: '.' :: (List.replicate (-point).toNat '0' ++ digits)
  else
    let tail := digits.drop 1
    digits.take 1 ++ (if tail.isEmpty then [] else '.' :: tail) ++ 'e' :: (toString (point - 1)).toList

/-- The fewest digits that read back as `x`. -/
def shortest (x : Float) : List Char :=
  match Binary64.ofBits? x.toBits with
  | none => "null".toList
  | some b =>
    let body :=
      if b.significand = 0 then ['0', '.', '0']
      else
        let (d, scale) := b.shortestDigits
        layOut d.repr.toList scale
    if b.negative then '-' :: body else body

end MigrationMining.Decimal
