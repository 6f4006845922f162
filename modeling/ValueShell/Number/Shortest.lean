/-!
# The shortest digits of a float

Many decimals read back as the same float, namely all those in the interval around it that rounds to
it.  The text of a float uses the fewest digits such a decimal can have, and of the decimals with that
many digits the nearest; a tie goes up.

A positive finite float is `m * 2 ^ q`.  Its interval reaches half way to the next float on either
side, and half as far down when `m` is the least mantissa of its exponent, where the floats below lie
twice as dense.  The ends belong to the interval exactly when `m` is even.  All of this is decided in
whole numbers: everything is scaled by a common denominator, so no rounding enters.

The search goes through 1, 2, … 17 digits.  If any decimal on a grid lies in the interval then so
does one of the two neighbours of the float on that grid, so two tests for each number of digits
suffice, and 17 digits always do.
-/

set_option autoImplicit false

namespace ValueShell

namespace Shortest

/-- A positive decimal: `digits * 10 ^ exponent`. -/
structure Digits where
  digits : Nat
  exponent : Int
deriving DecidableEq, Repr

/-- A positive finite float as `mantissa * 2 ^ exponent`. -/
structure Binary where
  mantissa : Nat
  exponent : Int
deriving DecidableEq, Repr

/-- The bit of a mantissa that is not stored. -/
def Binary.hiddenBit : Nat := 1 <<< 52

/-- The mantissa and the exponent in the bits of a finite float, leaving the sign aside. -/
def Binary.ofBits (bits : UInt64) : Binary :=
  let e : Nat := (bits.toNat >>> 52) % 2048
  let f : Nat := bits.toNat % hiddenBit
  if e = 0 then ⟨f, -1074⟩ else ⟨hiddenBit + f, (e : Int) - 1075⟩

/-- A real interval around a value, with all three over one denominator. -/
structure Interval where
  low : Nat
  value : Nat
  high : Nat
  den : Nat
  closed : Bool

/-- The decimals that round to the float, scaled by four so that both ends are whole. -/
def Binary.interval (b : Binary) : Interval :=
  let m := b.mantissa
  let below := if m = hiddenBit ∧ -1074 < b.exponent then 1 else 2
  let scale := 1 <<< b.exponent.toNat
  { low := (4 * m - below) * scale
    value := 4 * m * scale
    high := (4 * m + 2) * scale
    den := 4 <<< (-b.exponent).toNat
    closed := m % 2 = 0 }

/-- The interval in units of `10 ^ k`. -/
def Interval.inUnits (i : Interval) (k : Int) : Interval :=
  let up := Nat.pow 10 (-k).toNat
  { low := i.low * up
    value := i.value * up
    high := i.high * up
    den := i.den * Nat.pow 10 k.toNat
    closed := i.closed }

/-- Does the whole number lie in the interval? -/
def Interval.holds (i : Interval) (n : Nat) : Bool :=
  let x := n * i.den
  if i.closed then i.low ≤ x && x ≤ i.high else i.low < x && x < i.high

/-- The whole number nearest to the value among its two neighbours in the interval, if there is one;
the upper one if both are as near. -/
def Interval.nearest? (i : Interval) : Option Nat :=
  let n := i.value / i.den
  let rest := i.value - n * i.den
  match i.holds n, i.holds (n + 1) with
  | true, true => some (if 2 * rest < i.den then n else n + 1)
  | true, false => some n
  | false, true => some (n + 1)
  | false, false => none

/-- The number of digits in front of the point: the least `p` with `value < 10 ^ p`.  Starting from a
guess below, it is reached by going up. -/
def Interval.pointAt (i : Interval) : Nat → Int → Int
  | 0, p => p
  | fuel + 1, p =>
    let j := i.inUnits p
    if j.value < j.den then p else i.pointAt fuel (p + 1)

/-- Tries `count` digits, then one more, and so on. -/
def Interval.search (i : Interval) (point : Int) : Nat → Nat → Option Digits
  | 0, _ => none
  | fuel + 1, count =>
    let k := point - count
    match (i.inUnits k).nearest? with
    | some n => some ⟨n, k⟩
    | none => i.search point fuel (count + 1)

/-- The fewest digits that read back as the float `m * 2 ^ q`, and of those the nearest. -/
def Binary.shortest (b : Binary) : Digits :=
  let i := b.interval
  -- Three binary digits are less than one decimal digit, so this guess is at or below the point.
  let guess : Int := ((Nat.log2 b.mantissa : Int) + b.exponent) * 301 / 1000 - 1
  let point := i.pointAt 32 guess
  (i.search point 17 1).getD ⟨0, 0⟩

/-- The digits with the zeros at their end moved into the exponent. -/
def Digits.trim : Nat → Digits → Digits
  | 0, d => d
  | fuel + 1, d =>
    if d.digits ≠ 0 ∧ d.digits % 10 = 0 then trim fuel ⟨d.digits / 10, d.exponent + 1⟩ else d

/-- The decimal written out in full, with no exponent. -/
def Digits.positional (d : Digits) : String :=
  let ds := Nat.toDigits 10 d.digits
  if 0 ≤ d.exponent then String.ofList (ds ++ List.replicate d.exponent.toNat '0')
  else
    let places := d.exponent.natAbs
    if places < ds.length then
      String.ofList (ds.take (ds.length - places) ++ '.' :: ds.drop (ds.length - places))
    else
      String.ofList ('0' :: '.' :: List.replicate (places - ds.length) '0' ++ ds)

end Shortest

end ValueShell
