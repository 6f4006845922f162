/-!
# Reading decimal numbers

The grammar of numbers written in decimal, and their values.

* A whole number is an optional sign and one or more digits, and has to fit a 64-bit word.
* A float is an optional sign followed by `inf`, `infinity` or `nan` in any case, or by digits with at
  most one point among them, at least one digit, and an optional exponent: `e` or `E`, an optional
  sign, and one or more digits.

A float's text denotes a real number exactly, and its value is the float nearest to that.  The text
may name exponents far out of reach, so `scientific` first decides whether the number is certainly
too large or too small and only then asks for the nearest float.
-/

set_option autoImplicit false

namespace ValueShell

namespace Decimal

/-- The number the digits spell. -/
def value (ds : List Char) : Nat :=
  ds.foldl (fun n c ↦ n * 10 + (c.toNat - '0'.toNat)) 0

/-- A text without its sign, and whether the sign was a minus. -/
def splitSign : List Char → Bool × List Char
  | '-' :: cs => (true, cs)
  | '+' :: cs => (false, cs)
  | cs => (false, cs)

/-- Is the text one or more digits? -/
def isDigits (cs : List Char) : Bool :=
  !cs.isEmpty && cs.all Char.isDigit

/-- The whole number a text spells: a sign or none, then digits. -/
def readInt? (cs : List Char) : Option Int :=
  let (negative, ds) := splitSign cs
  if isDigits ds then
    some (if negative then -(value ds : Int) else value ds)
  else none

/-- The number of bytes or items a text spells, which must fit an unsigned 64-bit word. -/
def readSize? (cs : List Char) : Option Nat :=
  if isDigits cs && value cs < 18446744073709551616 then some (value cs) else none

/-- The float nearest to `mantissa * 10 ^ exponent`.

With `k` digits the number lies between `10 ^ (exponent + k - 1)` and `10 ^ (exponent + k)`.  No float
reaches `10 ^ 309`, and below `10 ^ (-330)` the nearest one is zero. -/
def scientific (mantissa : Nat) (exponent : Int) : Float :=
  if mantissa = 0 then 0
  else
    let top := exponent + (Nat.toDigits 10 mantissa).length
    if 310 < top then 1.0 / 0.0
    else if top < -330 then 0
    else if 0 ≤ exponent then Float.ofScientific mantissa false exponent.toNat
    else Float.ofScientific mantissa true exponent.natAbs

/-- The exponent a text spells after its `e`; no text at all stands for zero. -/
def readExponent? : List Char → Option Int
  | [] => some 0
  | c :: cs => if c = 'e' ∨ c = 'E' then readInt? cs else none

/-- The size of a float written as digits with at most one point and perhaps an exponent. -/
def readMagnitude? (cs : List Char) : Option Float :=
  let whole := cs.takeWhile Char.isDigit
  let tail := cs.dropWhile Char.isDigit
  let fraction := match tail with
    | '.' :: rest => rest.takeWhile Char.isDigit
    | _ => []
  let rest := match tail with
    | '.' :: rest => rest.dropWhile Char.isDigit
    | _ => tail
  let digits := whole ++ fraction
  if digits.isEmpty then none
  else (readExponent? rest).map fun e ↦ scientific (value digits) (e - fraction.length)

/-- The size of a float: a word that names one, or a number. -/
def readUnsigned? (cs : List Char) : Option Float :=
  let word := cs.map Char.toLower
  if word = "inf".toList ∨ word = "infinity".toList then some (1.0 / 0.0)
  else if word = "nan".toList then some (0.0 / 0.0)
  else readMagnitude? cs

/-- The float a text spells. -/
def readFloat? (cs : List Char) : Option Float :=
  let (negative, rest) := splitSign cs
  (readUnsigned? rest).map fun x ↦ if negative then -x else x

end Decimal

end ValueShell
