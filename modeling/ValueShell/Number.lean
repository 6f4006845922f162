import ValueShell.Number.Decimal
import ValueShell.Number.Rational
import ValueShell.Number.Shortest

/-!
# Numbers

A number is an exact integer, an exact fraction, or a float.  The three never mix: a text reads as
the first of them that accepts it, and a number keeps its kind for ever.

* `Num.read?` reads a number.  A text with a slash is a fraction and nothing else; otherwise it is an
  integer if it is one that fits, and a float if it is not.
* `Num.text` writes a number so that it reads back.
-/

set_option autoImplicit false

namespace ValueShell

/-- A number. -/
inductive Num where
  | int (i : Int)
  | rat (q : Rational)
  | float (x : Float)

namespace Num

/-- A fraction as a number: with denominator one it is an integer. -/
def ofRational (q : Rational) : Num :=
  if q.den = 1 then .int q.num else .rat q

/-- The integer a text spells, if it fits a word. -/
def readWord? (cs : List Char) : Option Int :=
  (Decimal.readInt? cs).filter inWord

/-- The number a text spells. -/
def readChars? (cs : List Char) : Option Num :=
  match cs.dropWhile (· ≠ '/') with
  | _ :: den => do
    let n ← readWord? (cs.takeWhile (· ≠ '/'))
    let d ← readWord? den
    let q ← Rational.ofInts? n d
    return ofRational q
  | [] =>
    match readWord? cs with
    | some i => some (.int i)
    | none => (Decimal.readFloat? cs).map .float

/-- The number a text spells. -/
def read? (s : String) : Option Num :=
  readChars? s.toList

/-- The nearest float. -/
def toFloat : Num → Float
  | .int i => Float.ofInt i
  | .rat q => q.toFloat
  | .float x => x

/-- Is the number below zero?  A negative zero is not. -/
def isNegative : Num → Bool
  | .int i => i < 0
  | .rat q => q.num < 0
  | .float x => x < 0

/-- The text of a float.

A whole number below `10 ^ 21` is written in full and marked as a float by `.0`; every other finite
float is written with the fewest digits that read back, never with an exponent. -/
def floatText (x : Float) : String :=
  if x.isNaN then "NaN"
  else
    let negative := x.toBits >>> 63 == 1
    if x.isInf then (if negative then "-Inf" else "+Inf")
    else
      let b := Shortest.Binary.ofBits x.toBits
      let i := b.interval
      let size :=
        if i.value % i.den = 0 ∧ i.value / i.den < Nat.pow 10 21 then
          toString (i.value / i.den) ++ ".0"
        else (b.shortest.trim 20).positional
      if negative then "-" ++ size else size

/-- How a number is written. -/
def text : Num → String
  | .int i => toString i
  | .rat q => q.text
  | .float x => floatText x

/-- Two numbers are equal when they are of one kind and equal there; a float that is not a number
equals nothing. -/
def same : Num → Num → Bool
  | .int i, .int j => i == j
  | .rat p, .rat q => p == q
  | .float x, .float y => x == y
  | _, _ => false

end Num

end ValueShell
