/-!
# Exact rationals

An exact number is a fraction in lowest terms whose numerator and denominator are 64-bit words.
Being in lowest terms and having a positive denominator are part of the type, so two rationals are
equal exactly when their parts are, and nothing that handles one has to reduce it again.

`Rational.ofInts?` is the only way in.  It refuses a zero denominator, and a fraction whose lowest
terms do not fit a word: `-2^63 / -1` has none, although both numbers fit.
-/

set_option autoImplicit false

namespace ValueShell

/-- Is the number a signed 64-bit word? -/
def inWord (i : Int) : Bool :=
  -9223372036854775808 ≤ i && i ≤ 9223372036854775807

/-- A fraction in lowest terms with a positive denominator. -/
structure Rational where
  num : Int
  den : Nat
  den_pos : 0 < den
  reduced : num.natAbs.Coprime den
deriving DecidableEq, Repr

namespace Rational

/-- The numerator of `n / d` in lowest terms.  It carries the sign of the fraction, which is minus
when exactly one of the two is negative. -/
def lowestNum (n d : Int) : Int :=
  let size : Nat := n.natAbs / n.natAbs.gcd d.natAbs
  if decide (n < 0) = decide (d < 0) then (size : Int) else -(size : Int)

/-- The denominator of `n / d` in lowest terms. -/
def lowestDen (n d : Int) : Nat :=
  d.natAbs / n.natAbs.gcd d.natAbs

/-- The sign aside, the numerator is divided by the greatest common divisor. -/
theorem natAbs_lowestNum (n d : Int) :
    (lowestNum n d).natAbs = n.natAbs / n.natAbs.gcd d.natAbs := by
  unfold lowestNum
  dsimp only
  split
  · exact Int.natAbs_natCast _
  · rw [Int.natAbs_neg, Int.natAbs_natCast]

/-- A fraction's denominator in lowest terms is positive. -/
theorem lowestDen_pos {d : Int} (n : Int) (h : d ≠ 0) : 0 < lowestDen n d := by
  have hd : 0 < d.natAbs := Int.natAbs_pos.mpr h
  exact Nat.div_pos (Nat.le_of_dvd hd (Nat.gcd_dvd_right _ _)) (Nat.gcd_pos_of_pos_right _ hd)

/-- Lowest terms have no common divisor. -/
theorem coprime_lowest {d : Int} (n : Int) (h : d ≠ 0) :
    (lowestNum n d).natAbs.Coprime (lowestDen n d) := by
  rw [natAbs_lowestNum]
  exact Nat.coprime_div_gcd_div_gcd (Nat.gcd_pos_of_pos_right _ (Int.natAbs_pos.mpr h))

/-- The fraction `n / d` in lowest terms, if `d` is not zero and both terms fit a word. -/
def ofInts? (n d : Int) : Option Rational :=
  if h : d ≠ 0 then
    if inWord (lowestNum n d) && inWord (lowestDen n d) then
      some ⟨lowestNum n d, lowestDen n d, lowestDen_pos n h, coprime_lowest n h⟩
    else none
  else none

/-- The nearest float to the numerator divided by the nearest float to the denominator. -/
def toFloat (q : Rational) : Float :=
  Float.ofInt q.num / Float.ofNat q.den

/-- How a rational is written. -/
def text (q : Rational) : String :=
  s!"{q.num}/{q.den}"

end Rational

end ValueShell
