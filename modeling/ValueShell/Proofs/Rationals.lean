import Mathlib.Algebra.Order.Ring.Int
import Mathlib.Data.Rat.Lemmas
import Mathlib.Tactic.Ring
import ValueShell.Proofs.ReadBack.Numbers

/-!
# Exact numbers are normalized

A fraction is reduced on 64-bit words: the divisor is computed without signs, may come out as `2 ^ 63`, is
then taken for a signed word, which makes it negative, and both parts are divided by that.  Here the steps are
written down on words (`Rational.ofWords`), with every division one that refuses zero and the quotient that
does not fit, and the outcome is shown to be what `Rational.ofInts?` says of the integers
(`Rational.ofWords_eq`): no step refuses, and the sign of the divisor is of no consequence, because the
denominator's sign is what is corrected afterwards (`Rational.lowest_tdiv`).

What the fraction is, is said by the rational numbers: `ofInts? n d` has the numerator and the denominator of
`n / d`, and is missing when `d` is zero or one of the two fits no word.
-/

set_option autoImplicit false

namespace ValueShell

namespace Rational

/-! ## Reduction on words -/

/-- What no arithmetic on words gives. -/
inductive WordFault where
  | zeroDivisor
  | overflow
deriving DecidableEq, Repr

/-- The quotient of two signed words, rounded towards zero. -/
def divide (a b : Int64) : Except WordFault Int64 :=
  if b = 0 then .error .zeroDivisor
  else if a = Int64.minValue ∧ b = -1 then .error .overflow
  else .ok (a / b)

/-- The remainder of two unsigned words. -/
def remainder (a b : UInt64) : Except WordFault UInt64 :=
  if b = 0 then .error .zeroDivisor else .ok (a % b)

/-- The negative of a signed word, if it is one. -/
def negate? (a : Int64) : Option Int64 :=
  if a = Int64.minValue then none else some (-a)

/-- A word without its sign. -/
def magnitude (a : Int64) : UInt64 :=
  a.abs.toUInt64

theorem remainder_eq {a b : UInt64} (h : b ≠ 0) : remainder a b = .ok (a % b) :=
  if_neg h

theorem remainder_lt {a b r : UInt64} (h : remainder a b = .ok r) : r.toNat < b.toNat := by
  rw [remainder] at h
  split at h
  next => cases h
  next hb =>
    obtain rfl := Except.ok.inj h
    rw [UInt64.toNat_mod]
    exact Nat.mod_lt _ (Nat.pos_of_ne_zero fun hzero ↦ hb (UInt64.toNat_inj.1 hzero))

/-- The greatest common divisor of two words, and one for two zeros. -/
def wordGcd (a b : UInt64) : Except WordFault UInt64 :=
  if b = 0 then .ok (max a 1)
  else
    match _ : remainder a b with
    | .error fault => .error fault
    | .ok r => wordGcd b r
termination_by b.toNat
decreasing_by exact remainder_lt ‹_›

/-- The numerator and denominator of `n / d` in lowest terms, if both are words. -/
def ofWords (n d : Int64) : Except WordFault (Option (Int64 × Int64)) :=
  if d = 0 then .ok none
  else do
    let g ← wordGcd (magnitude n) (magnitude d)
    let num ← divide n g.toInt64
    let den ← divide d g.toInt64
    if den < 0 then
      return (do return (← negate? num, ← negate? den))
    else return some (num, den)

theorem inWord_toInt (a : Int64) : inWord a.toInt = true := by
  have hle := a.le_toInt
  have hlt := a.toInt_lt
  simp only [inWord, Bool.and_eq_true, decide_eq_true_eq]
  omega

theorem toInt_eq_zero {a : Int64} : a.toInt = 0 ↔ a = 0 :=
  ⟨fun h ↦ Int64.toInt_inj.1 h, fun h ↦ h ▸ rfl⟩

theorem magnitude_toNat (a : Int64) : (magnitude a).toNat = a.toInt.natAbs := by
  have habs : (magnitude a).toNat = a.toBitVec.abs.toNat := rfl
  have hint : a.toInt = a.toBitVec.toInt := rfl
  have hlt := a.toBitVec.isLt
  rw [habs, hint, BitVec.toNat_abs, BitVec.toInt_eq_msb_cond]
  split <;> omega

/-- Euclid's algorithm refuses nothing. -/
theorem wordGcd_eq (a b : UInt64) :
    ∃ g, wordGcd a b = .ok g ∧ g.toNat = max (a.toNat.gcd b.toNat) 1 := by
  induction hn : b.toNat using Nat.strong_induction_on generalizing a b with
  | _ n ih =>
    rw [wordGcd]
    by_cases hb : b = 0
    · subst hb
      subst hn
      refine ⟨max a 1, if_pos rfl, ?_⟩
      have hmax : (max a 1).toNat = max a.toNat 1 := by
        change (if a ≤ 1 then (1 : UInt64) else a).toNat = if a.toNat ≤ 1 then 1 else a.toNat
        exact apply_ite ..
      rw [hmax, UInt64.toNat_zero, Nat.gcd_zero_right]
    · rw [if_neg hb, remainder_eq hb]
      obtain ⟨g, hg, hval⟩ := ih (a % b).toNat (hn ▸ remainder_lt (remainder_eq hb)) b (a % b) rfl
      refine ⟨g, hg, ?_⟩
      rw [hval, ← hn, UInt64.toNat_mod, Nat.gcd_comm, ← Nat.gcd_rec, Nat.gcd_comm]

theorem divide_eq {a b : Int64} (hb : b.toInt ≠ 0) (hneg : b.toInt ≠ -1) :
    ∃ q, divide a b = .ok q ∧ q.toInt = a.toInt.tdiv b.toInt := by
  have hzero : b ≠ 0 := fun h ↦ hb (h ▸ rfl)
  have hone : b ≠ -1 := fun h ↦ hneg (h ▸ rfl)
  refine ⟨a / b, ?_, Int64.toInt_div_of_ne_right a b hone⟩
  rw [divide, if_neg hzero, if_neg fun h ↦ hone h.2]

theorem negate?_eq (a : Int64) :
    (negate? a).map Int64.toInt = if inWord (-a.toInt) then some (-a.toInt) else none := by
  have hmin : a = Int64.minValue ↔ a.toInt = -2 ^ 63 := by
    rw [← Int64.toInt_inj, Int64.toInt_minValue]
  have hle := a.le_toInt
  have hlt := a.toInt_lt
  rw [negate?]
  by_cases ha : a = Int64.minValue
  · have hword : inWord (-a.toInt) = false := by
      rw [hmin.1 ha]
      decide
    rw [if_pos ha, hword]
    rfl
  · have hne := mt hmin.2 ha
    have hword : inWord (-a.toInt) = true := by
      simp only [inWord, Bool.and_eq_true, decide_eq_true_eq]
      omega
    rw [if_neg ha, hword, Option.map_some, Int64.toInt_neg, Int.bmod_eq_of_le (by omega) (by omega)]
    rfl

/-- A word up to `2 ^ 63` keeps its size when it is taken for a signed one. -/
theorem toInt64_toInt {g : UInt64} (h : g.toNat ≤ 2 ^ 63) :
    g.toInt64.toInt = g.toNat ∨ g.toNat = 2 ^ 63 ∧ g.toInt64.toInt = -2 ^ 63 := by
  have hint : g.toInt64.toInt = g.toBitVec.toInt := rfl
  have hnat : g.toBitVec.toNat = g.toNat := rfl
  rw [hint, BitVec.toInt_eq_toNat_cond, hnat]
  split <;> omega

/-- **Dividing by the greatest common divisor or by its negative** reduces a fraction, once the sign of
the denominator is corrected. -/
theorem lowest_tdiv {n d c : Int} (hd : d ≠ 0) (hc : c.natAbs = n.natAbs.gcd d.natAbs) :
    lowestNum n d = (if d.tdiv c < 0 then -n.tdiv c else n.tdiv c) ∧
      (lowestDen n d : Int) = if d.tdiv c < 0 then -d.tdiv c else d.tdiv c := by
  obtain ⟨a, rfl⟩ : c ∣ n := Int.natAbs_dvd_natAbs.1 (hc ▸ Nat.gcd_dvd_left _ _)
  obtain ⟨b, rfl⟩ : c ∣ d := Int.natAbs_dvd_natAbs.1 (hc ▸ Nat.gcd_dvd_right _ _)
  have hc0 : c ≠ 0 := left_ne_zero_of_mul hd
  have hb0 : b ≠ 0 := right_ne_zero_of_mul hd
  have hpos : 0 < c.natAbs := Int.natAbs_pos.2 hc0
  rw [Int.mul_tdiv_cancel_left _ hc0, Int.mul_tdiv_cancel_left _ hc0, lowestNum, lowestDen, ← hc, Int.natAbs_mul,
    Int.natAbs_mul, Nat.mul_div_cancel_left _ hpos, Nat.mul_div_cancel_left _ hpos]
  constructor
  · -- the signs of the two parts agree after the division iff they did before
    rcases lt_or_gt_of_ne hc0 with hneg | hpos
    · have hflip (x : Int) : c * x < 0 ↔ 0 < x := by
        rw [mul_neg_iff]
        omega
      simp only [hflip, decide_eq_decide]
      split <;> split <;> omega
    · have hkeep (x : Int) : c * x < 0 ↔ x < 0 := by
        rw [mul_neg_iff]
        omega
      simp only [hkeep, decide_eq_decide]
      split <;> split <;> omega
  · split <;> omega

/-! ## The outcome -/

/-- What `ofInts?` gives, part by part. -/
theorem ofInts?_map {n d : Int} (hd : d ≠ 0) : (ofInts? n d).map (fun q ↦ (q.num, (q.den : Int))) =
    if inWord (lowestNum n d) && inWord (lowestDen n d) then some (lowestNum n d, (lowestDen n d : Int))
    else none := by
  rw [ofInts?, dif_pos hd]
  split <;> rfl

/-- A sign is corrected where both parts have a negative. -/
theorem negate?_both (a b : Int64) :
    (do return (← negate? a, ← negate? b) : Option (Int64 × Int64)).map (fun (num, den) ↦ (num.toInt, den.toInt)) =
      if inWord (-a.toInt) && inWord (-b.toInt) then some (-a.toInt, -b.toInt) else none := by
  have hpair (x y : Option Int64) : (do return (← x, ← y) : Option (Int64 × Int64)).map
      (fun (num, den) ↦ (num.toInt, den.toInt)) =
        (x.map Int64.toInt).bind fun num ↦ (y.map Int64.toInt).map (num, ·) := by
    cases x <;> cases y <;> rfl
  rw [hpair, negate?_eq, negate?_eq]
  cases inWord (-a.toInt) <;> cases inWord (-b.toInt) <;> rfl

/-- **The steps on words refuse nothing** and give what `ofInts?` says, whatever the two words are. -/
theorem ofWords_eq (n d : Int64) :
    ∃ r, ofWords n d = .ok r ∧ r.map (fun (num, den) ↦ (num.toInt, den.toInt)) =
      (ofInts? n.toInt d.toInt).map fun q ↦ (q.num, (q.den : Int)) := by
  by_cases hd : d = 0
  · subst hd
    exact ⟨none, if_pos rfl, rfl⟩
  have hd0 : d.toInt ≠ 0 := mt toInt_eq_zero.1 hd
  obtain ⟨g, hg, hval⟩ := wordGcd_eq (magnitude n) (magnitude d)
  rw [magnitude_toNat, magnitude_toNat] at hval
  have hpos : 0 < n.toInt.natAbs.gcd d.toInt.natAbs := Nat.gcd_pos_of_pos_right _ (Int.natAbs_pos.2 hd0)
  have hle : n.toInt.natAbs.gcd d.toInt.natAbs ≤ d.toInt.natAbs :=
    Nat.gcd_le_right _ (Int.natAbs_pos.2 hd0)
  have hmin := d.le_toInt
  have hmax := d.toInt_lt
  -- taken for a signed word the divisor may turn negative, but it keeps its size, and is not minus one
  have hsigned := toInt64_toInt (g := g) (by omega)
  have hsize : g.toInt64.toInt.natAbs = n.toInt.natAbs.gcd d.toInt.natAbs := by omega
  obtain ⟨num, hnum, hnumval⟩ := divide_eq (a := n) (b := g.toInt64) (by omega) (by omega)
  obtain ⟨den, hden, hdenval⟩ := divide_eq (a := d) (b := g.toInt64) (by omega) (by omega)
  have hsteps : ofWords n d =
      .ok (if den < 0 then (do return (← negate? num, ← negate? den)) else some (num, den)) := by
    rw [ofWords, if_neg hd, hg]
    change (divide n g.toInt64).bind _ = _
    rw [hnum]
    change (divide d g.toInt64).bind _ = _
    rw [hden]
    exact (apply_ite Except.ok ..).symm
  have hlowest := lowest_tdiv hd0 hsize
  refine ⟨_, hsteps, ?_⟩
  rw [ofInts?_map hd0, hlowest.1, hlowest.2, ← hnumval, ← hdenval]
  have hneg : den < 0 ↔ den.toInt < 0 := Int64.lt_iff_toInt_lt
  by_cases hsign : den < 0
  · have hsign' := hneg.1 hsign
    rw [if_pos hsign, if_pos hsign', if_pos hsign', negate?_both]
  · have hsign' := mt hneg.2 hsign
    rw [if_neg hsign, if_neg hsign', if_neg hsign', inWord_toInt, inWord_toInt]
    rfl

theorem lowest_cross {n d : Int} (hd : d ≠ 0) : lowestNum n d * d = n * lowestDen n d := by
  have hcross (a b c : Int) : (if b < 0 then -a else a) * (b * c) = a * c * if b < 0 then -b else b := by
    split <;> ring
  have hn : n.tdiv (n.gcd d) * n.gcd d = n := Int.tdiv_mul_cancel (Int.gcd_dvd_left ..)
  have hd' : d.tdiv (n.gcd d) * n.gcd d = d := Int.tdiv_mul_cancel (Int.gcd_dvd_right ..)
  obtain ⟨hnum, hden⟩ := lowest_tdiv (c := n.gcd d) hd (Int.natAbs_natCast _)
  have h := hcross (n.tdiv (n.gcd d)) (d.tdiv (n.gcd d)) (n.gcd d)
  rw [hn, hd'] at h
  rw [hnum, hden, h]

/-- The lowest terms are those of the rational number. -/
theorem lowest_eq_rat {n d : Int} (hd : d ≠ 0) :
    lowestNum n d = (n / d : ℚ).num ∧ (lowestDen n d : Int) = (n / d : ℚ).den := by
  have hden := Int.natCast_pos.2 (lowestDen_pos n hd)
  have hcoprime := coprime_lowest n hd
  have heq : (n / d : ℚ) = (lowestNum n d : ℚ) / ((lowestDen n d : Int) : ℚ) := by
    rw [div_eq_div_iff (by exact_mod_cast hd) (by exact_mod_cast hden.ne')]
    exact_mod_cast (lowest_cross hd).symm
  rw [heq]
  exact ⟨(Rat.num_div_eq_of_coprime hden hcoprime).symm, (Rat.den_div_eq_of_coprime hden hcoprime).symm⟩

/-- `ofInts?` gives the lowest terms of the rational number where both are words. -/
theorem ofInts?_isSome {n d : Int} : (ofInts? n d).isSome ↔
    d ≠ 0 ∧ inWord (n / d : ℚ).num = true ∧ inWord (n / d : ℚ).den = true := by
  by_cases hd : d = 0
  · rw [ofInts?, dif_neg (not_not.2 hd)]
    simp [hd]
  · rw [← (lowest_eq_rat hd).1, ← (lowest_eq_rat hd).2, ← Option.isSome_map, ofInts?_map hd]
    simp [hd, Option.isSome_ite]

theorem parts_of_ofInts? {n d : Int} {q : Rational} (h : ofInts? n d = some q) :
    q.num = lowestNum n d ∧ q.den = lowestDen n d ∧ d ≠ 0 ∧ inWord q.num = true ∧ inWord q.den = true := by
  rw [ofInts?] at h
  split at h
  next hd =>
    split at h
    next hword =>
      obtain rfl := Option.some.inj h
      exact ⟨rfl, rfl, hd, Bool.and_eq_true_iff.1 hword⟩
    next => cases h
  next => cases h

end Rational

/-! ## Reading -/

namespace Num

/-- **What is read is normalized.**  In particular a fraction that is a whole number is read as one. -/
theorem exact_of_read? {s : String} {x : Num} (h : read? s = some x) : x.Exact ∨ ∃ f, x = .float f := by
  rw [read?, readChars?] at h
  split at h
  next den _ =>
    obtain ⟨n, -, h⟩ := Option.bind_eq_some_iff.1 h
    obtain ⟨d, -, h⟩ := Option.bind_eq_some_iff.1 h
    obtain ⟨q, hq, h⟩ := Option.bind_eq_some_iff.1 h
    obtain rfl := Option.some.inj h
    obtain ⟨-, -, -, hnum, hden⟩ := Rational.parts_of_ofInts? hq
    rw [ofRational]
    split
    next => exact .inl hnum
    next hone => exact .inl ⟨hnum, hden, hone⟩
  next =>
    split at h
    next i hi =>
      obtain rfl := Option.some.inj h
      exact .inl (Option.filter_eq_some_iff.1 hi).2
    next =>
      obtain ⟨f, -, rfl⟩ := Option.map_eq_some_iff.1 h
      exact .inr ⟨f, rfl⟩

end Num

/-- **Exact numbers are normalized and read back.**

Of two words `n` and `d`, the fraction `n / d` is a number iff `d` is not zero and both lowest terms are words.
It then has these terms; the steps on words that compute it refuse nothing. -/
theorem exact_numbers_normalized :
    (∀ n d : Int64,
      ((Rational.ofInts? n.toInt d.toInt).isSome ↔
        d ≠ 0 ∧ inWord (n.toInt / d.toInt : ℚ).num = true ∧ inWord (n.toInt / d.toInt : ℚ).den = true) ∧
      (∀ q, Rational.ofInts? n.toInt d.toInt = some q →
        q.num = (n.toInt / d.toInt : ℚ).num ∧ q.den = (n.toInt / d.toInt : ℚ).den ∧
        q.num * d.toInt = n.toInt * q.den ∧ 0 < q.den ∧ q.num.gcd q.den = 1) ∧
      ∃ r, Rational.ofWords n d = .ok r ∧ r.map (fun (num, den) ↦ (num.toInt, den.toInt)) =
        (Rational.ofInts? n.toInt d.toInt).map fun q ↦ (q.num, (q.den : Int))) ∧
    (∀ i, inWord i = true → Num.read? (Num.int i).text = some (.int i)) ∧
    (∀ q : Rational, inWord q.num = true → inWord q.den = true → 1 < q.den →
      Num.read? (Num.rat q).text = some (.rat q)) ∧
    (∀ s i, Num.read? s = some (.int i) → inWord i = true) ∧
    (∀ s q, Num.read? s = some (.rat q) → inWord q.num = true ∧ inWord q.den = true ∧ 1 < q.den) := by
  refine ⟨fun n d ↦ ⟨?_, fun q hq ↦ ?_, Rational.ofWords_eq n d⟩, fun i hi ↦ Num.read?_text hi,
    fun q hnum hden hone ↦ Num.read?_text ⟨hnum, hden, hone.ne'⟩, fun s i h ↦ ?_, fun s q h ↦ ?_⟩
  · rw [Rational.ofInts?_isSome, Ne, Rational.toInt_eq_zero]
  · obtain ⟨hnum, hden, hd, -, -⟩ := Rational.parts_of_ofInts? hq
    have hrat := Rational.lowest_eq_rat hd (n := n.toInt)
    rw [← hnum, ← hden] at hrat
    refine ⟨hrat.1, Int.natCast_inj.1 hrat.2, ?_, q.den_pos, q.reduced⟩
    rw [hnum, hden, Rational.lowest_cross hd]
  · rcases Num.exact_of_read? h with hexact | ⟨f, hf⟩
    · exact hexact
    · cases hf
  · rcases Num.exact_of_read? h with hexact | ⟨f, hf⟩
    · have hpos := q.den_pos
      obtain ⟨hnum, hden, hone⟩ := hexact
      exact ⟨hnum, hden, by omega⟩
    · cases hf

/-- The smallest word divided by itself, the text of a fraction, and fractions that are read. -/
theorem exact_numbers_normalized_smallest :
    (Rational.ofInts? Int64.minValue.toInt Int64.minValue.toInt).isSome ∧
    Num.read? (Num.int (-9223372036854775808)).text = some (.int (-9223372036854775808)) ∧
    Num.read? (Num.rat ⟨-3, 2, by decide, by decide⟩).text = some (.rat ⟨-3, 2, by decide, by decide⟩) ∧
    (-3 * -4 = (6 : Int) * 2 ∧ Int.gcd (-3) 2 = 1) ∧ inWord 2 = true ∧ 1 < 2 := by
  obtain ⟨hfraction, hint, hrat, hreadInt, hreadRat⟩ := exact_numbers_normalized
  have hself : (Int64.minValue.toInt / Int64.minValue.toInt : ℚ) = 1 := div_self (by decide)
  have hreduced : Rational.ofInts? (6 : Int64).toInt (-4 : Int64).toInt = some ⟨-3, 2, by decide, by decide⟩ := by
    decide +kernel
  obtain ⟨-, -, hcross, -, hgcd⟩ := (hfraction 6 (-4)).2.1 _ hreduced
  refine ⟨(hfraction Int64.minValue Int64.minValue).1.2 ⟨by decide, ?_, ?_⟩, hint _ (by decide),
    hrat _ (by decide) (by decide) (by decide), ⟨hcross, hgcd⟩, hreadInt "4/2" 2 rfl,
    (hreadRat "6/-4" ⟨-3, 2, by decide, by decide⟩ rfl).2.2⟩
  · rw [hself]
    decide
  · rw [hself]
    decide

end ValueShell
