import Mathlib.Data.List.TakeWhile
import ValueShell.Value.Text

/-!
# Reading numbers back

An exact number is written in decimal and reads back as itself (`Num.read?_text`): the digits of a natural
number spell it, the sign is read apart from them, and a fraction in lowest terms is reduced to itself.

Two things could go wrong and do not.  A number has to fit a word to be read, which exact numbers do, and a
fraction with denominator one is read as an integer, which `Num.Exact` excludes.
-/

set_option autoImplicit false

namespace ValueShell

/-- The number is exact, as evaluating makes it: its parts fit a word, and a fraction is not an integer. -/
def Num.Exact : Num → Prop
  | .int i => inWord i = true
  | .rat q => inWord q.num = true ∧ inWord q.den = true ∧ q.den ≠ 1
  | .float _ => False

/-! ## Whole numbers -/

namespace Decimal

theorem value_toDigits (n : Nat) : value (Nat.toDigits 10 n) = n := by
  have hfold : (fun (m : Nat) (c : Char) ↦ m * 10 + (c.toNat - '0'.toNat)) =
      fun m c ↦ 10 * m + (c.toNat - '0'.toNat) := by
    funext m c
    rw [Nat.mul_comm]
  rw [value, hfold, ← Nat.ofDigitChars_eq_foldl, Nat.ofDigitChars_ten_toDigits]

theorem isDigit_of_mem_toDigits {n : Nat} {c : Char} (h : c ∈ Nat.toDigits 10 n) : c.isDigit = true :=
  Nat.isDigit_of_mem_toDigits (by decide) (by decide) h

theorem isDigits_toDigits (n : Nat) : isDigits (Nat.toDigits 10 n) = true := by
  rw [isDigits, Bool.and_eq_true, List.all_eq_true]
  exact ⟨by simp, fun c hc ↦ isDigit_of_mem_toDigits hc⟩

/-- Digits have no sign. -/
theorem splitSign_toDigits (n : Nat) : splitSign (Nat.toDigits 10 n) = (false, Nat.toDigits 10 n) := by
  unfold splitSign
  split
  next cs h =>
    have hc := isDigit_of_mem_toDigits (n := n) (h ▸ List.mem_cons_self)
    exact absurd hc (by decide)
  next cs h =>
    have hc := isDigit_of_mem_toDigits (n := n) (h ▸ List.mem_cons_self)
    exact absurd hc (by decide)
  next => rfl

theorem readInt?_toDigits (n : Nat) : readInt? (Nat.toDigits 10 n) = some (n : Int) := by
  rw [readInt?, splitSign_toDigits]
  dsimp only
  rw [if_pos (isDigits_toDigits n), value_toDigits]
  rfl

theorem readInt?_minus (n : Nat) : readInt? ('-' :: Nat.toDigits 10 n) = some (-(n : Int)) := by
  rw [readInt?, splitSign]
  dsimp only
  rw [if_pos (isDigits_toDigits n), value_toDigits]
  rfl

/-- The text of an integer: perhaps a minus sign, and digits. -/
theorem toList_toString (i : Int) :
    (toString i).toList = (if i < 0 then ['-'] else []) ++ Nat.toDigits 10 i.natAbs := by
  rw [Int.toString_eq_repr, Int.repr_eq_if]
  by_cases h : 0 ≤ i
  · have hsize : i.toNat = i.natAbs := by omega
    rw [if_pos h, if_neg (by omega), Nat.toList_repr, hsize, List.nil_append]
  · have hsize : (-i).toNat = i.natAbs := by omega
    rw [if_neg h, if_pos (by omega), String.toList_append, Nat.toList_repr, hsize]
    rfl

theorem readInt?_toString (i : Int) : readInt? (toString i).toList = some i := by
  rw [toList_toString]
  by_cases h : i < 0
  · rw [if_pos h, List.singleton_append, readInt?_minus]
    congr 1
    omega
  · rw [if_neg h, List.nil_append, readInt?_toDigits]
    congr 1
    omega

end Decimal

/-! ## Fractions -/

namespace Rational

variable (q : Rational)

theorem gcd_parts : q.num.natAbs.gcd (q.den : Int).natAbs = 1 := by
  rw [Int.natAbs_natCast]
  exact q.reduced

theorem lowestNum_parts : lowestNum q.num q.den = q.num := by
  have hden : ¬ (q.den : Int) < 0 := by omega
  rw [lowestNum, gcd_parts, Nat.div_one]
  simp only [hden, decide_false, decide_eq_false_iff_not]
  split <;> omega

theorem lowestDen_parts : lowestDen q.num q.den = q.den := by
  rw [lowestDen, gcd_parts, Nat.div_one, Int.natAbs_natCast]

/-- A fraction in lowest terms stays as it is. -/
theorem ofInts?_parts (hnum : inWord q.num = true) (hden : inWord q.den = true) :
    ofInts? q.num q.den = some q := by
  have hpos : (q.den : Int) ≠ 0 := by
    have := q.den_pos
    omega
  rw [ofInts?, dif_pos hpos, if_pos]
  · simp only [lowestNum_parts, lowestDen_parts]
  · rw [lowestNum_parts, lowestDen_parts, hnum, hden]
    rfl

theorem toList_text : q.text.toList = (toString q.num).toList ++ '/' :: Nat.toDigits 10 q.den := by
  have htext : q.text = toString q.num ++ "/" ++ toString q.den := rfl
  rw [htext, String.toList_append, String.toList_append, List.append_assoc, Nat.toString_eq_repr,
    Nat.toList_repr]
  rfl

end Rational

/-! ## All exact numbers -/

namespace Num

theorem readWord?_toString {i : Int} (h : inWord i = true) : readWord? (toString i).toList = some i := by
  rw [readWord?, Decimal.readInt?_toString, Option.filter_some, if_pos h]

theorem readWord?_toDigits {n : Nat} (h : inWord n = true) :
    readWord? (Nat.toDigits 10 n) = some (n : Int) := by
  rw [readWord?, Decimal.readInt?_toDigits, Option.filter_some, if_pos h]

/-- The text of an integer is made of digits and minus signs. -/
theorem mem_toString {i : Int} {c : Char} (h : c ∈ (toString i).toList) : c.isDigit = true ∨ c = '-' := by
  rw [Decimal.toList_toString, List.mem_append] at h
  rcases h with h | h
  · split at h
    · exact .inr (List.mem_singleton.1 h)
    · cases h
  · exact .inl (Decimal.isDigit_of_mem_toDigits h)

theorem slash_not_mem_toString (i : Int) : ∀ c ∈ (toString i).toList, (decide (c ≠ '/')) = true := by
  intro c hc
  rcases mem_toString hc with h | rfl
  · rw [decide_eq_true_eq]
    rintro rfl
    exact absurd h (by decide)
  · decide

/-- **An exact number reads back as itself.** -/
theorem read?_text {x : Num} (h : x.Exact) : read? x.text = some x := by
  cases x with
  | int i =>
    have hslash := slash_not_mem_toString i
    rw [read?, text, readChars?, List.dropWhile_eq_nil_iff.2 hslash, readWord?_toString h]
  | rat q =>
    obtain ⟨hnum, hden, hone⟩ := h
    have hslash := slash_not_mem_toString q.num
    rw [read?, text, Rational.toList_text, readChars?, List.dropWhile_append_of_pos hslash,
      List.takeWhile_append_of_pos hslash, List.dropWhile_cons_of_neg (by decide),
      List.takeWhile_cons_of_neg (by decide), List.append_nil, readWord?_toString hnum]
    dsimp only
    rw [readWord?_toDigits hden]
    change (Rational.ofInts? q.num q.den).bind (fun q ↦ some (ofRational q)) = some (.rat q)
    rw [q.ofInts?_parts hnum hden, Option.bind_some, ofRational, if_neg hone]
  | float x => exact h.elim

/-- The characters of an exact number's text. -/
theorem mem_text {x : Num} (h : x.Exact) {c : Char} (hc : c ∈ x.text.toList) :
    c.isDigit = true ∨ c = '-' ∨ c = '/' := by
  cases x with
  | int i => exact (mem_toString hc).imp_right .inl
  | rat q =>
    rw [text, Rational.toList_text, List.mem_append, List.mem_cons] at hc
    rcases hc with hc | rfl | hc
    · exact (mem_toString hc).imp_right .inl
    · exact .inr (.inr rfl)
    · exact .inl (Decimal.isDigit_of_mem_toDigits hc)
  | float x => exact h.elim

/-- The text of an exact number can stand bare. -/
theorem text_bareword {x : Num} (h : x.Exact) :
    x.text ≠ "" ∧ ∀ c ∈ x.text.toList, isBarewordChar c = true := by
  refine ⟨fun hempty ↦ ?_, fun c hc ↦ ?_⟩
  · have hread := read?_text h
    have hnone : read? "" = none := rfl
    rw [hempty, hnone] at hread
    cases hread
  · rcases mem_text h hc with hdigit | rfl | rfl
    · have hsmall : c.toNat < 0x80 := (Char.isDigit_iff_toNat.1 hdigit).2.trans_lt (by decide)
      rw [isBarewordChar, isAlphanumeric, if_pos hsmall, Char.isAlphanum, hdigit, Bool.or_true, Bool.true_or]
    · decide
    · decide

end Num

end ValueShell
