import ValueShell.Eval.Command
import ValueShell.Proofs.Lexing

/-!
# What a duration may look like

A text of units is scanned round by round: a run of digits and points, then a run of anything else.  This
file says which texts the scan accepts without mentioning the scan: a sign or none, and then groups, each of a
number and the name of a unit (`Duration.Written`).

Nothing looks ahead for the end of a unit, and nothing has to.  A unit's name holds neither digit nor point and
a number holds nothing else, so a text of groups falls apart in one way only, and that is where the scan cuts it
(`Round.of_group`, `Round.eq_parts`).  What is left to show is that the scan asks of each part what the grammar
asks of it: for numbers that is a fact about reading floats (`Decimal.readFloat?_isSome`).

That the scan accepts groups is an induction on the groups.  That it accepts nothing else is one on the length
of the text, which every round makes smaller, also a round that fails (`Round.shorter`).
-/

set_option autoImplicit false

namespace ValueShell

namespace Duration

/-! ## The grammar -/

/-- Digits with at most one point among them, and not the point alone. -/
structure IsNumber (cs : List Char) : Prop where
  chars : ∀ c ∈ cs, c.isDigit = true ∨ c = '.'
  point : cs.count '.' ≤ 1
  digit : ∃ c ∈ cs, c.isDigit = true

/-- The name of a unit. -/
def IsUnitName (cs : List Char) : Prop :=
  String.ofList cs ∈ ["ns", "us", "µs", "ms", "s", "m", "h"]

instance : DecidablePred IsUnitName :=
  fun _ ↦ inferInstanceAs (Decidable (_ ∈ _))

/-- One or more groups of a number and a unit. -/
inductive Groups : List Char → Prop
  | one {number name : List Char} (hnumber : IsNumber number) (hname : IsUnitName name) :
      Groups (number ++ name)
  | more {number name rest : List Char} (hnumber : IsNumber number) (hname : IsUnitName name)
      (hrest : Groups rest) : Groups (number ++ name ++ rest)

/-- The text is a sign or none, and groups. -/
def Written (s : String) : Prop :=
  ∃ sign groups, s.toList = sign ++ groups ∧ sign ∈ [[], ['-'], ['+']] ∧ Groups groups

theorem isNumberChar_iff {c : Char} : isNumberChar c = true ↔ c.isDigit = true ∨ c = '.' := by
  rw [isNumberChar, Bool.or_eq_true, decide_eq_true_eq]

theorem IsNumber.isNumberChar {cs : List Char} (h : IsNumber cs) : ∀ c ∈ cs, isNumberChar c = true :=
  fun c hc ↦ isNumberChar_iff.2 (h.chars c hc)

/-- A unit has one of the names in the table. -/
theorem isUnitName_iff {cs : List Char} : IsUnitName cs ↔ ∃ unit ∈ units, unit.1.toList = cs := by
  have hnames : ["ns", "us", "µs", "ms", "s", "m", "h"] = units.map Prod.fst := rfl
  rw [IsUnitName, hnames, List.mem_map]
  constructor
  · rintro ⟨unit, hmem, h⟩
    exact ⟨unit, hmem, by rw [h, String.toList_ofList]⟩
  · rintro ⟨unit, hmem, rfl⟩
    exact ⟨unit, hmem, by rw [String.ofList_toList]⟩

/-- No character of a unit could be one of the number after it. -/
theorem IsUnitName.not_isNumberChar {cs : List Char} (h : IsUnitName cs) :
    ∀ c ∈ cs, (!Duration.isNumberChar c) = true := by
  obtain ⟨unit, hmem, rfl⟩ := isUnitName_iff.1 h
  have hall : (units.all fun unit ↦ unit.1.toList.all fun c ↦ !Duration.isNumberChar c) = true := by decide
  exact List.all_eq_true.1 (List.all_eq_true.1 hall unit hmem)

theorem IsUnitName.ne_nil {cs : List Char} (h : IsUnitName cs) : cs ≠ [] := by
  rintro rfl
  exact absurd h (by decide)

theorem IsNumber.ne_nil {cs : List Char} (h : IsNumber cs) : cs ≠ [] := by
  obtain ⟨c, hc, -⟩ := h.digit
  exact List.ne_nil_of_mem hc

/-- Groups begin with a number. -/
theorem Groups.head {cs : List Char} (h : Groups cs) : ∀ c ∈ cs.head?, isNumberChar c = true := by
  obtain ⟨number, tail, hnumber, rfl⟩ : ∃ number tail, IsNumber number ∧ cs = number ++ tail := by
    cases h with
    | one hnumber _ => exact ⟨_, _, hnumber, rfl⟩
    | more hnumber _ _ => exact ⟨_, _, hnumber, List.append_assoc ..⟩
  intro c hc
  rw [List.head?_append, List.head?_eq_some_head hnumber.ne_nil, Option.some_or] at hc
  exact hnumber.isNumberChar c (Option.mem_some.1 hc ▸ List.head_mem hnumber.ne_nil)

theorem Groups.ne_nil {cs : List Char} (h : Groups cs) : cs ≠ [] := by
  cases h with
  | one hnumber _ => exact List.append_ne_nil_of_left_ne_nil hnumber.ne_nil _
  | more hnumber _ _ =>
    exact List.append_ne_nil_of_left_ne_nil (List.append_ne_nil_of_left_ne_nil hnumber.ne_nil _) _

end Duration

/-! ## Reading the number of a group

A text of digits and points has no point, one, or more; the three are read apart. -/

namespace Decimal

open Duration (isNumberChar isNumberChar_iff)

section Digits

variable {ds fraction : List Char} (hds : ∀ c ∈ ds, c.isDigit = true)
  (hfraction : ∀ c ∈ fraction, c.isDigit = true)

include hds

theorem count_point_digits : ds.count '.' = 0 :=
  List.count_eq_zero.2 fun hc ↦ absurd (hds _ hc) (by decide)

theorem exists_digit_iff : (∃ c ∈ ds, c.isDigit = true) ↔ ds ≠ [] := by
  constructor
  · rintro ⟨c, hc, -⟩
    exact List.ne_nil_of_mem hc
  · intro hne
    exact ⟨ds.head hne, List.head_mem hne, hds _ (List.head_mem hne)⟩

theorem readMagnitude?_digits : (readMagnitude? ds).isSome ↔ ds ≠ [] := by
  simp only [readMagnitude?, List.takeWhile_eq_self_iff.2 hds, List.dropWhile_eq_nil_iff.2 hds,
    List.append_nil, readExponent?]
  cases ds <;> simp

include hfraction in
theorem readMagnitude?_point :
    (readMagnitude? (ds ++ '.' :: fraction)).isSome ↔ ds ++ fraction ≠ [] := by
  have hpoint : ¬ Char.isDigit '.' := by decide
  simp only [readMagnitude?, List.takeWhile_append_of_pos hds, List.dropWhile_append_of_pos hds,
    List.takeWhile_cons_of_neg hpoint, List.dropWhile_cons_of_neg hpoint, List.append_nil,
    List.takeWhile_eq_self_iff.2 hfraction, List.dropWhile_eq_nil_iff.2 hfraction, readExponent?]
  cases ds ++ fraction <;> simp

include hfraction in
/-- A second point is no part of the number and no exponent either. -/
theorem readMagnitude?_points (rest : List Char) :
    readMagnitude? (ds ++ '.' :: (fraction ++ '.' :: rest)) = none := by
  have hpoint : ¬ Char.isDigit '.' := by decide
  have hexponent : readExponent? ('.' :: rest) = none := by
    rw [readExponent?, if_neg (by decide)]
  simp only [readMagnitude?, List.dropWhile_append_of_pos hds, List.dropWhile_cons_of_neg hpoint,
    List.dropWhile_append_of_pos hfraction, hexponent, Option.map_none, ite_self]

end Digits

variable {cs : List Char}

theorem splitSign_eq_self (h : ∀ c ∈ cs.head?, isNumberChar c = true) : splitSign cs = (false, cs) := by
  unfold splitSign
  split
  · exact absurd (h '-' rfl) (by decide)
  · exact absurd (h '+' rfl) (by decide)
  · rfl

/-- What is split off a text is a sign or nothing. -/
theorem exists_sign (cs : List Char) : ∃ sign ∈ [[], ['-'], ['+']], cs = sign ++ (splitSign cs).2 := by
  unfold splitSign
  split
  · exact ⟨['-'], by decide, rfl⟩
  · exact ⟨['+'], by decide, rfl⟩
  · exact ⟨[], by decide, rfl⟩

variable (h : ∀ c ∈ cs, isNumberChar c = true)

include h

/-- Digits and points name no float: the words for those begin with a letter. -/
theorem readUnsigned?_numberChars : readUnsigned? cs = readMagnitude? cs := by
  have hlower : ∀ c ∈ cs, c.toLower = c := by
    intro c hc
    rcases isNumberChar_iff.1 (h c hc) with hdigit | rfl
    · have hle : c.toNat ≤ '9'.toNat := (Char.isDigit_iff_toNat.1 hdigit).2
      refine dif_neg fun hupper ↦ ?_
      exact absurd (hle.trans_lt (by decide)) (Nat.not_lt_of_le (UInt32.le_iff_toNat_le.1 hupper.1))
    · rfl
  have hmap : cs.map Char.toLower = cs := by
    rw [List.map_congr_left hlower, List.map_id']
  have hword : ∀ word : List Char, (∃ c ∈ word, isNumberChar c = false) → cs ≠ word := by
    rintro word ⟨c, hc, hnot⟩ rfl
    rw [h c hc] at hnot
    cases hnot
  rw [readUnsigned?, hmap, if_neg, if_neg]
  · exact hword _ ⟨'n', by decide, by decide⟩
  · exact not_or.2 ⟨hword _ ⟨'i', by decide, by decide⟩, hword _ ⟨'i', by decide, by decide⟩⟩

/-- What stops the digits of such a text is a point. -/
theorem digits_or_point : (∀ c ∈ cs, c.isDigit = true) ∨
    ∃ ds rest, (∀ c ∈ ds, c.isDigit = true) ∧ cs = ds ++ '.' :: rest := by
  have hcs := List.takeWhile_append_dropWhile (p := Char.isDigit) (l := cs)
  rcases htail : cs.dropWhile Char.isDigit with _ | ⟨d, rest⟩
  · exact .inl (List.dropWhile_eq_nil_iff.1 htail)
  · have hhead : d ∈ (cs.dropWhile Char.isDigit).head? := by rw [htail]; rfl
    have hstop : d.isDigit = false := Lexer.head_dropWhile hhead
    rw [htail] at hcs
    have hmem : d ∈ cs := hcs ▸ List.mem_append_right _ List.mem_cons_self
    obtain rfl : d = '.' := (isNumberChar_iff.1 (h d hmem)).resolve_left (Bool.eq_false_iff.1 hstop)
    exact .inr ⟨_, rest, fun _ ↦ List.mem_takeWhile_imp, hcs.symm⟩

/-- Digits and points are a size iff there is a digit and no second point. -/
theorem readMagnitude?_isSome : (readMagnitude? cs).isSome ↔ cs.count '.' ≤ 1 ∧ ∃ c ∈ cs, c.isDigit = true := by
  rcases digits_or_point h with hdigits | ⟨ds, after, hds, rfl⟩
  · rw [readMagnitude?_digits hdigits, exists_digit_iff hdigits, count_point_digits hdigits]
    simp
  have hafter : ∀ c ∈ after, isNumberChar c = true := fun c hc ↦
    h c (List.mem_append_right _ (List.mem_cons_of_mem _ hc))
  rcases digits_or_point hafter with hfraction | ⟨fraction, rest, hfraction, rfl⟩
  · have hexists : (∃ c ∈ ds ++ '.' :: after, c.isDigit = true) ↔ ∃ c ∈ ds ++ after, c.isDigit = true := by
      have hpoint : Char.isDigit '.' = false := by decide
      simp [or_and_right, exists_or, hpoint]
    have hall : ∀ c ∈ ds ++ after, c.isDigit = true := fun c hc ↦
      (List.mem_append.1 hc).elim (hds c) (hfraction c)
    rw [readMagnitude?_point hds hfraction, hexists, exists_digit_iff hall, List.count_append,
      List.count_cons_self, count_point_digits hds, count_point_digits hfraction]
    simp
  · rw [readMagnitude?_points hds hfraction, List.count_append, List.count_cons_self, List.count_append,
      List.count_cons_self]
    simp only [Option.isSome_none, Bool.false_eq_true, false_iff, not_and_or]
    exact .inl (by omega)

/-- Digits and points spell a float iff there is a digit and no second point. -/
theorem readFloat?_isSome : (readFloat? cs).isSome ↔ cs.count '.' ≤ 1 ∧ ∃ c ∈ cs, c.isDigit = true := by
  rw [readFloat?, splitSign_eq_self fun c hc ↦ h c (List.mem_of_mem_head? hc)]
  dsimp only
  rw [Option.isSome_map, readUnsigned?_numberChars h, readMagnitude?_isSome h]

end Decimal

namespace Duration

/-! ## The scan -/

section Group

variable {number name : List Char}

/-- A group has a value iff its parts are of the grammar. -/
theorem groupNanos?_isSome (h : ∀ c ∈ number, isNumberChar c = true) :
    (groupNanos? number name).isSome ↔ IsNumber number ∧ IsUnitName name := by
  have hname : (units.find? fun unit ↦ unit.1.toList = name).isSome ↔ IsUnitName name := by
    rw [isUnitName_iff, List.find?_isSome]
    simp
  have hnumber : (Decimal.readFloat? number).isSome ↔ IsNumber number := by
    rw [Decimal.readFloat?_isSome h]
    exact ⟨fun hn ↦ ⟨fun c hc ↦ isNumberChar_iff.1 (h c hc), hn.1, hn.2⟩, fun hn ↦ ⟨hn.point, hn.digit⟩⟩
  rw [← hnumber, ← hname, groupNanos?]
  by_cases hdigit : number.any Char.isDigit
  · rw [if_pos hdigit]
    cases Decimal.readFloat? number with
    | none => simp
    | some x => cases units.find? fun unit ↦ unit.1.toList = name <;> simp
  · have hnone : ¬ (Decimal.readFloat? number).isSome := fun hsome ↦
      hdigit (List.any_eq_true.2 (hnumber.1 hsome).digit)
    rw [if_neg hdigit]
    simp [hnone]

end Group

/-- One round of the scan cuts a text into a run of digits and points, a run of other characters, and a rest. -/
structure Round (cs number name rest : List Char) : Prop where
  text : cs = number ++ (name ++ rest)
  numberChars : ∀ c ∈ number, isNumberChar c = true
  nameChars : ∀ c ∈ name, (!isNumberChar c) = true
  afterNumber : ∀ c ∈ (name ++ rest).head?, isNumberChar c = false
  afterName : ∀ c ∈ rest.head?, isNumberChar c = true

namespace Round

variable {cs number name rest : List Char}

/-- The scan cuts every text, whatever it holds. -/
theorem of_text (cs : List Char) :
    Round cs (cs.takeWhile isNumberChar) ((cs.dropWhile isNumberChar).takeWhile (!isNumberChar ·))
      ((cs.dropWhile isNumberChar).dropWhile (!isNumberChar ·)) where
  text := by rw [List.takeWhile_append_dropWhile, List.takeWhile_append_dropWhile]
  numberChars c := List.mem_takeWhile_imp
  nameChars c := List.mem_takeWhile_imp
  afterNumber c hc := by
    rw [List.takeWhile_append_dropWhile] at hc
    exact Lexer.head_dropWhile hc
  afterName c hc := (Bool.not_eq_false' ..).mp (Lexer.head_dropWhile hc)

/-- The groups of the grammar are where the scan cuts. -/
theorem of_group (hnumber : IsNumber number) (hname : IsUnitName name)
    (hrest : ∀ c ∈ rest.head?, isNumberChar c = true) : Round (number ++ (name ++ rest)) number name rest where
  text := rfl
  numberChars := hnumber.isNumberChar
  nameChars := hname.not_isNumberChar
  afterNumber c hc := by
    rw [List.head?_append, List.head?_eq_some_head hname.ne_nil, Option.some_or] at hc
    have hmem := Option.mem_some.1 hc ▸ List.head_mem hname.ne_nil
    exact (Bool.not_eq_true' ..).mp (hname.not_isNumberChar c hmem)
  afterName := hrest

variable (h : Round cs number name rest)

include h

/-- A round of a text that is not empty takes a character at least. -/
theorem shorter (hne : cs ≠ []) : rest.length < cs.length := by
  obtain ⟨c, hc⟩ : ∃ c, c ∈ cs.head? := Option.ne_none_iff_exists'.1 (mt List.head?_eq_none_iff.1 hne)
  have htaken : number ++ name ≠ [] := by
    -- otherwise the text is the rest, and its first character would be of both kinds
    intro hnil
    obtain ⟨rfl, rfl⟩ := List.append_eq_nil_iff.1 hnil
    obtain rfl : cs = rest := h.text
    have hno := h.afterNumber c hc
    rw [h.afterName c hc] at hno
    cases hno
  have hpos := List.length_pos_iff.2 htaken
  rw [h.text, ← List.append_assoc, List.length_append]
  omega

omit h in
/-- A run ends where the next character is of another kind. -/
theorem run_append {p : Char → Bool} {left right : List Char} (hleft : ∀ c ∈ left, p c = true)
    (hright : ∀ c ∈ right.head?, p c = false) :
    (left ++ right).takeWhile p = left ∧ (left ++ right).dropWhile p = right := by
  rw [List.takeWhile_append_of_pos hleft, List.dropWhile_append_of_pos hleft]
  cases right with
  | nil => exact ⟨List.append_nil _, rfl⟩
  | cons c cs =>
    have hc : ¬ p c = true := Bool.eq_false_iff.1 (hright c rfl)
    rw [List.takeWhile_cons_of_neg hc, List.dropWhile_cons_of_neg hc, List.append_nil]
    exact ⟨rfl, rfl⟩

/-- **A text is cut in one way only.** -/
theorem eq_parts : number = cs.takeWhile isNumberChar ∧
    name = (cs.dropWhile isNumberChar).takeWhile (!isNumberChar ·) ∧
    rest = (cs.dropWhile isNumberChar).dropWhile (!isNumberChar ·) := by
  obtain ⟨hnumber, htail⟩ := run_append h.numberChars h.afterNumber
  obtain ⟨hname, hrest⟩ := run_append h.nameChars fun c hc ↦ (Bool.not_eq_false' ..).mpr (h.afterName c hc)
  rw [h.text, hnumber, htail, hname, hrest]
  exact ⟨rfl, rfl, rfl⟩

/-- The scan of a text is a round and the scan of the rest. -/
theorem groupsNanos?_eq (hne : cs ≠ []) (total : Float) :
    groupsNanos? total cs = (groupNanos? number name).bind fun x ↦ groupsNanos? (total + x) rest := by
  obtain ⟨rfl, rfl, rfl⟩ := h.eq_parts
  obtain ⟨c, cs, rfl⟩ := List.exists_cons_of_ne_nil hne
  rw [groupsNanos?]
  cases groupNanos? _ _ <;> rfl

end Round

/-! ## What is accepted -/

/-- A group in front of a text that is accepted is accepted with it. -/
theorem groupsNanos?_group {number name rest : List Char} (hnumber : IsNumber number) (hname : IsUnitName name)
    (hhead : ∀ c ∈ rest.head?, isNumberChar c = true) (hrest : ∀ total, (groupsNanos? total rest).isSome)
    (total : Float) : (groupsNanos? total (number ++ (name ++ rest))).isSome := by
  have hne := List.append_ne_nil_of_left_ne_nil hnumber.ne_nil (name ++ rest)
  obtain ⟨x, hx⟩ := Option.isSome_iff_exists.1
    ((groupNanos?_isSome hnumber.isNumberChar).2 ⟨hnumber, hname⟩)
  rw [(Round.of_group hnumber hname hhead).groupsNanos?_eq hne, hx, Option.bind_some]
  exact hrest _

theorem Groups.groupsNanos?_isSome {cs : List Char} (h : Groups cs) :
    ∀ total, (groupsNanos? total cs).isSome := by
  induction h with
  | @one number name hnumber hname =>
    have hend total : (groupsNanos? total []).isSome := by
      rw [groupsNanos?]
      rfl
    rw [← List.append_nil name]
    exact groupsNanos?_group hnumber hname (by simp) hend
  | more hnumber hname hrest ih =>
    rw [List.append_assoc]
    exact groupsNanos?_group hnumber hname hrest.head ih

theorem Groups.of_groupsNanos?_isSome {cs : List Char} {total : Float} (hne : cs ≠ [])
    (h : (groupsNanos? total cs).isSome) : Groups cs := by
  induction hn : cs.length using Nat.strong_induction_on generalizing total cs with
  | _ n ih =>
    subst hn
    obtain ⟨number, name, rest, hround⟩ : ∃ number name rest, Round cs number name rest :=
      ⟨_, _, _, .of_text cs⟩
    rw [hround.groupsNanos?_eq hne, Option.isSome_bind, Option.any_eq_true] at h
    obtain ⟨x, hx, hrest⟩ := h
    obtain ⟨hnumber, hname⟩ := (groupNanos?_isSome hround.numberChars).1 (Option.isSome_of_mem hx)
    rw [hround.text]
    by_cases hend : rest = []
    · subst hend
      rw [List.append_nil]
      exact .one hnumber hname
    · rw [← List.append_assoc]
      exact .more hnumber hname (ih _ (hround.shorter hne) hend hrest rfl)

theorem unitNanos?_isSome_iff (cs : List Char) :
    (unitNanos? cs).isSome ↔ Groups (Decimal.splitSign cs).2 := by
  rw [unitNanos?]
  rcases Decimal.splitSign cs with ⟨negative, rest⟩
  dsimp only
  by_cases hne : rest = []
  · rw [if_pos (List.isEmpty_iff.2 hne)]
    exact ⟨(nomatch ·), fun h ↦ absurd hne h.ne_nil⟩
  · rw [if_neg (mt List.isEmpty_iff.1 hne), Option.isSome_map]
    exact ⟨.of_groupsNanos?_isSome hne, fun h ↦ h.groupsNanos?_isSome 0⟩

/-- There is one way to tell the sign from the groups. -/
theorem written_iff (s : String) : Written s ↔ Groups (Decimal.splitSign s.toList).2 := by
  constructor
  · rintro ⟨sign, groups, htext, hsign, hgroups⟩
    rw [htext]
    simp only [List.mem_cons, List.not_mem_nil, or_false] at hsign
    rcases hsign with rfl | rfl | rfl
    · rwa [List.nil_append, Decimal.splitSign_eq_self hgroups.head]
    · exact hgroups
    · exact hgroups
  · intro h
    obtain ⟨sign, hsign, htext⟩ := Decimal.exists_sign s.toList
    exact ⟨sign, _, htext, hsign, h⟩

/-- **A text of units is a duration iff it is written as the grammar says.**  What is not, and is not a number
either, is refused as invalid: never as negative, and never taken for a duration.  Every round of the scan takes
a character at least, whatever the text holds. -/
theorem accepted_iff_written :
    (∀ s : String, (unitNanos? s.toList).isSome ↔ Written s) ∧
    (∀ s : String, ¬ Written s → Num.read? s = none →
      sleepNanos (.str s) = .error .invalidSleepDuration) ∧
    (∀ (total : Float) (cs : List Char), cs ≠ [] → ∃ number name rest,
      cs = number ++ (name ++ rest) ∧ rest.length < cs.length ∧
      groupsNanos? total cs = (groupNanos? number name).bind fun x ↦ groupsNanos? (total + x) rest) := by
  have haccept (s : String) : (unitNanos? s.toList).isSome ↔ Written s :=
    (unitNanos?_isSome_iff _).trans (written_iff s).symm
  refine ⟨haccept, fun s hnot hread ↦ ?_, fun total cs hne ↦ ?_⟩
  · have hnone : unitNanos? s.toList = none := Option.not_isSome_iff_eq_none.1 (mt (haccept s).1 hnot)
    have htext : ofText s = .error .invalid := by rw [ofText, hread, hnone]
    rw [sleepNanos, htext]
  · have hround := Round.of_text cs
    exact ⟨_, _, _, hround.text, hround.shorter hne, hround.groupsNanos?_eq hne total⟩

/-- Hours and half a millisecond under one sign are a duration; a number without its unit at the end is not. -/
theorem accepted_iff_written_signed :
    (unitNanos? "+3h.5ms".toList).isSome ∧ sleepNanos (.str "1s2") = .error .invalidSleepDuration ∧
    ∃ number name rest, "1s2".toList = number ++ (name ++ rest) ∧ rest.length < 3 ∧
      groupsNanos? 0 "1s2".toList = (groupNanos? number name).bind fun x ↦ groupsNanos? (0 + x) rest := by
  obtain ⟨haccept, hrefuse, hround⟩ := accepted_iff_written
  have hgroups : Groups (['3'] ++ ['h'] ++ (['.', '5'] ++ ['m', 's'])) :=
    .more ⟨by simp, by decide, '3', by simp, by decide⟩ (by decide)
      (.one ⟨by simp, by decide, '5', by simp, by decide⟩ (by decide))
  have hnone : ¬ (unitNanos? "1s2".toList).isSome := by decide +kernel
  exact ⟨(haccept _).2 ⟨['+'], _, by decide, by decide, hgroups⟩,
    hrefuse _ (mt (haccept _).2 hnone) (by decide +kernel), hround 0 _ (by decide)⟩

end Duration

end ValueShell
