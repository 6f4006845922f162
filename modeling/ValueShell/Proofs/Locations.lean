import ValueShell.Proofs.Lexing

/-!
# Lines and columns

A place in a source is an offset in bytes; what a reader is told of it is a line and a column.  Nothing is lost by
that: of two places between characters the later one has the later line and column (`Source.location_before`), and
`Source.offsetOf` finds the offset again from the line and the column alone (`Source.offsetOf_location`).

Between characters means what it means for strings (`String.Pos.Raw.IsValid`): the bytes in front of the offset are a
text by themselves.  The text of the source then splits at the offset (`Source.exists_split`), and the rest is about
the characters in front: lines that have come to their end, and the beginning of one that has not
(`Source.Splits`).  Only lines have to be told apart for that, so no proof looks at the width of a character.
-/

set_option autoImplicit false

namespace ValueShell

/-- The first place comes before the second: on an earlier line, or earlier on the same one. -/
def Location.Before (a b : Location) : Prop :=
  a.line < b.line ∨ a.line = b.line ∧ a.column < b.column

/-! ## Widths -/

theorem byteLength_eq_utf8ByteSize (cs : List Char) : byteLength cs = (String.ofList cs).utf8ByteSize := by
  induction cs with
  | nil => rfl
  | cons c cs ih =>
    rw [byteLength_cons, ih, ← List.singleton_append, String.ofList_append, String.utf8ByteSize_append,
      ← String.singleton_eq_ofList, String.utf8ByteSize_singleton]

/-- The bytes of a string are those of its characters. -/
theorem byteLength_toList (text : String) : byteLength text.toList = text.utf8ByteSize := by
  rw [byteLength_eq_utf8ByteSize, String.ofList_toList]

/-- Beyond the end nothing can be cut off. -/
theorem splitAtByte_eq_none {offset : Nat} {cs : List Char} (h : byteLength cs < offset) :
    splitAtByte offset cs = none := by
  induction cs generalizing offset with
  | nil =>
    obtain ⟨n, rfl⟩ := Nat.exists_eq_add_one.2 h
    rfl
  | cons c cs ih =>
    rw [byteLength_cons] at h
    obtain ⟨n, rfl⟩ := Nat.exists_eq_add_one.2 (Nat.zero_lt_of_lt h)
    rw [splitAtByte, if_pos (by omega), ih (by omega), Option.map_none]

/-- Of two beginnings of a text, the one with fewer bytes is a beginning of the other. -/
theorem exists_eq_append_of_byteLength_lt {before before' after after' : List Char}
    (h : before ++ after = before' ++ after') (hlt : byteLength before < byteLength before') :
    ∃ mid, mid ≠ [] ∧ before' = before ++ mid := by
  rcases List.append_eq_append_iff.1 h with ⟨mid, rfl, -⟩ | ⟨mid, rfl, -⟩
  · refine ⟨mid, ?_, rfl⟩
    rintro rfl
    rw [List.append_nil] at hlt
    exact Nat.lt_irrefl _ hlt
  · rw [byteLength_append] at hlt
    omega

/-- The bytes that are passed if first lines and then characters are passed over. -/
def bytesPassed : Nat → Nat → List Char → Nat
  | 0, characters, cs => byteLength (cs.take characters)
  | _ + 1, _, [] => 0
  | lines + 1, characters, c :: cs =>
    c.utf8Size + bytesPassed (if c = '\n' then lines else lines + 1) characters cs

/-- A text that stops with the end of a line is passed by its number of lines. -/
theorem bytesPassed_lines {lines : List Char} (hwhole : ∀ c ∈ lines.getLast?, c = '\n') (characters : Nat)
    (rest : List Char) : bytesPassed (lines.count '\n') characters (lines ++ rest) =
      byteLength lines + byteLength (rest.take characters) := by
  induction lines with
  | nil => rw [List.count_nil, List.nil_append, bytesPassed, byteLength_nil, Nat.zero_add]
  | cons c lines ih =>
    have hrest : ∀ d ∈ lines.getLast?, d = '\n' := by
      cases lines with
      | nil => nofun
      | cons d lines => exact List.getLast?_cons_cons ▸ hwhole
    by_cases hc : c = '\n'
    · rw [hc, List.count_cons_self, List.cons_append, bytesPassed, if_pos rfl, ih hrest, byteLength_cons, Nat.add_assoc]
    · -- the line of `c` has its end further on
      have hmem : '\n' ∈ lines := by
        cases hlast : lines.getLast? with
        | none =>
          rw [List.getLast?_eq_none_iff.1 hlast] at hwhole
          exact absurd (hwhole c rfl) hc
        | some d => exact hrest d hlast ▸ List.mem_of_getLast? hlast
      obtain ⟨n, hn⟩ := Nat.exists_eq_add_one.2 (List.count_pos_iff.2 hmem)
      rw [List.count_cons_of_ne hc, List.cons_append, hn, bytesPassed, if_neg hc, ← hn, ih hrest, byteLength_cons,
        Nat.add_assoc]

namespace Source

variable {s : Source} {offset : Nat} {lines last before before' after after' : List Char}

/-- The offset that a place stands for. -/
def offsetOf (s : Source) (place : Location) : Nat :=
  bytesPassed (place.line - 1) (place.column - 1) s.code.toList

/-- In front of the offset stand lines that have come to their end, and then the beginning of one. -/
structure Splits (s : Source) (offset : Nat) (lines last : List Char) : Prop where
  code : ∃ after, s.code.toList = lines ++ last ++ after
  bytes : byteLength (lines ++ last) = offset
  whole : ∀ c ∈ lines.getLast?, c = '\n'
  unbroken : '\n' ∉ last

/-! ## In front of an offset -/

/-- Between characters the text splits. -/
theorem exists_append (h : (⟨offset⟩ : String.Pos.Raw).IsValid s.code) :
    ∃ before after, s.code.toList = before ++ after ∧ byteLength before = offset := by
  obtain ⟨front, back, hcode, hoffset⟩ := String.Pos.Raw.isValid_iff_exists_append.1 h
  refine ⟨front.toList, back.toList, by rw [hcode, String.toList_append], ?_⟩
  rw [byteLength_toList]
  exact (congrArg String.Pos.Raw.byteIdx hoffset).symm

/-- What stands in front of an offset is lines and the beginning of one. -/
theorem exists_splits (hcode : s.code.toList = before ++ after) :
    ∃ lines last, before = lines ++ last ∧ s.Splits (byteLength before) lines last := by
  have hbefore : (before.reverse.dropWhile (· ≠ '\n')).reverse ++ (before.reverse.takeWhile (· ≠ '\n')).reverse =
      before := by
    rw [← List.reverse_append, List.takeWhile_append_dropWhile, List.reverse_reverse]
  refine ⟨_, _, hbefore.symm, ⟨after, by rw [hbefore, hcode]⟩, by rw [hbefore], fun c hc ↦ ?_, fun hmem ↦ ?_⟩
  · rw [List.getLast?_reverse] at hc
    simpa using Lexer.head_dropWhile hc
  · simpa using List.mem_takeWhile_imp (List.mem_reverse.1 hmem)

theorem location_append (hcode : s.code.toList = before ++ after) : s.location (byteLength before) =
    ⟨s.name, before.count '\n' + 1, (before.reverse.takeWhile (· ≠ '\n')).length + 1⟩ := by
  rw [location, Source.before, hcode, splitAtByte_byteLength]

/-- Characters that end no line are on the line of those in front of them. -/
theorem takeWhile_unbroken {mid front : List Char} (h : '\n' ∉ mid) :
    (mid.reverse ++ front).takeWhile (· ≠ '\n') = mid.reverse ++ front.takeWhile (· ≠ '\n') := by
  refine List.takeWhile_append_of_pos fun c hc ↦ ?_
  rw [decide_eq_true_iff]
  rintro rfl
  exact h (List.mem_reverse.1 hc)

/-- Lines count by their ends, and columns by the characters since the last of them. -/
theorem Splits.location_eq (h : s.Splits offset lines last) :
    s.location offset = ⟨s.name, 1 + (lines ++ last).count '\n', 1 + last.length⟩ := by
  obtain ⟨after, hcode⟩ := h.code
  have hlines : lines.reverse.takeWhile (fun c ↦ decide (c ≠ '\n')) = [] := by
    have hwhole := h.whole
    rw [List.getLast?_eq_head?_reverse] at hwhole
    cases hreverse : lines.reverse with
    | nil => rfl
    | cons c cs =>
      rw [hreverse] at hwhole
      rw [hwhole c rfl]
      rfl
  rw [← h.bytes, location_append hcode, List.reverse_append, takeWhile_unbroken h.unbroken, hlines,
    List.append_nil, List.length_reverse, Nat.add_comm, Nat.add_comm 1 last.length]

/-! ## Places and offsets -/

/-- Of two offsets between characters, the later one is the later place. -/
theorem location_before {later : Nat} (h : (⟨offset⟩ : String.Pos.Raw).IsValid s.code)
    (hlater : (⟨later⟩ : String.Pos.Raw).IsValid s.code) (hlt : offset < later) :
    (s.location offset).Before (s.location later) := by
  obtain ⟨before, after, hcode, rfl⟩ := exists_append h
  obtain ⟨before', after', hcode', rfl⟩ := exists_append hlater
  obtain ⟨mid, hmid, rfl⟩ := exists_eq_append_of_byteLength_lt (hcode.symm.trans hcode') hlt
  rw [location_append hcode, location_append hcode']
  by_cases hline : '\n' ∈ mid
  · left
    have hcount := List.count_pos_iff.2 hline
    dsimp only
    rw [List.count_append]
    omega
  · right
    have hlength := List.length_pos_iff.2 hmid
    dsimp only
    rw [List.count_append, List.count_eq_zero.2 hline, List.reverse_append, takeWhile_unbroken hline,
      List.length_append, List.length_reverse]
    omega

/-- The line and the column of an offset say which offset it is. -/
theorem offsetOf_location (h : (⟨offset⟩ : String.Pos.Raw).IsValid s.code) :
    s.offsetOf (s.location offset) = offset := by
  obtain ⟨before, after, hcode, rfl⟩ := exists_append h
  obtain ⟨lines, last, rfl, hsplits⟩ := exists_splits hcode
  have hcount : (lines ++ last).count '\n' = lines.count '\n' := by
    rw [List.count_append, List.count_eq_zero.2 hsplits.unbroken, Nat.add_zero]
  rw [hsplits.location_eq, offsetOf, hcode, hcount, Nat.add_sub_cancel_left, Nat.add_sub_cancel_left,
    List.append_assoc, bytesPassed_lines hsplits.whole, List.take_left, byteLength_append]

/-- Behind the end there is no place but the end. -/
theorem location_of_le (h : s.code.utf8ByteSize ≤ offset) :
    s.location offset = s.location s.code.utf8ByteSize := by
  have hend : s.before s.code.utf8ByteSize = s.code.toList := by
    have hsplit := splitAtByte_byteLength s.code.toList []
    rw [List.append_nil, byteLength_toList] at hsplit
    rw [Source.before, hsplit]
  have hbefore : s.before offset = s.code.toList := by
    rcases Nat.eq_or_lt_of_le h with rfl | hlt
    · exact hend
    · rw [Source.before, splitAtByte_eq_none (byteLength_toList s.code ▸ hlt)]
  rw [location, location, hbefore, hend]

/-- **Locations are exact.**  An offset between characters has the line and the column that a reader counts.  They get
later with the offset, so they say which offset it is, and `offsetOf` finds it.  What is behind the end is at the
end. -/
theorem location_exact (s : Source) :
    (∀ offset, (⟨offset⟩ : String.Pos.Raw).IsValid s.code → ∃ lines last, s.Splits offset lines last ∧
      s.location offset = ⟨s.name, 1 + (lines ++ last).count '\n', 1 + last.length⟩) ∧
    (∀ offset later, (⟨offset⟩ : String.Pos.Raw).IsValid s.code → (⟨later⟩ : String.Pos.Raw).IsValid s.code →
      offset < later → (s.location offset).Before (s.location later)) ∧
    (∀ offset, (⟨offset⟩ : String.Pos.Raw).IsValid s.code → s.offsetOf (s.location offset) = offset) ∧
    ∀ offset, s.code.utf8ByteSize ≤ offset → s.location offset = s.location s.code.utf8ByteSize := by
  refine ⟨fun offset h ↦ ?_, fun _ _ ↦ location_before, fun _ ↦ offsetOf_location, fun _ ↦ location_of_le⟩
  obtain ⟨before, after, hcode, rfl⟩ := exists_append h
  obtain ⟨lines, last, rfl, hsplits⟩ := exists_splits hcode
  exact ⟨lines, last, hsplits, hsplits.location_eq⟩

/-- Behind a character of two bytes, columns are fewer than bytes. -/
theorem location_exact_wideCharacter :
    let s : Source := ⟨0, "[eval]", "aé\nb", none⟩
    ((⟨3⟩ : String.Pos.Raw).IsValid s.code ∧ (⟨4⟩ : String.Pos.Raw).IsValid s.code ∧ s.code.utf8ByteSize ≤ 9) ∧
      (∃ lines last, s.Splits 4 lines last ∧
        s.location 4 = ⟨"[eval]", 1 + (lines ++ last).count '\n', 1 + last.length⟩) ∧
      (s.location 3).Before (s.location 4) ∧ s.location 3 = ⟨"[eval]", 1, 3⟩ ∧
      s.offsetOf (s.location 3) = 3 ∧ s.location 9 = s.location 5 := by
  intro s
  have hthree : (⟨3⟩ : String.Pos.Raw).IsValid s.code :=
    String.Pos.Raw.isValid_iff_exists_append.2 ⟨"aé", "\nb", by decide, by decide⟩
  have hfour : (⟨4⟩ : String.Pos.Raw).IsValid s.code :=
    String.Pos.Raw.isValid_iff_exists_append.2 ⟨"aé\n", "b", by decide, by decide⟩
  have hnine : s.code.utf8ByteSize ≤ 9 := by decide
  obtain ⟨hexact, hbefore, hoffset, hbehind⟩ := location_exact s
  exact ⟨⟨hthree, hfour, hnine⟩, hexact 4 hfour, hbefore 3 4 hthree hfour (by decide), by decide, hoffset 3 hthree,
    hbehind 9 hnine⟩

end Source

end ValueShell
