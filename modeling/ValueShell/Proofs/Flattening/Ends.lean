import ValueShell.Proofs.Flattening.Trees

/-!
# Where the parts of a tree end

How far a rule of the grammar reads depends on what stands behind.  A word ends in front of `Mark.Breaks`, the
items of a form in front of `Mark.EndsItem`, and a form, a pipeline and a chunk in front of `Mark.EndsForm`,
`Mark.EndsPipeline` and `Mark.EndsChunk`.

In flat trees one part stands behind another, so these are shown of what the marks of each kind of part start
with: `Primary.marks_eq`, `Compound.marks_eq`, `Form.marks_eq` and `Pipeline.marks_eq` give the first mark.
-/

set_option autoImplicit false

namespace ValueShell

/-! ## What stands behind -/

namespace Mark

variable {rest marks : List Mark} {token : Token} {touching : Bool} {close : Option Token}

/-- The word read so far ends here. -/
def Breaks (rest : List Mark) : Prop :=
  firstTouches rest = true → ∀ token ∈ next? rest, token.continuesWord = false ∧ token ≠ .lbracket

/-- No further index follows. -/
def NoIndex (rest : List Mark) : Prop :=
  firstTouches rest = true → next? rest ≠ some .lbracket

/-- What follows a command word, or an option without a value, ends here. -/
def EndsItem (rest : List Mark) : Prop :=
  Breaks rest ∧ (firstTouches rest = true → next? rest ≠ some .eq)

/-- A pipeline ends here. -/
def EndsPipeline (rest : List Mark) : Prop :=
  next? rest = none ∨ next? rest = some .semicolon ∨ next? rest = some .rparen ∨ next? rest = some .rbrace

/-- A form ends here. -/
def EndsForm (rest : List Mark) : Prop :=
  next? rest = some .pipe ∨ EndsPipeline rest

/-- A chunk up to the closing token ends here. -/
def EndsChunk (close : Option Token) (rest : List Mark) : Prop :=
  next? rest = close ∧ (close = none ∨ close = some .rparen ∨ close = some .rbrace)

theorem next?_cons_ne {m : Mark} (h : m.token ≠ token) : next? (m :: rest) ≠ some token :=
  fun hnext ↦ h (Option.some.inj hnext)

theorem breaks_apart : Breaks (.apart token :: rest) := by
  intro h
  cases h

theorem breaks_cons (hcontinues : token.continuesWord = false) (hbracket : token ≠ .lbracket) :
    Breaks (⟨touching, token⟩ :: rest) := by
  intro _ t ht
  obtain rfl : token = t := Option.some.inj ht
  exact ⟨hcontinues, hbracket⟩

theorem Breaks.continues (h : Breaks rest) :
    (firstTouches rest && (next? rest).any Token.continuesWord) = false := by
  cases htouches : firstTouches rest with
  | false => rfl
  | true =>
    cases hnext : next? rest with
    | none => rfl
    | some token => exact (h htouches token hnext).1

theorem Breaks.noIndex (h : Breaks rest) : NoIndex rest :=
  fun htouches hnext ↦ (h htouches _ hnext).2 rfl

theorem endsItem_apart : EndsItem (.apart token :: rest) := by
  refine ⟨breaks_apart, fun h ↦ ?_⟩
  cases h

theorem EndsPipeline.ne_pipe (h : EndsPipeline rest) : next? rest ≠ some .pipe := by
  obtain h | h | h | h := h <;> rw [h] <;> decide

theorem EndsChunk.ne_newline (h : EndsChunk close rest) : next? rest ≠ some .newline := by
  obtain ⟨hnext, rfl | rfl | rfl⟩ := h <;> rw [hnext] <;> decide

theorem EndsChunk.ne_semicolon (h : EndsChunk close rest) : next? rest ≠ some .semicolon := by
  obtain ⟨hnext, rfl | rfl | rfl⟩ := h <;> rw [hnext] <;> decide

/-- Further forms stand behind a pipe. -/
theorem EndsForm.others {fs : List Form} (hrest : EndsPipeline rest) : EndsForm (Form.otherMarks fs ++ rest) := by
  cases fs with
  | nil => rw [Form.otherMarks]; exact .inr hrest
  | cons f fs => rw [Form.otherMarks]; exact .inl rfl

theorem EndsForm.endsItem (h : EndsForm rest) : EndsItem rest := by
  constructor
  · intro _ token htoken
    obtain h | h | h | h | h := h <;> rw [h] at htoken <;> cases htoken <;> decide
  · intro _ heq
    obtain h | h | h | h | h := h <;> rw [h] at heq <;> cases heq

theorem EndsChunk.endsPipeline (h : EndsChunk close rest) : EndsPipeline rest := by
  obtain ⟨hnext, rfl | rfl | rfl⟩ := h
  · exact .inl hnext
  · exact .inr (.inr (.inl hnext))
  · exact .inr (.inr (.inr hnext))

end Mark

theorem Token.ne_of_startsWord {next : Option Token} {other : Token} (h : next.any startsWord = true)
    (h' : other.startsWord = false) : next ≠ some other := by
  rintro rfl
  exact absurd (h.symm.trans h') (by decide)

/-! ## What the marks of a tree start with -/

theorem Primary.marks_eq (touching : Bool) (p : Primary) :
    ∃ token marks, p.marks touching = ⟨touching, token⟩ :: marks ∧ token.startsWord = true ∧
      token.continuesWord = p.continues := by
  cases p with
  | map ps => cases ps <;> simp [Primary.marks, Token.startsWord, Token.continuesWord, Primary.continues]
  | _ => simp [Primary.marks, Token.startsWord, Token.continuesWord, Primary.continues]

theorem Indexed.marks_eq (touching : Bool) (part : Indexed) :
    ∃ token marks, part.marks touching = ⟨touching, token⟩ :: marks ∧ token.startsWord = true ∧
      token.continuesWord = part.head.continues := by
  obtain ⟨span, head, indices⟩ := part
  obtain ⟨token, marks, hmarks, htoken⟩ := head.marks_eq touching
  exact ⟨token, marks ++ indexMarks indices, by rw [Indexed.marks, hmarks, List.cons_append], htoken⟩

theorem Compound.marks_eq (touching : Bool) {w : Compound} (h : w.WellFormed) :
    ∃ token marks, w.marks touching = ⟨touching, token⟩ :: marks ∧ token.startsWord = true := by
  obtain ⟨span, parts⟩ := w
  cases parts with
  | nil => rw [Compound.WellFormed] at h; exact h.elim
  | cons part parts =>
    obtain ⟨token, marks, hmarks, htoken, -⟩ := part.marks_eq touching
    exact ⟨token, marks ++ Indexed.otherMarks parts, by rw [Compound.marks, hmarks, List.cons_append], htoken⟩

section Words

variable {w : Compound} (h : w.WellFormed) (touching : Bool) (rest : List Mark)

include h

theorem Compound.length_pos : 0 < (w.marks touching).length := by
  obtain ⟨token, marks, hmarks, -⟩ := Compound.marks_eq touching h
  rw [hmarks]
  exact Nat.succ_pos _

theorem Compound.startsWord : (Mark.next? (w.marks touching ++ rest)).any Token.startsWord = true := by
  obtain ⟨token, marks, hmarks, hstart⟩ := Compound.marks_eq touching h
  rw [hmarks]
  exact hstart

omit touching in
theorem Compound.wordTouches : (Mark.firstTouches (w.marks true ++ rest) &&
    (Mark.next? (w.marks true ++ rest)).any Token.startsWord) = true := by
  obtain ⟨token, marks, hmarks, hstart⟩ := Compound.marks_eq true h
  rw [hmarks]
  exact hstart

end Words

theorem Form.marks_eq {f : Form} (h : f.WellFormed) :
    ∃ token marks, f.marks = .apart token :: marks ∧ token.startsWord = true := by
  obtain ⟨span, head, items, redirs⟩ := f
  rw [Form.WellFormed] at h
  obtain ⟨token, marks, hmarks, htoken⟩ := head.marks_eq false h.1
  exact ⟨token, marks ++ (Item.allMarks items ++ Redir.allMarks redirs),
    by rw [Form.marks, hmarks, List.cons_append]; rfl, htoken⟩

theorem Pipeline.marks_eq {p : Pipeline} (h : p.WellFormed) :
    ∃ token marks, p.marks = .apart token :: marks ∧ token.startsWord = true := by
  obtain ⟨span, forms⟩ := p
  rw [Pipeline.WellFormed] at h
  cases forms with
  | nil => exact absurd rfl h.1
  | cons f fs =>
    rw [Form.AllWellFormed] at h
    obtain ⟨token, marks, hmarks, htoken⟩ := Form.marks_eq h.2.1
    exact ⟨token, marks ++ Form.otherMarks fs, by rw [Pipeline.marks, hmarks, List.cons_append], htoken⟩

/-- Behind the first pipeline, the others are a chunk with a semicolon in front of it. -/
theorem Pipeline.otherMarks_eq (ps : List Pipeline) :
    ∃ sep, (∀ m ∈ sep, m.token = .newline ∨ m.token = .semicolon) ∧
      Pipeline.otherMarks ps = sep ++ Chunk.marks ⟨ps⟩ := by
  cases ps with
  | nil => exact ⟨[], by simp, by rw [Pipeline.otherMarks, Chunk.marks]; rfl⟩
  | cons p ps => exact ⟨[.apart .semicolon], by simp [Mark.apart], by rw [Pipeline.otherMarks, Chunk.marks]; rfl⟩

/-- In front of words and a bracket stands neither a line end nor a sign. -/
theorem Compound.next?_allMarks {ws : List Compound} (h : Compound.AllWellFormed ws) (rest : List Mark)
    (mark : Mark) (hmark : mark.token = .rbracket) :
    Mark.next? (Compound.allMarks ws ++ mark :: rest) ≠ some .newline ∧
      Mark.next? (Compound.allMarks ws ++ mark :: rest) ≠ some .amp := by
  cases ws with
  | nil => simp [Compound.allMarks, Mark.next?, hmark]
  | cons w ws =>
    rw [Compound.AllWellFormed] at h
    rw [Compound.allMarks, List.append_assoc]
    have hstart := Compound.startsWord h.1 false (Compound.allMarks ws ++ mark :: rest)
    exact ⟨Token.ne_of_startsWord hstart rfl, Token.ne_of_startsWord hstart rfl⟩

/-- The first token of a chunk does not touch what is in front of it. -/
theorem Chunk.firstTouches_marks {c : Chunk} (h : c.WellFormed) (token : Token) (rest : List Mark) :
    Mark.firstTouches (c.marks ++ .apart token :: rest) = false := by
  obtain ⟨pipelines⟩ := c
  cases pipelines with
  | nil => rw [Chunk.marks]; rfl
  | cons p ps =>
    rw [Chunk.WellFormed, Pipeline.AllWellFormed] at h
    obtain ⟨first, marks, hmarks, -⟩ := Pipeline.marks_eq h.1
    rw [Chunk.marks, hmarks]
    rfl

/-- A lambda with a signature. -/
theorem Lambda.marks_eq {l : Lambda} (h : ¬ (l.params = [] ∧ l.options = [] ∧ l.restOptions = none)) :
    l.marks = .joined .pipe :: (l.params.map (.apart ·.token) ++ (Compound.defaultMarks l.options ++
      (Lambda.restMarks l.restOptions ++ .apart .pipe :: (l.body.marks ++ [.apart .rbrace])))) := by
  obtain ⟨span, params, options, restOptions, body⟩ := l
  rw [Lambda.marks]
  rintro rfl rfl rfl
  exact h ⟨rfl, rfl, rfl⟩

theorem Pipeline.others_end (ps : List Pipeline) {close : Option Token} {rest : List Mark}
    (h : Mark.EndsChunk close rest) :
    Mark.next? (Pipeline.otherMarks ps ++ rest) = some .semicolon ∨
      Mark.EndsChunk close (Pipeline.otherMarks ps ++ rest) := by
  cases ps with
  | nil => rw [Pipeline.otherMarks]; exact .inr h
  | cons p ps => rw [Pipeline.otherMarks]; exact .inl rfl

theorem Item.length_pos {i : Item} (h : i.WellFormed) : 0 < i.marks.length := by
  cases i with
  | arg word =>
    rw [Item.WellFormed] at h
    rw [Item.marks]
    exact Compound.length_pos h false
  | opt span name value => cases value <;> exact Nat.succ_pos _
  | eq span => exact Nat.succ_pos _

theorem Redir.length_pos (r : Redir) : 0 < r.marks.length := by
  obtain ⟨span, fd, mode, target⟩ := r
  cases target <;> exact Nat.succ_pos _

theorem Lambda.length_pos (l : Lambda) : 0 < l.marks.length := by
  by_cases h : l.params = [] ∧ l.options = [] ∧ l.restOptions = none
  · obtain ⟨span, params, options, restOptions, body⟩ := l
    obtain ⟨rfl, rfl, rfl⟩ := h
    rw [Lambda.marks, List.length_append, List.length_singleton]
    exact Nat.succ_pos _
  · rw [Lambda.marks_eq h]
    exact Nat.succ_pos _

/-- The marks of the flat tokens are those of the chunk: the first has nothing to touch. -/
theorem Chunk.marks_flatten (c : Chunk) (h : c.WellFormed) : Spanned.marks none c.flatten = c.marks := by
  obtain ⟨pipelines⟩ := c
  rw [Chunk.flatten]
  cases pipelines with
  | nil => rw [Chunk.marks]; rfl
  | cons p ps =>
    rw [Chunk.WellFormed, Pipeline.AllWellFormed] at h
    obtain ⟨token, marks, hmarks, -⟩ := Pipeline.marks_eq h.1
    rw [Chunk.marks, hmarks]
    exact Spanned.marks_place_first token _

namespace Mark.Breaks

variable {rest : List Mark}

theorem words {ws : List Compound} (h : Compound.AllWellFormed ws) (hrest : Breaks rest) :
    Breaks (Compound.allMarks ws ++ rest) := by
  cases ws with
  | nil => rw [Compound.allMarks]; exact hrest
  | cons w ws =>
    rw [Compound.AllWellFormed] at h
    obtain ⟨token, marks, hmarks, -⟩ := Compound.marks_eq false h.1
    rw [Compound.allMarks, hmarks]
    exact breaks_apart

theorem parts {parts : List Indexed} (h : Indexed.AllContinue parts) (hrest : Breaks rest) :
    NoIndex (Indexed.otherMarks parts ++ rest) := by
  cases parts with
  | nil => rw [Indexed.otherMarks]; exact hrest.noIndex
  | cons part parts =>
    rw [Indexed.AllContinue] at h
    obtain ⟨token, marks, hmarks, -, hcontinues⟩ := part.marks_eq true
    rw [Indexed.otherMarks, hmarks]
    rintro - hnext
    obtain rfl : token = .lbracket := Option.some.inj hnext
    rw [h.1] at hcontinues
    cases hcontinues

theorem pairs {ps : List (Compound × Compound)} (hrest : Breaks rest) :
    Breaks (Compound.pairMarks ps ++ rest) := by
  cases ps with
  | nil => rw [Compound.pairMarks]; exact hrest
  | cons p ps => rw [Compound.pairMarks]; exact breaks_apart

theorem defaults {options : List (String × Compound)} (hrest : Breaks rest) :
    Breaks (Compound.defaultMarks options ++ rest) := by
  cases options with
  | nil => rw [Compound.defaultMarks]; exact hrest
  | cons o options => rw [Compound.defaultMarks]; exact breaks_apart

theorem restName {restOptions : Option String} (hrest : Breaks rest) :
    Breaks (Lambda.restMarks restOptions ++ rest) := by
  cases restOptions with
  | none => rw [Lambda.restMarks]; exact hrest
  | some name => rw [Lambda.restMarks]; exact breaks_apart

end Mark.Breaks

namespace Mark.EndsItem

variable {rest : List Mark}

theorem redirs {redirs : List Redir} (hrest : EndsItem rest) : EndsItem (Redir.allMarks redirs ++ rest) := by
  cases redirs with
  | nil => rw [Redir.allMarks]; exact hrest
  | cons r redirs =>
    obtain ⟨span, fd, mode, target⟩ := r
    cases target <;> exact endsItem_apart

theorem items {items : List Item} (h : Item.AllWellFormed items) (hrest : EndsItem rest) :
    EndsItem (Item.allMarks items ++ rest) := by
  cases items with
  | nil => rw [Item.allMarks]; exact hrest
  | cons i items =>
    rw [Item.AllWellFormed] at h
    rw [Item.allMarks]
    cases i with
    | arg word =>
      rw [Item.WellFormed] at h
      obtain ⟨token, marks, hmarks, -⟩ := Compound.marks_eq false h.1
      rw [Item.marks, hmarks]
      exact endsItem_apart
    | opt span name value => cases value <;> exact endsItem_apart
    | eq span => exact endsItem_apart

end Mark.EndsItem

end ValueShell
