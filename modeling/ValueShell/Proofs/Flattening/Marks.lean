import ValueShell.Syntax.Parser

/-!
# Marks: tokens and what they touch

The parser looks at two things about a token: which it is, and whether it touches the one before.  A `Mark` is
just that, and `Cursor.marks` is what a cursor has in front of it, wherever in the text that may be.

`Parser.Reads m marks P rest` says that in front of these marks the parser gives something of which `P` holds
and leaves off in front of the rest, whatever the spans of the tokens are.  There is one rule for each step that
parsers are put together from.  Since `Reads` does not mention cursors, a rule of the grammar is shown to read
what it should by following its definition, step by step.
-/

set_option autoImplicit false

namespace ValueShell

/-- A token, and whether it touches the one before. -/
structure Mark where
  touching : Bool
  token : Token
deriving DecidableEq, Repr

namespace Mark

/-- A token with a blank in front of it. -/
def apart (token : Token) : Mark :=
  ⟨false, token⟩

/-- A token right behind another. -/
def joined (token : Token) : Mark :=
  ⟨true, token⟩

/-- The token of the first mark. -/
def next? (marks : List Mark) : Option Token :=
  marks.head?.map (·.token)

/-- Does the first mark touch what is in front of it? -/
def firstTouches (marks : List Mark) : Bool :=
  marks.head?.any (·.touching)

/-- The tokens on a line of text, each taking one byte, with a blank between those that are apart. -/
def place (offset : Nat) : List Mark → List Spanned
  | [] => []
  | ⟨touching, token⟩ :: marks =>
    let start := if touching then offset else offset + 1
    ⟨token, ⟨start, start + 1⟩⟩ :: place (start + 1) marks

end Mark

/-! ## What a cursor has in front of it -/

/-- Tokens as marks, when what is in front of them ends at a place. -/
def Spanned.marks : Option Nat → List Spanned → List Mark
  | _, [] => []
  | behind, next :: rest => ⟨behind == some next.span.start, next.token⟩ :: marks (some next.span.stop) rest

/-- The marks in front of a cursor. -/
def Cursor.marks (c : Cursor) : List Mark :=
  Spanned.marks c.behind c.rest

theorem Spanned.marks_place (offset : Nat) (marks : List Mark) :
    Spanned.marks (some offset) (Mark.place offset marks) = marks := by
  induction marks generalizing offset with
  | nil => rfl
  | cons m marks ih =>
    obtain ⟨touching, token⟩ := m
    rw [Mark.place]
    cases touching <;> simp [Spanned.marks, ih]

/-- In front of the first token there is nothing to touch. -/
theorem Spanned.marks_place_first (token : Token) (marks : List Mark) :
    Spanned.marks none (Mark.place 0 (.apart token :: marks)) = .apart token :: marks := by
  rw [Mark.apart, Mark.place, Spanned.marks, Spanned.marks_place]
  rfl

theorem Mark.length_place (offset : Nat) (marks : List Mark) :
    (Mark.place offset marks).length = marks.length := by
  induction marks generalizing offset with
  | nil => rfl
  | cons m marks ih => rw [Mark.place, List.length_cons, List.length_cons, ih]

namespace Cursor

variable {c : Cursor} {m : Mark} {marks : List Mark}

theorem next?_eq (c : Cursor) : c.next? = Mark.next? c.marks := by
  obtain ⟨rest, behind, finish⟩ := c
  cases rest <;> rfl

theorem touches_eq (c : Cursor) : c.touches = Mark.firstTouches c.marks := by
  obtain ⟨rest, behind, finish⟩ := c
  cases rest with
  | nil => rfl
  | cons next rest => simp [touches, marks, Spanned.marks, Mark.firstTouches]

theorem marks_tail (c : Cursor) : c.tail.marks = c.marks.tail := by
  obtain ⟨rest, behind, finish⟩ := c
  cases rest <;> rfl

theorem marks_skip_go (p : Token → Bool) (c : Cursor) (rest : List Spanned) (behind : Option Nat) :
    (skip.go p c rest behind).marks = (Spanned.marks behind rest).dropWhile (p ·.token) := by
  induction rest generalizing behind with
  | nil => rfl
  | cons next rest ih =>
    have hmarks : Spanned.marks behind (next :: rest) =
      ⟨behind == some next.span.start, next.token⟩ :: Spanned.marks (some next.span.stop) rest := rfl
    rw [skip.go, hmarks]
    by_cases h : p next.token = true
    · rw [if_pos h, List.dropWhile_cons_of_pos (by exact h)]
      exact ih _
    · rw [if_neg h, List.dropWhile_cons_of_neg (by exact h)]
      rfl

theorem marks_skip (p : Token → Bool) (c : Cursor) :
    (c.skip p).marks = c.marks.dropWhile (p ·.token) :=
  marks_skip_go p c c.rest c.behind

end Cursor

/-! ## Parsers in front of marks -/

namespace Parser

variable {α β : Type} {m : Parser α} {f : α → Parser β} {marks rest rest' : List Mark}
  {P P' : α → Prop} {Q : β → Prop} {mark : Mark}

/-- In front of the marks, the parser gives something of which `P` holds, and leaves off in front of the
rest. -/
def Reads (m : Parser α) (marks : List Mark) (P : α → Prop) (rest : List Mark) : Prop :=
  ∀ c : Cursor, c.marks = marks → ∃ a c', m c = .ok (a, c') ∧ P a ∧ c'.marks = rest

namespace Reads

theorem consequence (h : Reads m marks P rest) (hp : ∀ a, P a → P' a) : Reads m marks P' rest := by
  intro c hc
  obtain ⟨a, c', hm, ha, hc'⟩ := h c hc
  exact ⟨a, c', hm, hp a ha, hc'⟩

theorem pure {a : α} (h : P a) : Reads (Pure.pure a) marks P marks :=
  fun c hc ↦ ⟨a, c, rfl, h, hc⟩

theorem bind (h : Reads m marks P rest) (hf : ∀ a, P a → Reads (f a) rest Q rest') :
    Reads (m >>= f) marks Q rest' := by
  intro c hc
  obtain ⟨a, c₁, hm, ha, hc₁⟩ := h c hc
  obtain ⟨b, c₂, hfa, hb, hc₂⟩ := hf a ha c₁ hc₁
  refine ⟨b, c₂, ?_, hb, hc₂⟩
  change (m c >>= fun x ↦ f x.1 x.2) = .ok (b, c₂)
  rw [hm]
  exact hfa

/-- What is known to come out first may be put into what follows. -/
theorem follow {a : α} (h : Reads m marks (· = a) rest) (hf : Reads (f a) rest Q rest') :
    Reads (m >>= f) marks Q rest' :=
  h.bind fun _ ha ↦ ha ▸ hf

theorem here : Reads Parser.here marks (fun _ ↦ True) marks :=
  fun c hc ↦ ⟨c.here, c, rfl, trivial, hc⟩

theorem spanFrom {start : Nat} : Reads (Parser.spanFrom start) marks (fun _ ↦ True) marks :=
  fun c hc ↦ ⟨⟨start, c.lastEnd⟩, c, rfl, trivial, hc⟩

theorem peek : Reads Parser.peek marks (· = Mark.next? marks) marks :=
  fun c hc ↦ ⟨c.next?, c, rfl, by rw [c.next?_eq, hc], hc⟩

theorem touches : Reads Parser.touches marks (· = Mark.firstTouches marks) marks :=
  fun c hc ↦ ⟨c.touches, c, rfl, by rw [c.touches_eq, hc], hc⟩

theorem wordTouches : Reads Parser.wordTouches marks
    (· = (Mark.firstTouches marks && (Mark.next? marks).any Token.startsWord)) marks :=
  fun c hc ↦ ⟨_, c, rfl, by rw [c.touches_eq, c.next?_eq, hc], hc⟩

theorem wordContinues : Reads Parser.wordContinues marks
    (· = (Mark.firstTouches marks && (Mark.next? marks).any Token.continuesWord)) marks :=
  fun c hc ↦ ⟨_, c, rfl, by rw [c.touches_eq, c.next?_eq, hc], hc⟩

theorem advance : Reads Parser.advance (mark :: rest) (· = some mark.token) rest :=
  fun c hc ↦ ⟨c.next?, c.tail, rfl, by rw [c.next?_eq, hc]; rfl, by rw [c.marks_tail, hc]; rfl⟩

theorem discard : Reads (discard Parser.advance) (mark :: rest) (fun _ ↦ True) rest :=
  fun c hc ↦ ⟨(), c.tail, rfl, trivial, by rw [c.marks_tail, hc]; rfl⟩

theorem expect {token : Token} (h : mark.token = token) :
    Reads (Parser.expect token) (mark :: rest) (fun _ ↦ True) rest := by
  refine .follow .peek ?_
  have hnext : Mark.next? (mark :: rest) = some token := congrArg some h
  rw [if_pos hnext]
  exact .discard

theorem skipNewlines (h : Mark.next? marks ≠ some .newline) :
    Reads Parser.skipNewlines marks (fun _ ↦ True) marks := by
  refine fun c hc ↦ ⟨(), c.skip (· = .newline), rfl, trivial, ?_⟩
  rw [c.marks_skip, hc]
  cases marks with
  | nil => rfl
  | cons m marks =>
    have hm : ¬ m.token = .newline := fun hm ↦ h (congrArg some hm)
    exact List.dropWhile_cons_of_neg (by simpa using hm)

/-- Semicolons and line ends do not start a word, so words are not passed over. -/
theorem skipSeparators {sep : List Mark} (hsep : ∀ m ∈ sep, m.token = .newline ∨ m.token = .semicolon)
    (h : Mark.next? rest ≠ some .newline) (h' : Mark.next? rest ≠ some .semicolon) :
    Reads Parser.skipSeparators (sep ++ rest) (fun _ ↦ True) rest := by
  refine fun c hc ↦ ⟨(), _, rfl, trivial, ?_⟩
  rw [c.marks_skip, hc, List.dropWhile_append_of_pos fun m hm ↦ by simpa using hsep m hm]
  cases rest with
  | nil => rfl
  | cons m rest =>
    have hm : ¬ m.token = .newline := fun hm ↦ h (congrArg some hm)
    have hm' : ¬ m.token = .semicolon := fun hm ↦ h' (congrArg some hm)
    exact List.dropWhile_cons_of_neg (by simp [hm, hm'])

end Reads

end Parser

end ValueShell
