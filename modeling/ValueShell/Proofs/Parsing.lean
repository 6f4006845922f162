import ValueShell.Syntax.Parser

/-!
# How the parser reads

What each rule of the grammar makes of the tokens in front of it, as one equation for each: given what the
rules it calls make of theirs, this is its tree and where it leaves off.  Together they are the successful runs
of the parser, and nothing else about it is used to show that a text has a certain tree.

What comes behind a part matters for where it ends.  `Cursor.Breaks` says that no index and no further part of a
word follows, and `Cursor.Closes` that a chunk is at its end.
-/

set_option autoImplicit false

namespace ValueShell

/-- The first of two computations has gone well. -/
theorem bind_eq {σ ε α β : Type} {m : StateT σ (Except ε) α} {f : α → StateT σ (Except ε) β} {a : α}
    {s s' : σ} (h : m s = .ok (a, s')) : (m >>= f) s = f a s' := by
  change (m s >>= fun x ↦ f x.1 x.2) = f a s'
  rw [h]
  rfl

namespace Cursor

/-- The word read so far ends here. -/
def Breaks (c : Cursor) : Prop :=
  c.touches = true → ∀ token ∈ c.next?, token.continuesWord = false ∧ token ≠ .lbracket

/-- A chunk between parentheses, or that of a whole text, ends here. -/
def Closes (c : Cursor) (close : Option Token) : Prop :=
  c.next? = close ∧ (close = none ∨ close = some .rparen)

variable {c : Cursor} {token : Token} {p : Token → Bool}

@[simp] theorem next?_cons {span : Span} {rest : List Spanned} {behind : Option Nat} {finish : Nat} :
    next? ⟨⟨token, span⟩ :: rest, behind, finish⟩ = some token :=
  rfl

/-- There is nothing to pass over in front of other tokens. -/
theorem skip_eq (h : ∀ token ∈ c.next?, p token = false) : c.skip p = c := by
  obtain ⟨rest, behind, finish⟩ := c
  cases rest with
  | nil => rfl
  | cons next rest =>
    have hp : p next.token = false := h _ rfl
    rw [skip, skip.go, if_neg (by rw [hp]; decide)]

end Cursor

namespace Parser

variable {c c₁ c₂ : Cursor} {n : Nat} {token : Token} {span : Span} {rest : List Spanned}
  {behind : Option Nat} {finish : Nat}

theorem skipNewlines_eq (h : c.next? ≠ some .newline) : skipNewlines c = .ok ((), c) := by
  rw [skipNewlines, Cursor.skip_eq]
  rintro token htoken
  rw [decide_eq_false_iff_not]
  rintro rfl
  exact h htoken

theorem skipSeparators_eq (h : c.next? ≠ some .newline) (hs : c.next? ≠ some .semicolon) :
    skipSeparators c = .ok ((), c) := by
  rw [skipSeparators, Cursor.skip_eq]
  rintro token htoken
  rw [Bool.or_eq_false_iff, decide_eq_false_iff_not, decide_eq_false_iff_not]
  constructor
  · rintro rfl
    exact h htoken
  · rintro rfl
    exact hs htoken

theorem here_eq : here c = .ok (c.here, c) :=
  rfl

theorem peek_eq : peek c = .ok (c.next?, c) :=
  rfl

theorem touches_eq : Parser.touches c = .ok (c.touches, c) :=
  rfl

theorem advance_eq : advance ⟨⟨token, span⟩ :: rest, behind, finish⟩ =
    .ok (some token, ⟨rest, some span.stop, finish⟩) :=
  rfl

theorem discard_eq : (discard advance : Parser Unit) ⟨⟨token, span⟩ :: rest, behind, finish⟩ =
    .ok ((), ⟨rest, some span.stop, finish⟩) :=
  rfl

theorem expect_eq : expect token ⟨⟨token, span⟩ :: rest, behind, finish⟩ =
    .ok ((), ⟨rest, some span.stop, finish⟩) := by
  rw [expect, bind_eq peek_eq, Cursor.next?_cons, if_pos rfl]
  rfl

/-! ## Words -/

theorem primary_bareword {text : String} :
    primary (n + 1) ⟨⟨.bareword text, span⟩ :: rest, behind, finish⟩ =
      .ok (.bareword text, ⟨rest, some span.stop, finish⟩) := by
  rw [primary]
  rfl

theorem primary_quoted {text : String} :
    primary (n + 1) ⟨⟨.quoted text, span⟩ :: rest, behind, finish⟩ =
      .ok (.quoted text, ⟨rest, some span.stop, finish⟩) := by
  rw [primary]
  rfl

theorem primary_variable {name : String} {explode : Bool} (h : name.isEmpty = false) :
    primary (n + 1) ⟨⟨.variable name explode, span⟩ :: rest, behind, finish⟩ =
      .ok (.variable name explode, ⟨rest, some span.stop, finish⟩) := by
  rw [primary, bind_eq here_eq, bind_eq advance_eq]
  dsimp only
  rw [if_neg (by rw [h]; decide)]
  rfl

theorem primary_capture {inside : Chunk} {start stop start' stop' : Nat} {rest' : List Spanned}
    {behind' : Option Nat}
    (h : chunk (some .rparen) n ⟨rest, some stop, finish⟩ =
      .ok (inside, ⟨⟨.rparen, ⟨start', stop'⟩⟩ :: rest', behind', finish⟩)) :
    primary (n + 1) ⟨⟨.lparen, ⟨start, stop⟩⟩ :: rest, behind, finish⟩ =
      .ok (.capture inside, ⟨rest', some stop', finish⟩) := by
  rw [primary, bind_eq here_eq, bind_eq advance_eq]
  dsimp only
  rw [bind_eq h, bind_eq expect_eq]
  rfl

theorem primary_list {words : List Compound} (hline : Cursor.next? ⟨rest, some span.stop, finish⟩ ≠ some .newline)
    (hamp : Cursor.next? ⟨rest, some span.stop, finish⟩ ≠ some .amp)
    (h : wordsUntil .rbracket n ⟨rest, some span.stop, finish⟩ = .ok (words, c)) :
    primary (n + 1) ⟨⟨.lbracket, span⟩ :: rest, behind, finish⟩ = .ok (.list words, c) := by
  rw [primary, bind_eq here_eq, bind_eq advance_eq]
  dsimp only
  rw [bind_eq (skipNewlines_eq hline), bind_eq peek_eq, if_neg hamp, bind_eq h]
  rfl

theorem primary_map {ps : List (Compound × Compound)}
    (hamp : Cursor.next? ⟨rest, some span.stop, finish⟩ = some .amp)
    (h : pairs n ⟨rest, some span.stop, finish⟩ = .ok (ps, c)) :
    primary (n + 1) ⟨⟨.lbracket, span⟩ :: rest, behind, finish⟩ = .ok (.map ps, c) := by
  have hline : Cursor.next? ⟨rest, some span.stop, finish⟩ ≠ some .newline := by
    rw [hamp]
    decide
  rw [primary, bind_eq here_eq, bind_eq advance_eq]
  dsimp only
  rw [bind_eq (skipNewlines_eq hline), bind_eq peek_eq, if_pos hamp, bind_eq h]
  rfl

theorem indexLists_nil (h : c.Breaks) : indexLists (n + 1) c = .ok ([], c) := by
  rw [indexLists, bind_eq peek_eq, bind_eq touches_eq]
  cases hnext : c.next? with
  | none => rfl
  | some token =>
    cases htouches : c.touches with
    | false => cases token <;> rfl
    | true =>
      have hbracket := (h htouches token hnext).2
      cases token <;> first | rfl | exact absurd rfl hbracket

theorem moreParts_nil (h : c.Breaks) : moreParts (n + 1) c = .ok ([], c) := by
  have hcontinues : wordContinues c = .ok (false, c) := by
    rw [wordContinues]
    cases hnext : c.next? with
    | none => simp
    | some token =>
      cases htouches : c.touches with
      | false => simp
      | true => simp [(h htouches token hnext).1]
  rw [moreParts, bind_eq hcontinues]
  rfl

/-- A word of one part without indices. -/
theorem compound_single {p : Primary} (hfirst : primary n c = .ok (p, c₁)) (hlast : c₁.Breaks)
    (hn : 0 < n) :
    ∃ span span', compound (n + 2) c = .ok (⟨span, [⟨span', p, []⟩]⟩, c₁) := by
  obtain ⟨n, rfl⟩ : ∃ k, n = k + 1 := ⟨n - 1, by omega⟩
  have hindexed : indexed (n + 1 + 1) c = .ok (⟨⟨c.here, c₁.lastEnd⟩, p, []⟩, c₁) := by
    rw [indexed, bind_eq here_eq, bind_eq hfirst, bind_eq (indexLists_nil hlast)]
    rfl
  refine ⟨⟨c.here, c₁.lastEnd⟩, ⟨c.here, c₁.lastEnd⟩, ?_⟩
  rw [compound, bind_eq here_eq, bind_eq hindexed, bind_eq (moreParts_nil hlast)]
  rfl

theorem wordsUntil_nil {close : Token} (hclose : close ≠ .newline) :
    wordsUntil close (n + 1) ⟨⟨close, span⟩ :: rest, behind, finish⟩ =
      .ok ([], ⟨rest, some span.stop, finish⟩) := by
  rw [wordsUntil, bind_eq (skipNewlines_eq (by simpa using hclose)), bind_eq peek_eq, Cursor.next?_cons,
    if_pos rfl]
  rfl

theorem wordsUntil_cons {close : Token} {word : Compound} {words : List Compound}
    (hnext : c.next? = some token) (hstart : token.startsWord = true) (hclose : close.startsWord = false)
    (hfirst : compound n c = .ok (word, c₁)) (hothers : wordsUntil close n c₁ = .ok (words, c₂)) :
    wordsUntil close (n + 1) c = .ok (word :: words, c₂) := by
  have hne : c.next? ≠ some close := by
    rw [hnext]
    rintro ⟨⟩
    rw [hstart] at hclose
    cases hclose
  have hline : c.next? ≠ some .newline := by
    rw [hnext]
    rintro ⟨⟩
    cases hstart
  have hany : c.next?.any Token.startsWord = true := by
    rw [hnext]
    exact hstart
  rw [wordsUntil, bind_eq (skipNewlines_eq hline), bind_eq peek_eq, if_neg hne, if_pos hany,
    bind_eq hfirst, bind_eq hothers]
  rfl

theorem wordTouches_eq (hnext : c.next? = some token) (hstart : token.startsWord = true)
    (htouches : c.touches = true) : wordTouches c = .ok (true, c) := by
  rw [wordTouches, hnext, htouches]
  simp [hstart]

theorem pair_eq {key value : Compound} (hkey : wordTouches c = .ok (true, c))
    (hfirst : compound n c = .ok (key, ⟨⟨.eq, span⟩ :: rest, some span.start, finish⟩))
    (hvalue : wordTouches ⟨rest, some span.stop, finish⟩ = .ok (true, ⟨rest, some span.stop, finish⟩))
    (hsecond : compound n ⟨rest, some span.stop, finish⟩ = .ok (value, c₂)) :
    pair (n + 1) c = .ok ((key, value), c₂) := by
  have htouches : Cursor.touches ⟨⟨.eq, span⟩ :: rest, some span.start, finish⟩ = true := by
    simp [Cursor.touches]
  rw [pair, bind_eq hkey, if_pos rfl, bind_eq hfirst, bind_eq peek_eq, bind_eq touches_eq, htouches,
    Cursor.next?_cons]
  dsimp only
  rw [bind_eq discard_eq, bind_eq hvalue, if_pos rfl, bind_eq hsecond]
  rfl

theorem pairs_nil : pairs (n + 1) ⟨⟨.rbracket, span⟩ :: rest, behind, finish⟩ =
    .ok ([], ⟨rest, some span.stop, finish⟩) := by
  rw [pairs, bind_eq (skipNewlines_eq (by simp)), bind_eq peek_eq, Cursor.next?_cons, if_pos rfl]
  rfl

/-- A lone `&` counts for nothing. -/
theorem pairs_lone {ps : List (Compound × Compound)}
    (hbracket : Cursor.next? ⟨rest, some span.stop, finish⟩ = some .rbracket)
    (h : pairs n ⟨rest, some span.stop, finish⟩ = .ok (ps, c)) :
    pairs (n + 1) ⟨⟨.amp, span⟩ :: rest, behind, finish⟩ = .ok (ps, c) := by
  rw [pairs, bind_eq (skipNewlines_eq (by simp)), bind_eq peek_eq, Cursor.next?_cons, if_neg (by simp),
    bind_eq expect_eq, bind_eq peek_eq, if_pos hbracket, h]

theorem pairs_cons {p : Compound × Compound} {ps : List (Compound × Compound)}
    (hbracket : Cursor.next? ⟨rest, some span.stop, finish⟩ ≠ some .rbracket)
    (hfirst : pair n ⟨rest, some span.stop, finish⟩ = .ok (p, c₁)) (hothers : pairs n c₁ = .ok (ps, c₂)) :
    pairs (n + 1) ⟨⟨.amp, span⟩ :: rest, behind, finish⟩ = .ok (p :: ps, c₂) := by
  rw [pairs, bind_eq (skipNewlines_eq (by simp)), bind_eq peek_eq, Cursor.next?_cons, if_neg (by simp),
    bind_eq expect_eq, bind_eq peek_eq, if_neg hbracket, bind_eq hfirst, bind_eq hothers]
  rfl

/-! ## Commands -/

variable {close : Option Token}

theorem formRest_nil (h : c.Closes close) : formRest (n + 1) c = .ok (([], []), c) := by
  obtain ⟨hnext, rfl | rfl⟩ := h <;> rw [formRest, bind_eq peek_eq, hnext] <;> rfl

theorem formRest_arg {word : Compound} {items : List Item} {redirs : List Redir}
    (hnext : c.next? = some token) (hstart : token.startsWord = true)
    (hfirst : compound n c = .ok (word, c₁)) (hothers : formRest n c₁ = .ok ((items, redirs), c₂)) :
    formRest (n + 1) c = .ok ((.arg word :: items, redirs), c₂) := by
  rw [formRest, bind_eq peek_eq, hnext]
  cases token with
  | bareword | quoted | «variable» | lparen | lbracket | lbrace =>
    dsimp only
    rw [if_pos hstart, bind_eq hfirst, bind_eq hothers]
    rfl
  | _ => cases hstart

theorem form_eq {head : Compound} {items : List Item} {redirs : List Redir}
    (hnext : c.next? = some token) (hstart : token.startsWord = true)
    (hfirst : compound n c = .ok (head, c₁)) (hothers : formRest n c₁ = .ok ((items, redirs), c₂)) :
    form (n + 1) c = .ok (⟨⟨c.here, c₂.lastEnd⟩, head, items, redirs⟩, c₂) := by
  have hany : c.next?.any Token.startsWord = true := by
    rw [hnext]
    exact hstart
  rw [form, bind_eq here_eq, bind_eq peek_eq, if_pos hany, bind_eq hfirst, bind_eq hothers]
  rfl

/-- A pipeline of one form. -/
theorem pipeline_single {f : Form} (hfirst : form (n + 1) c = .ok (f, c₁)) (hclose : c₁.Closes close) :
    pipeline (n + 2) c = .ok (⟨⟨c.here, c₁.lastEnd⟩, [f]⟩, c₁) := by
  have hstages : stages (n + 1) c₁ = .ok ([], c₁) := by
    obtain ⟨hnext, rfl | rfl⟩ := hclose <;> rw [stages, bind_eq peek_eq, hnext] <;> rfl
  rw [pipeline, bind_eq here_eq, bind_eq hfirst, bind_eq hstages]
  rfl

theorem chunk_nil (h : c.Closes close) : chunk close (n + 1) c = .ok (⟨[]⟩, c) := by
  obtain ⟨hnext, rfl | rfl⟩ := h <;>
    rw [chunk, bind_eq (skipSeparators_eq (by simp [hnext]) (by simp [hnext])), bind_eq peek_eq, hnext] <;> rfl

/-- A chunk of one pipeline. -/
theorem chunk_single {first : Pipeline} (hnext : c.next? = some token) (hstart : token.startsWord = true)
    (hfirst : pipeline (n + 1) c = .ok (first, c₁)) (hclose : c₁.Closes close) :
    chunk close (n + 2) c = .ok (⟨[first]⟩, c₁) := by
  have hline : c.next? ≠ some .newline ∧ c.next? ≠ some .semicolon := by
    rw [hnext]
    constructor <;> rintro ⟨⟩ <;> cases hstart
  have hne : ¬ some token = close := by
    rintro rfl
    obtain ⟨-, h | h⟩ := hclose <;> cases h
    cases hstart
  have hend : endPipeline close c₁ = .ok ((), c₁) := by
    obtain ⟨hnext, rfl | rfl⟩ := hclose <;> rw [endPipeline, bind_eq peek_eq, hnext] <;> rfl
  rw [chunk, bind_eq (skipSeparators_eq hline.1 hline.2), bind_eq peek_eq, hnext]
  dsimp only
  rw [if_neg hne, bind_eq hfirst, bind_eq hend, bind_eq (chunk_nil hclose)]
  rfl

end Parser

end ValueShell
