import ValueShell.Proofs.Parsing
import ValueShell.Proofs.ReadBack.Pieces

/-!
# Written values as words

The pieces of a written value are read as one word of one part (`Value.reads`), and which part that is,
`Value.SpelledBy` says, spans aside: a variable for a constant, a word for a text, a command between parentheses
for a number, and brackets around what spells the items or entries.

Two things are settled on the way.  Pieces touch when nothing is skipped between them, so the blank behind an
item keeps the next one from being read as an index or as more of the same word.  And the steps of the parser
suffice: ten for each token are more than a written value takes.
-/

set_option autoImplicit false

namespace ValueShell

open Lexer (Piece place endOf)

namespace Lexer

/-! ## Tokens of pieces -/

variable {offset : Nat} {p : Piece} {ps qs : List Piece} {token : Token}

/-- The number of tokens among pieces. -/
def count (ps : List Piece) : Nat :=
  (ps.filterMap Piece.token).length

@[simp] theorem count_append : count (ps ++ qs) = count ps + count qs := by
  simp [count]

theorem count_token (h : p.token = some token) : count (p :: ps) = count ps + 1 := by
  rw [count, List.filterMap_cons_some h]
  rfl

theorem endOf_append : endOf offset (ps ++ qs) = endOf (endOf offset ps) qs :=
  List.foldl_append

theorem place_skipped (h : p.token = none) :
    place offset (p :: ps) = place (offset + byteLength p.text) ps := by
  rw [place, h]

theorem place_token (h : p.token = some token) : place offset (p :: ps) =
    ⟨token, ⟨offset, offset + byteLength p.text⟩⟩ :: place (offset + byteLength p.text) ps := by
  rw [place, h]

theorem place_append : place offset (ps ++ qs) = place offset ps ++ place (endOf offset ps) qs := by
  induction ps generalizing offset with
  | nil => rfl
  | cons p ps ih =>
    cases h : p.token with
    | none =>
      rw [List.cons_append, place_skipped h, place_skipped h, ih]
      rfl
    | some token =>
      rw [List.cons_append, place_token h, place_token h, ih]
      rfl

theorem length_place : (place offset ps).length = count ps := by
  induction ps generalizing offset with
  | nil => rfl
  | cons p ps ih =>
    cases h : p.token with
    | none => rw [place_skipped h, ih, count, count, List.filterMap_cons_none h]
    | some token => rw [place_token h, List.length_cons, ih, count_token h]

end Lexer

/-! ## Words that spell a value -/

/-- The word is one part without indices. -/
def Compound.IsJust (word : Compound) (p : Primary) : Prop :=
  ∃ span span', word = ⟨span, [⟨span', p, []⟩]⟩

/-- The chunk is one command, which is a name with one argument. -/
def Chunk.Commands (inside : Chunk) (name : String) (arg : Compound) : Prop :=
  ∃ span span' head, inside = ⟨[⟨span, [⟨span', head, [.arg arg], []⟩]⟩]⟩ ∧ head.IsJust (.bareword name)

mutual

/-- The part of a word is the value written out. -/
def Value.SpelledBy : Value → Primary → Prop
  | .nil, p => p = .variable "nil" false
  | .bool true, p => p = .variable "true" false
  | .bool false, p => p = .variable "false" false
  | .str s, p => p = .bareword s ∨ p = .quoted s
  | .num n, p => ∃ inside arg, p = .capture inside ∧ inside.Commands "num" arg ∧ arg.IsJust (.bareword n.text)
  | .list items, p => ∃ words, p = .list words ∧ ItemsSpelledBy items words
  | .map entries, p => ∃ ps, p = .map ps ∧ EntriesSpelledBy entries ps
  | _, _ => False

/-- The words are the items written out. -/
def ItemsSpelledBy : List Value → List Compound → Prop
  | [], words => words = []
  | v :: vs, words => ∃ word others p,
    words = word :: others ∧ word.IsJust p ∧ v.SpelledBy p ∧ ItemsSpelledBy vs others

/-- The pairs of words are the entries written out. -/
def EntriesSpelledBy : List (Value × Value) → List (Compound × Compound) → Prop
  | [], ps => ps = []
  | (k, v) :: entries, ps => ∃ key value others p q,
    ps = (key, value) :: others ∧ key.IsJust p ∧ k.SpelledBy p ∧ value.IsJust q ∧ v.SpelledBy q ∧
      EntriesSpelledBy entries others

end

/-! ## Commands -/

namespace Parser

variable {c c₁ : Cursor} {close : Option Token} {p : Primary} {n : Nat}

/-- A part of a word in front of anything that ends the word. -/
theorem compound_isJust (hfirst : primary n c = .ok (p, c₁)) (hlast : c₁.Breaks) (hn : 0 < n) :
    ∃ word : Compound, word.IsJust p ∧ compound (n + 2) c = .ok (word, c₁) := by
  obtain ⟨span, span', h⟩ := compound_single hfirst hlast hn
  exact ⟨_, ⟨span, span', rfl⟩, h⟩

theorem breaks_of_closes (h : c.Closes close) : c.Breaks := by
  rintro - token htoken
  obtain ⟨hnext, rfl | rfl⟩ := h
  · rw [hnext] at htoken
    cases htoken
  · rw [hnext] at htoken
    cases htoken
    decide

/-- A name and an argument behind a blank are a command. -/
theorem chunk_command {name : String} {token : Token} {span span' : Span} {rest : List Spanned}
    {behind : Option Nat} {finish : Nat} (hstart : token.startsWord = true) (hblank : span.stop ≠ span'.start)
    (harg : primary (n + 1) ⟨⟨token, span'⟩ :: rest, some span.stop, finish⟩ = .ok (p, c₁))
    (hclose : c₁.Closes close) :
    ∃ inside arg, Chunk.Commands inside name arg ∧ arg.IsJust p ∧
      chunk close (n + 7) ⟨⟨.bareword name, span⟩ :: ⟨token, span'⟩ :: rest, behind, finish⟩ =
        .ok (inside, c₁) := by
  have hbreaks : Cursor.Breaks ⟨⟨token, span'⟩ :: rest, some span.stop, finish⟩ := by
    intro htouches
    simp [Cursor.touches, hblank] at htouches
  obtain ⟨head, hhead, hheadEq⟩ :=
    compound_isJust (n := n + 2) (c := ⟨⟨.bareword name, span⟩ :: ⟨token, span'⟩ :: rest, behind, finish⟩)
      primary_bareword hbreaks (by omega)
  obtain ⟨arg, hargIs, hargEq⟩ := compound_isJust harg (breaks_of_closes hclose) (by omega)
  have hrest := formRest_arg rfl hstart hargEq (formRest_nil (n := n + 2) hclose)
  have hform := form_eq rfl rfl hheadEq hrest
  have hpipeline := pipeline_single hform hclose
  exact ⟨_, arg, ⟨_, _, head, rfl, hhead⟩, hargIs, chunk_single rfl rfl hpipeline hclose⟩

end Parser

/-! ## Reading written values -/

variable {v k : Value} {vs : List Value} {entries : List (Value × Value)} {ps : List Piece}

/-- The first token of a written value starts a word, and starts where the value does. -/
theorem Value.place_first (h : v.Plain) (offset : Nat) (qs : List Piece) (ts : List Spanned) :
    ∃ token stop rest, place offset (v.pieces ++ qs) ++ ts = ⟨token, ⟨offset, stop⟩⟩ :: rest ∧
      token.startsWord = true := by
  obtain ⟨c, cs, token, ps, hpieces, -, hstart⟩ := Value.pieces_first h
  rw [hpieces, List.cons_append, Lexer.place_token rfl]
  exact ⟨token, _, _, rfl, hstart⟩

theorem Value.count_pos (h : v.Plain) : 0 < Lexer.count v.pieces := by
  obtain ⟨c, cs, token, ps, hpieces, -, -⟩ := Value.pieces_first h
  rw [hpieces, Lexer.count_token rfl]
  exact Nat.succ_pos _

/-- Wherever it stands, the written value is read as a part of a word that spells it. -/
def Value.Reads (v : Value) : Prop :=
  ∀ (n offset : Nat) (ts : List Spanned) (behind : Option Nat) (finish : Nat),
    10 * Lexer.count v.pieces ≤ n + 2 →
      ∃ p, v.SpelledBy p ∧ Parser.primary n ⟨place offset v.pieces ++ ts, behind, finish⟩ =
        .ok (p, ⟨ts, some (endOf offset v.pieces), finish⟩)

/-- Wherever they stand, the pieces and the bracket behind them are read as words that spell the items. -/
def ReadsUntil (vs : List Value) (ps : List Piece) : Prop :=
  ∀ (n offset : Nat) (ts : List Spanned) (behind : Option Nat) (finish : Nat), 10 * Lexer.count ps < n →
    ∃ words, ItemsSpelledBy vs words ∧
      Parser.wordsUntil .rbracket n ⟨place offset (ps ++ [.sign ']' .rbracket]) ++ ts, behind, finish⟩ =
        .ok (words, ⟨ts, some (endOf offset (ps ++ [.sign ']' .rbracket])), finish⟩)

/-- Wherever they stand, the pieces and the bracket behind them are read as pairs that spell the entries. -/
def ReadsPairs (entries : List (Value × Value)) (ps : List Piece) : Prop :=
  ∀ (n offset : Nat) (ts : List Spanned) (behind : Option Nat) (finish : Nat), 10 * Lexer.count ps < n →
    ∃ pairs, EntriesSpelledBy entries pairs ∧
      Parser.pairs n ⟨place offset (ps ++ [.sign ']' .rbracket]) ++ ts, behind, finish⟩ =
        .ok (pairs, ⟨ts, some (endOf offset (ps ++ [.sign ']' .rbracket])), finish⟩)

/-- A value in front of anything that ends a word. -/
theorem Value.Reads.compound (h : v.Reads) (hv : v.Plain) {n : Nat} (offset : Nat) (ts : List Spanned)
    (behind : Option Nat) (finish : Nat) (hn : 10 * Lexer.count v.pieces ≤ n)
    (hlast : Cursor.Breaks ⟨ts, some (endOf offset v.pieces), finish⟩) :
    ∃ (word : Compound) (p : Primary), word.IsJust p ∧ v.SpelledBy p ∧
      Parser.compound n ⟨place offset v.pieces ++ ts, behind, finish⟩ =
        .ok (word, ⟨ts, some (endOf offset v.pieces), finish⟩) := by
  have hpos := Value.count_pos hv
  obtain ⟨m, rfl⟩ : ∃ m, n = m + 2 := ⟨n - 2, by omega⟩
  obtain ⟨p, hspelled, hread⟩ := h m offset ts behind finish hn
  obtain ⟨word, hword, heq⟩ := Parser.compound_isJust hread hlast (by omega)
  exact ⟨word, p, hword, hspelled, heq⟩

theorem readsUntil_nil : ReadsUntil [] [] := by
  intro n offset ts behind finish hn
  obtain ⟨m, rfl⟩ : ∃ m, n = m + 1 := ⟨n - 1, by omega⟩
  exact ⟨[], rfl, Parser.wordsUntil_nil (by decide)⟩

/-- A blank in front makes no difference. -/
theorem ReadsUntil.blank (h : ReadsUntil vs ps) : ReadsUntil vs (.blank :: ps) := by
  intro n offset ts behind finish hn
  exact h n (offset + 1) ts behind finish hn

/-- Behind an item comes a blank, or the closing bracket. -/
theorem breaks_items (hvs : PlainItems vs) (offset : Nat) (ts : List Spanned) (finish : Nat) :
    Cursor.Breaks ⟨place offset (piecesOfItems [.blank] vs ++ [.sign ']' .rbracket]) ++ ts, some offset,
      finish⟩ := by
  cases vs with
  | nil =>
    rintro - token ⟨⟩
    exact ⟨rfl, nofun⟩
  | cons v vs =>
    intro htouches
    obtain ⟨token, stop, rest, hplace, -⟩ := Value.place_first hvs.1 (offset + 1)
      (piecesOfItems [.blank] vs ++ [.sign ']' .rbracket]) ts
    have hcursor : place offset (piecesOfItems [.blank] (v :: vs) ++ [.sign ']' .rbracket]) ++ ts =
        ⟨token, ⟨offset + 1, stop⟩⟩ :: rest := by
      rw [← hplace, piecesOfItems, List.append_assoc, List.append_assoc]
      rfl
    rw [hcursor] at htouches
    simp [Cursor.touches] at htouches

theorem ReadsUntil.cons (hv : v.Plain) (h : v.Reads) (hvs : PlainItems vs)
    (hs : ReadsUntil vs (piecesOfItems [.blank] vs)) :
    ReadsUntil (v :: vs) (v.pieces ++ piecesOfItems [.blank] vs) := by
  intro n offset ts behind finish hn
  obtain ⟨m, rfl⟩ : ∃ m, n = m + 1 := ⟨n - 1, by omega⟩
  have hpos := Value.count_pos hv
  rw [Lexer.count_append] at hn
  obtain ⟨token, stop, rest, hplace, hstart⟩ := Value.place_first hv offset
    (piecesOfItems [.blank] vs ++ [.sign ']' .rbracket]) ts
  obtain ⟨word, p, hword, hspelled, hfirst⟩ := h.compound hv (n := m) offset
    (place (endOf offset v.pieces) (piecesOfItems [.blank] vs ++ [.sign ']' .rbracket]) ++ ts) behind finish
    (by omega) (breaks_items hvs (endOf offset v.pieces) ts finish)
  obtain ⟨words, hwords, hothers⟩ := hs m (endOf offset v.pieces) ts (some (endOf offset v.pieces)) finish
    (by omega)
  have hnext : Cursor.next? ⟨place offset (v.pieces ++ (piecesOfItems [.blank] vs ++ [.sign ']' .rbracket])) ++
      ts, behind, finish⟩ = some token := by
    rw [hplace, Cursor.next?_cons]
  refine ⟨word :: words, ⟨word, words, p, rfl, hword, hspelled, hwords⟩, ?_⟩
  rw [List.append_assoc, Lexer.endOf_append]
  refine Parser.wordsUntil_cons hnext hstart rfl ?_ hothers
  rw [Lexer.place_append, List.append_assoc]
  exact hfirst

theorem readsPairs_nil : ReadsPairs [] [] := by
  intro n offset ts behind finish hn
  obtain ⟨m, rfl⟩ : ∃ m, n = m + 1 := ⟨n - 1, by omega⟩
  exact ⟨[], rfl, Parser.pairs_nil⟩

theorem ReadsPairs.blank (h : ReadsPairs entries ps) : ReadsPairs entries (.blank :: ps) := by
  intro n offset ts behind finish hn
  exact h n (offset + 1) ts behind finish hn

/-- Behind the value of an entry comes a blank, or the closing bracket. -/
theorem breaks_entries (entries : List (Value × Value)) (offset : Nat) (ts : List Spanned) (finish : Nat) :
    Cursor.Breaks ⟨place offset (piecesOfEntries [.blank] entries ++ [.sign ']' .rbracket]) ++ ts,
      some offset, finish⟩ := by
  cases entries with
  | nil =>
    rintro - token ⟨⟩
    exact ⟨rfl, nofun⟩
  | cons entry entries =>
    rintro - token ⟨⟩
    exact ⟨rfl, nofun⟩

/-- The pieces of an entry in front of others. -/
def entryPieces (k v : Value) (others : List Piece) : List Piece :=
  .sign '&' .amp :: (k.pieces ++ (.sign '=' .eq :: (v.pieces ++ others)))

/-- The tokens of an entry, one part after the other. -/
theorem place_entryPieces (k v : Value) (others : List Piece) (offset : Nat) :
    place offset (entryPieces k v others) = ⟨.amp, ⟨offset, offset + 1⟩⟩ :: (place (offset + 1) k.pieces ++
      ⟨.eq, ⟨endOf (offset + 1) k.pieces, endOf (offset + 1) k.pieces + 1⟩⟩ ::
        (place (endOf (offset + 1) k.pieces + 1) v.pieces ++
          place (endOf (endOf (offset + 1) k.pieces + 1) v.pieces) others)) := by
  rw [entryPieces, Lexer.place_token rfl, Lexer.place_append, Lexer.place_token rfl, Lexer.place_append]
  rfl

theorem endOf_entryPieces (k v : Value) (others : List Piece) (offset : Nat) :
    endOf offset (entryPieces k v others) =
      endOf (endOf (endOf (offset + 1) k.pieces + 1) v.pieces) others := by
  have hamp : endOf offset (entryPieces k v others) =
      endOf (offset + 1) (k.pieces ++ (.sign '=' .eq :: (v.pieces ++ others))) := rfl
  rw [hamp, Lexer.endOf_append]
  exact Lexer.endOf_append

/-- A value that touches what is in front of it. -/
theorem Value.wordTouches (h : v.Plain) (offset : Nat) (ts : List Spanned) (finish : Nat) :
    Parser.wordTouches ⟨place offset v.pieces ++ ts, some offset, finish⟩ =
      .ok (true, ⟨place offset v.pieces ++ ts, some offset, finish⟩) := by
  obtain ⟨token, stop, rest, hplace, hstart⟩ := Value.place_first h offset [] ts
  rw [List.append_nil] at hplace
  rw [hplace]
  exact Parser.wordTouches_eq rfl hstart (by simp [Cursor.touches])

theorem ReadsPairs.cons (hk : k.Plain) (hv : v.Plain) (hkr : k.Reads) (hvr : v.Reads)
    (hs : ReadsPairs entries (piecesOfEntries [.blank] entries)) :
    ReadsPairs ((k, v) :: entries) (entryPieces k v (piecesOfEntries [.blank] entries)) := by
  intro n offset ts behind finish hn
  rw [entryPieces, Lexer.count_token rfl, Lexer.count_append, Lexer.count_token rfl, Lexer.count_append] at hn
  obtain ⟨m, rfl⟩ : ∃ m, n = m + 2 := ⟨n - 2, by omega⟩
  have happend : entryPieces k v (piecesOfEntries [.blank] entries) ++ [.sign ']' .rbracket] =
      entryPieces k v (piecesOfEntries [.blank] entries ++ [.sign ']' .rbracket]) := by
    simp [entryPieces]
  rw [happend, place_entryPieces, endOf_entryPieces, List.cons_append, List.append_assoc, List.cons_append,
    List.append_assoc]
  generalize hmiddle : endOf (offset + 1) k.pieces = middle
  generalize hstop : endOf (middle + 1) v.pieces = stop
  generalize htail : place stop (piecesOfEntries [.blank] entries ++ [.sign ']' .rbracket]) ++ ts = tail
  have hkeyBreaks : Cursor.Breaks ⟨⟨.eq, ⟨middle, middle + 1⟩⟩ :: (place (middle + 1) v.pieces ++ tail),
      some middle, finish⟩ := by
    rintro - token ⟨⟩
    exact ⟨rfl, nofun⟩
  have hvalueBreaks : Cursor.Breaks ⟨tail, some stop, finish⟩ := by
    rw [← htail]
    exact breaks_entries entries stop ts finish
  obtain ⟨key, p, hkey, hkeySpelled, hfirst⟩ := hkr.compound hk (n := m) (offset + 1)
    (⟨.eq, ⟨middle, middle + 1⟩⟩ :: (place (middle + 1) v.pieces ++ tail)) (some (offset + 1)) finish
    (by omega) (by rw [hmiddle]; exact hkeyBreaks)
  obtain ⟨value, q, hvalue, hvalueSpelled, hsecond⟩ := hvr.compound hv (n := m) (middle + 1) tail
    (some (middle + 1)) finish (by omega) (by rw [hstop]; exact hvalueBreaks)
  rw [hmiddle] at hfirst
  rw [hstop] at hsecond
  obtain ⟨pairs, hpairs, hothers⟩ := hs (m + 1) stop ts (some stop) finish (by omega)
  refine ⟨(key, value) :: pairs,
    ⟨key, value, pairs, p, q, rfl, hkey, hkeySpelled, hvalue, hvalueSpelled, hpairs⟩, ?_⟩
  rw [htail] at hothers
  have hkeyTouches := Value.wordTouches hk (offset + 1)
    (⟨.eq, ⟨middle, middle + 1⟩⟩ :: (place (middle + 1) v.pieces ++ tail)) finish
  have hvalueTouches := Value.wordTouches hv (middle + 1) tail finish
  have hpair := Parser.pair_eq hkeyTouches hfirst hvalueTouches hsecond
  refine Parser.pairs_cons ?_ hpair hothers
  obtain ⟨token, _, rest, hplace, hstart⟩ := Value.place_first hk (offset + 1) []
    (⟨.eq, ⟨middle, middle + 1⟩⟩ :: (place (middle + 1) v.pieces ++ tail))
  rw [List.append_nil] at hplace
  rw [hplace, Cursor.next?_cons]
  rintro ⟨⟩
  cases hstart

/-! ## Every plain value -/

/-- A value of one piece is read at once. -/
theorem reads_piece {piece : Piece} {token : Token} {p : Primary} (hpieces : v.pieces = [piece])
    (htoken : piece.token = some token) (hspelled : v.SpelledBy p)
    (h : ∀ (n : Nat) (span : Span) (ts : List Spanned) (behind : Option Nat) (finish : Nat),
      Parser.primary (n + 1) ⟨⟨token, span⟩ :: ts, behind, finish⟩ =
        .ok (p, ⟨ts, some span.stop, finish⟩)) : v.Reads := by
  intro n offset ts behind finish hn
  rw [hpieces, Lexer.count_token htoken] at hn
  obtain ⟨m, rfl⟩ : ∃ m, n = m + 1 := ⟨n - 1, by omega⟩
  refine ⟨p, hspelled, ?_⟩
  rw [hpieces, Lexer.place_token htoken]
  exact h m _ ts behind finish

theorem reads_str (s : String) : (Value.str s).Reads := by
  by_cases hs : (!s.isEmpty && s.toList.all isBarewordChar) = true
  · refine reads_piece (p := .bareword s) rfl ?_ (.inl rfl) fun _ _ _ _ _ ↦ Parser.primary_bareword
    rw [Piece.ofText, if_pos hs]
    rfl
  · refine reads_piece (p := .quoted s) rfl ?_ (.inr rfl) fun _ _ _ _ _ ↦ Parser.primary_quoted
    rw [Piece.ofText, if_neg hs]

theorem reads_num (x : Num) : (Value.num x).Reads := by
  intro n offset ts behind finish hn
  have hcount : Lexer.count (Value.num x).pieces = 4 := rfl
  rw [hcount] at hn
  obtain ⟨m, rfl⟩ : ∃ m, n = m + 8 := ⟨n - 8, by omega⟩
  obtain ⟨stop, hstop⟩ : ∃ stop, stop = offset + 5 + byteLength x.text.toList := ⟨_, rfl⟩
  have hplace : place offset (Value.num x).pieces ++ ts = ⟨.lparen, ⟨offset, offset + 1⟩⟩ ::
      ⟨.bareword "num", ⟨offset + 1, offset + 4⟩⟩ :: ⟨.bareword x.text, ⟨offset + 5, stop⟩⟩ ::
        ⟨.rparen, ⟨stop, stop + 1⟩⟩ :: ts := by
    rw [hstop]
    rfl
  have hend : endOf offset (Value.num x).pieces = stop + 1 := by
    rw [hstop]
    rfl
  have hchunk : ∃ inside arg, Chunk.Commands inside "num" arg ∧ arg.IsJust (.bareword x.text) ∧
      Parser.chunk (some .rparen) (m + 7) ⟨⟨.bareword "num", ⟨offset + 1, offset + 4⟩⟩ ::
        ⟨.bareword x.text, ⟨offset + 5, stop⟩⟩ :: ⟨.rparen, ⟨stop, stop + 1⟩⟩ :: ts, some (offset + 1), finish⟩ =
          .ok (inside, ⟨⟨.rparen, ⟨stop, stop + 1⟩⟩ :: ts, some stop, finish⟩) :=
    Parser.chunk_command rfl (by simp) Parser.primary_bareword ⟨rfl, .inr rfl⟩
  obtain ⟨inside, arg, hinside, harg, hread⟩ := hchunk
  rw [hplace, hend]
  exact ⟨.capture inside, ⟨inside, arg, rfl, hinside, harg⟩, Parser.primary_capture hread⟩

theorem reads_list (hvs : PlainItems vs) (h : ReadsUntil vs (piecesOfItems [] vs)) :
    (Value.list vs).Reads := by
  intro n offset ts behind finish hn
  rw [Value.pieces] at hn ⊢
  rw [Lexer.count_token rfl, Lexer.count_append, Lexer.count_token rfl] at hn
  obtain ⟨m, rfl⟩ : ∃ m, n = m + 1 := ⟨n - 1, by omega⟩
  obtain ⟨words, hspelled, hwords⟩ := h m (offset + 1) ts (some (offset + 1)) finish (by omega)
  have hfirst : ∃ token, Cursor.next? ⟨place (offset + 1) (piecesOfItems [] vs ++ [.sign ']' .rbracket]) ++ ts,
      some (offset + 1), finish⟩ = some token ∧ token ≠ .newline ∧ token ≠ .amp := by
    cases vs with
    | nil => exact ⟨.rbracket, rfl, by decide⟩
    | cons v vs =>
      obtain ⟨token, _, rest, hplace, hstart⟩ := Value.place_first hvs.1 (offset + 1)
        (piecesOfItems [.blank] vs ++ [.sign ']' .rbracket]) ts
      refine ⟨token, ?_, ?_⟩
      · rw [piecesOfItems, List.nil_append, List.append_assoc, hplace, Cursor.next?_cons]
      · constructor <;> rintro rfl <;> cases hstart
  obtain ⟨token, hnext, hline, hamp⟩ := hfirst
  refine ⟨.list words, ⟨words, rfl, hspelled⟩, ?_⟩
  rw [Lexer.place_token rfl]
  refine Parser.primary_list ?_ ?_ hwords
  · exact fun heq ↦ hline (Option.some.inj (hnext.symm.trans heq))
  · exact fun heq ↦ hamp (Option.some.inj (hnext.symm.trans heq))

/-- The empty map is written with a lone `&`. -/
theorem reads_map_nil : (Value.map []).Reads := by
  intro n offset ts behind finish hn
  have hcount : Lexer.count (Value.map []).pieces = 3 := rfl
  rw [hcount] at hn
  obtain ⟨m, rfl⟩ : ∃ m, n = m + 3 := ⟨n - 3, by omega⟩
  exact ⟨.map [], ⟨[], rfl, rfl⟩, Parser.primary_map rfl (Parser.pairs_lone rfl Parser.pairs_nil)⟩

theorem reads_map (h : ReadsPairs ((k, v) :: entries) (entryPieces k v (piecesOfEntries [.blank] entries))) :
    (Value.map ((k, v) :: entries)).Reads := by
  intro n offset ts behind finish hn
  have hpieces : (Value.map ((k, v) :: entries)).pieces = .sign '[' .lbracket ::
      (entryPieces k v (piecesOfEntries [.blank] entries) ++ [.sign ']' .rbracket]) := rfl
  rw [hpieces] at hn ⊢
  rw [Lexer.count_token rfl, Lexer.count_append, Lexer.count_token rfl] at hn
  obtain ⟨m, rfl⟩ : ∃ m, n = m + 1 := ⟨n - 1, by omega⟩
  obtain ⟨pairs, hspelled, hpairs⟩ := h m (offset + 1) ts (some (offset + 1)) finish (by omega)
  refine ⟨.map pairs, ⟨pairs, rfl, hspelled⟩, ?_⟩
  rw [Lexer.place_token rfl]
  exact Parser.primary_map rfl hpairs

mutual

/-- **A written value is read as itself**, wherever it stands. -/
theorem Value.reads : ∀ {v : Value}, v.Plain → v.Reads
  | .nil, _ | .bool true, _ | .bool false, _ =>
    reads_piece rfl rfl rfl fun _ _ _ _ _ ↦ Parser.primary_variable (by decide)
  | .str s, _ => reads_str s
  | .num x, _ => reads_num x
  | .list [], h => reads_list h readsUntil_nil
  | .list (_ :: _), h => reads_list h (.cons h.1 (Value.reads h.1) h.2 (reads_items h.2))
  | .map [], _ => reads_map_nil
  | .map ((_, _) :: _), h =>
    reads_map (.cons h.1.1 h.1.2.1 (Value.reads h.1.1) (Value.reads h.1.2.1) (reads_entries h.1.2.2))

theorem reads_items : ∀ {vs : List Value}, PlainItems vs → ReadsUntil vs (piecesOfItems [.blank] vs)
  | [], _ => readsUntil_nil
  | _ :: _, h => .blank (.cons h.1 (Value.reads h.1) h.2 (reads_items h.2))

theorem reads_entries : ∀ {entries : List (Value × Value)}, PlainEntries entries →
    ReadsPairs entries (piecesOfEntries [.blank] entries)
  | [], _ => readsPairs_nil
  | (_, _) :: _, h => .blank (.cons h.1 h.2.1 (Value.reads h.1) (Value.reads h.2.1) (reads_entries h.2.2))

end

end ValueShell
