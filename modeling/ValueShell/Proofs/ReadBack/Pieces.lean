import ValueShell.Proofs.ReadBack.Numbers
import ValueShell.Token.Lexer
import ValueShell.Value.Equality

/-!
# Written values in pieces

What a value looks like in a script, piece by piece (`Value.pieces`).  The texts of the pieces make up the
written form (`Value.toList_repr`), and the written form is cut into just these pieces (`Value.cuts_pieces`)
wherever a value can stand: in front of a blank, a closing bracket or parenthesis, an equals sign, or the end
(`Lexer.Stops`).

A piece takes the longest stretch its kind allows, so the point of each proof is that nothing behind the piece
could have been taken too.  A quotation would go on behind another mark, digits in front of `>` would be a
redirection, and a lone `^` in front of the end of a line would join lines.
-/

set_option autoImplicit false

namespace ValueShell

namespace Lexer

variable {c : Char} {cs rest : List Char} {ps qs : List Piece}

/-! ## Cutting from the front -/

/-- The text that pieces make up. -/
def texts (ps : List Piece) : List Char :=
  ps.flatMap Piece.text

@[simp] theorem texts_nil : texts [] = [] :=
  rfl

@[simp] theorem texts_cons (p : Piece) (ps : List Piece) : texts (p :: ps) = p.text ++ texts ps :=
  rfl

@[simp] theorem texts_append (ps qs : List Piece) : texts (ps ++ qs) = texts ps ++ texts qs :=
  List.flatMap_append

/-- In front of a text, the pieces are the first that are cut off. -/
def Cuts (ps : List Piece) (rest : List Char) : Prop :=
  pieces (texts ps ++ rest) = (ps ++ (pieces rest).1, (pieces rest).2)

theorem Cuts.nil : Cuts [] rest :=
  rfl

theorem Cuts.append (h : Cuts ps (texts qs ++ rest)) (hs : Cuts qs rest) : Cuts (ps ++ qs) rest := by
  rw [Cuts, texts_append, List.append_assoc, h, hs, List.append_assoc]

theorem Cuts.of_lexeme {token : Option Token} (h : lexeme c (cs ++ rest) = .ok (cs.length, token)) :
    Cuts [⟨c :: cs, token⟩] rest := by
  rw [Cuts, texts_cons, texts_nil, List.append_nil, List.cons_append, pieces, h]
  simp

theorem Cuts.cons {p : Piece} (h : Cuts [p] (texts ps ++ rest)) (hs : Cuts ps rest) : Cuts (p :: ps) rest :=
  h.append hs

/-- A text in front of which a value can stand. -/
def Stops (rest : List Char) : Prop :=
  ∀ c ∈ rest.head?, c = ' ' ∨ c = ')' ∨ c = ']' ∨ c = '='

theorem Stops.nil : Stops [] :=
  nofun

theorem Stops.cons (h : c = ' ' ∨ c = ')' ∨ c = ']' ∨ c = '=') (rest : List Char) : Stops (c :: rest) := by
  rintro d hd
  obtain rfl : c = d := Option.some.inj hd
  exact h

/-- Where a value can stand, no character of a kind follows that includes none of the four. -/
theorem Stops.takeWhile_append (h : Stops rest) {p : Char → Bool} (hcs : ∀ c ∈ cs, p c = true)
    (hp : ∀ c, c = ' ' ∨ c = ')' ∨ c = ']' ∨ c = '=' → p c = false) : (cs ++ rest).takeWhile p = cs := by
  rw [List.takeWhile_append_of_pos hcs]
  cases rest with
  | nil => simp
  | cons d rest =>
    rw [List.takeWhile_cons_of_neg (by rw [hp d (h d rfl)]; decide), List.append_nil]

/-! ## Words -/

theorem isWordChar_of_bareword (h : isBarewordChar c = true) : isWordChar c = true := by
  rw [isBarewordChar, isAlphanumeric, Bool.or_eq_true] at h
  rw [isWordChar, Bool.or_eq_true, Bool.or_eq_true]
  rcases h with h | h
  · split at h
    next => exact .inl (.inl h)
    next hlarge => exact .inr (by simpa using hlarge)
  · have hsigns : "-_./:@~!%+,*?^".toList.all "_-./,:@~!%+*?^".toList.contains = true := by
      decide
    exact .inl (.inr (List.all_eq_true.1 hsigns c (List.contains_iff_mem.1 h)))

theorem isBlank_of_bareword (h : isBarewordChar c = true) : isBlank c = false := by
  have hword := isWordChar_of_bareword h
  rw [Bool.eq_false_iff]
  intro hblank
  simp only [isBlank, Bool.or_eq_true, decide_eq_true_eq] at hblank
  rcases hblank with (rfl | rfl) | rfl <;> exact absurd hword (by decide)

/-- The character ends a word. -/
theorem isWordChar_stop : ∀ c, c = ' ' ∨ c = ')' ∨ c = ']' ∨ c = '=' → isWordChar c = false := by
  rintro c (rfl | rfl | rfl | rfl) <;> decide

/-- What starts with a character of a word is a word, unless it goes on like something else. -/
theorem lexeme_word (h : isBarewordChar c = true) (hdigits : ∀ rest, cs.dropWhile Char.isDigit ≠ '>' :: rest)
    (hline : ∀ rest, cs ≠ '\n' :: rest ∧ cs ≠ '\r' :: rest) : lexeme c cs = .ok (word c cs) := by
  have hword := isWordChar_of_bareword h
  unfold lexeme
  split
  all_goals first | exact absurd hword (by decide) | skip
  next =>
    split
    next rest => exact absurd rfl (hline rest).1
    next rest => exact absurd rfl (hline _).2
    next => rfl
  next =>
    rw [isBlank_of_bareword h, hword]
    by_cases hd : c.isDigit
    · rw [if_neg Bool.false_ne_true, if_pos hd, number]
      split
      next rest heq => exact absurd heq (hdigits rest)
      next => rfl
    · rw [if_neg Bool.false_ne_true, if_neg hd, if_pos rfl]

/-- Whatever is passed over inside a word, what comes next is a character of the word or one behind which it
ends. -/
theorem Stops.next (hrest : Stops rest) (hcs : ∀ c ∈ cs, isBarewordChar c = true) {p : Char → Bool}
    (hp : ∀ c, c = ' ' ∨ c = ')' ∨ c = ']' ∨ c = '=' → p c = false) {d : Char} {ds : List Char}
    (h : (cs ++ rest).dropWhile p = d :: ds) :
    isBarewordChar d = true ∨ d = ' ' ∨ d = ')' ∨ d = ']' ∨ d = '=' := by
  induction cs with
  | nil =>
    cases rest with
    | nil => cases h
    | cons e rest =>
      have he := hrest e rfl
      rw [List.nil_append, List.dropWhile_cons_of_neg (by rw [hp e he]; decide)] at h
      obtain ⟨rfl, -⟩ := List.cons.inj h
      exact .inr he
  | cons c cs ih =>
    by_cases hc : p c = true
    · rw [List.cons_append, List.dropWhile_cons_of_pos hc] at h
      exact ih (fun d hd ↦ hcs d (List.mem_cons_of_mem _ hd)) h
    · rw [List.cons_append, List.dropWhile_cons_of_neg hc] at h
      obtain ⟨rfl, -⟩ := List.cons.inj h
      exact .inl (hcs c List.mem_cons_self)

/-- A text that can stand bare is one word, wherever a value can stand. -/
theorem cuts_bare {s : String} (hne : s ≠ "") (hs : ∀ c ∈ s.toList, isBarewordChar c = true)
    (hrest : Stops rest) : Cuts [⟨s.toList, some (.bareword s)⟩] rest := by
  obtain ⟨c, cs, hcs⟩ : ∃ c cs, s.toList = c :: cs :=
    List.exists_cons_of_ne_nil (by simpa using hne)
  rw [hcs] at hs ⊢
  have hinside : ∀ d ∈ cs, isBarewordChar d = true := fun d hd ↦ hs d (List.mem_cons_of_mem _ hd)
  have hrun : (cs ++ rest).takeWhile isWordChar = cs :=
    hrest.takeWhile_append (fun d hd ↦ isWordChar_of_bareword (hinside d hd)) isWordChar_stop
  have hdigits : ∀ ds, (cs ++ rest).dropWhile Char.isDigit ≠ '>' :: ds := fun ds h ↦
    absurd (hrest.next hinside (by rintro c (rfl | rfl | rfl | rfl) <;> decide) h) (by decide)
  have hline : ∀ ds, cs ++ rest ≠ '\n' :: ds ∧ cs ++ rest ≠ '\r' :: ds := by
    intro ds
    have hnext (d : Char) (h : cs ++ rest = d :: ds) :=
      hrest.next (p := fun _ ↦ false) hinside (fun _ _ ↦ rfl) (by rw [h]; rfl)
    exact ⟨fun h ↦ absurd (hnext _ h) (by decide), fun h ↦ absurd (hnext _ h) (by decide)⟩
  refine .of_lexeme ?_
  rw [lexeme_word (hs c List.mem_cons_self) hdigits hline, word, run, hrun, ← hcs, String.ofList_toList]

/-! ## Quotations and variables -/

/-- A text with its marks doubled. -/
def doubled (cs : List Char) : List Char :=
  cs.flatMap fun c ↦ if c = '\'' then ['\'', '\''] else [c]

/-- A quotation ends with the first mark that is not doubled. -/
theorem singleQuoted_doubled (cs : List Char) (hrest : Stops rest) :
    singleQuoted (doubled cs ++ '\'' :: rest) = some (cs, (doubled cs).length + 1) := by
  induction cs with
  | nil =>
    have hmark : ∀ ds, rest ≠ '\'' :: ds := by
      rintro ds rfl
      exact absurd (hrest _ rfl) (by decide)
    rw [doubled, List.flatMap_nil, List.nil_append, singleQuoted.eq_def]
    split
    next h => cases h
    next h =>
      obtain ⟨-, h⟩ := List.cons.inj h
      exact absurd h (hmark _)
    next => rfl
    next hc h => exact absurd (List.cons.inj h).1.symm hc
  | cons c cs ih =>
    have hcons : doubled (c :: cs) = (if c = '\'' then ['\'', '\''] else [c]) ++ doubled cs :=
      List.flatMap_cons
    rw [hcons]
    by_cases h : c = '\''
    · subst h
      simp [singleQuoted, ih]
    · simp [singleQuoted, ih, h]

/-- A text between single marks is one quotation, wherever a value can stand. -/
theorem cuts_quoted (s : String) (hrest : Stops rest) :
    Cuts [⟨'\'' :: (doubled s.toList ++ ['\'']), some (.quoted s)⟩] rest := by
  refine .of_lexeme ?_
  rw [lexeme, List.append_assoc, List.singleton_append, singleQuoted_doubled _ hrest]
  simp

/-- A variable is one piece, wherever a value can stand. -/
theorem cuts_variable {name : String} (hname : ∀ c ∈ name.toList, isNameChar c = true)
    (hrest : Stops rest) : Cuts [⟨'$' :: name.toList, some (.variable name false)⟩] rest := by
  have hrun : (name.toList ++ rest).takeWhile isNameChar = name.toList :=
    hrest.takeWhile_append hname (by rintro c (rfl | rfl | rfl | rfl) <;> decide)
  have hnext : ∀ ds, name.toList ++ rest ≠ '@' :: ds := by
    intro ds h
    rw [h] at hrun
    rw [List.takeWhile_cons_of_neg (by decide)] at hrun
    rw [← hrun, List.nil_append] at h
    exact absurd (hrest '@' (by rw [h]; rfl)) (by decide)
  refine .of_lexeme ?_
  rw [lexeme, «variable», run, hrun, String.ofList_toList]
  exact hnext

end Lexer

/-! ## Values -/

mutual

/-- The value is built from nil, booleans, texts, exact numbers, lists, and maps with different keys. -/
def Value.Plain : Value → Prop
  | .nil | .bool _ | .str _ => True
  | .num n => n.Exact
  | .list items => PlainItems items
  | .map entries => PlainEntries entries ∧ entries.Pairwise fun old new ↦ new.1.keyEq old.1 = false
  | _ => False

/-- All items are plain. -/
def PlainItems : List Value → Prop
  | [] => True
  | v :: vs => v.Plain ∧ PlainItems vs

/-- All keys and values are plain. -/
def PlainEntries : List (Value × Value) → Prop
  | [] => True
  | (k, v) :: entries => k.Plain ∧ v.Plain ∧ PlainEntries entries

end

namespace Lexer.Piece

/-- A piece of one character. -/
def sign (c : Char) (token : Token) : Piece :=
  ⟨[c], some token⟩

/-- A blank. -/
def blank : Piece :=
  ⟨[' '], none⟩

/-- A variable. -/
def var (name : String) : Piece :=
  ⟨'$' :: name.toList, some (.variable name false)⟩

/-- A word without quotation marks. -/
def bare (s : String) : Piece :=
  ⟨s.toList, some (.bareword s)⟩

/-- A text, bare where it can be. -/
def ofText (s : String) : Piece :=
  if !s.isEmpty && s.toList.all isBarewordChar then bare s
  else ⟨'\'' :: (doubled s.toList ++ ['\'']), some (.quoted s)⟩

end Lexer.Piece

open Lexer (Piece texts Cuts Stops)

mutual

/-- The pieces of a written value. -/
def Value.pieces : Value → List Piece
  | .nil => [.var "nil"]
  | .bool true => [.var "true"]
  | .bool false => [.var "false"]
  | .str s => [.ofText s]
  | .num n => [.sign '(' .lparen, .bare "num", .blank, .bare n.text, .sign ')' .rparen]
  | .list items => .sign '[' .lbracket :: (piecesOfItems [] items ++ [.sign ']' .rbracket])
  | .map [] => [.sign '[' .lbracket, .sign '&' .amp, .sign ']' .rbracket]
  | .map entries => .sign '[' .lbracket :: (piecesOfEntries [] entries ++ [.sign ']' .rbracket])
  | _ => []

/-- The pieces of items, each behind a blank; what stands before the first is given. -/
def piecesOfItems (before : List Piece) : List Value → List Piece
  | [] => []
  | v :: vs => before ++ (v.pieces ++ piecesOfItems [.blank] vs)

/-- The pieces of entries, each behind a blank; what stands before the first is given. -/
def piecesOfEntries (before : List Piece) : List (Value × Value) → List Piece
  | [] => []
  | (k, v) :: entries =>
    before ++ (.sign '&' .amp :: (k.pieces ++ (.sign '=' .eq :: (v.pieces ++ piecesOfEntries [.blank] entries))))

end

namespace Lexer

variable {rest : List Char}

theorem Cuts.sign {c : Char} {token : Token} (h : ∀ cs, lexeme c cs = .ok (0, some token)) :
    Cuts [.sign c token] rest :=
  .of_lexeme (h _)

theorem Cuts.blank (h : ∀ c ∈ rest.head?, isBlank c = false) : Cuts [.blank] rest := by
  refine .of_lexeme ?_
  have hrun : rest.takeWhile isBlank = [] := by
    cases rest with
    | nil => rfl
    | cons c rest => exact List.takeWhile_cons_of_neg (by rw [h c rfl]; decide)
  change Except.ok (run isBlank rest, none) = _
  rw [run, hrun]

theorem Cuts.ofText (s : String) (h : Stops rest) : Cuts [.ofText s] rest := by
  rw [Piece.ofText]
  split
  next hs =>
    rw [Bool.and_eq_true, Bool.not_eq_true', List.all_eq_true] at hs
    exact cuts_bare (by simpa using hs.1) hs.2 h
  next => exact cuts_quoted s h

theorem text_ofText (s : String) : (Piece.ofText s).text = (writeText s).toList := by
  rw [Piece.ofText, writeText]
  split
  next => rfl
  next =>
    rw [String.toList_append, String.toList_append, String.toList_ofList, String.toList_ofList]
    rfl

end Lexer

/-- A written value starts with a token that starts a word. -/
theorem Value.pieces_first {v : Value} (h : v.Plain) :
    ∃ c cs token ps, v.pieces = ⟨c :: cs, some token⟩ :: ps ∧ Lexer.isBlank c = false ∧
      token.startsWord = true := by
  cases v with
  | nil | list | num => exact ⟨_, _, _, _, rfl, rfl, rfl⟩
  | bool b => cases b <;> exact ⟨_, _, _, _, rfl, rfl, rfl⟩
  | map entries => cases entries <;> exact ⟨_, _, _, _, rfl, rfl, rfl⟩
  | str s =>
    rw [pieces, Piece.ofText]
    split
    next hs =>
      rw [Bool.and_eq_true, Bool.not_eq_true', List.all_eq_true] at hs
      obtain ⟨c, cs, hcs⟩ : ∃ c cs, s.toList = c :: cs :=
        List.exists_cons_of_ne_nil (by simpa using hs.1)
      have hc := hs.2 c (by rw [hcs]; exact List.mem_cons_self)
      exact ⟨c, cs, _, _, by rw [Piece.bare, hcs], Lexer.isBlank_of_bareword hc, rfl⟩
    next => exact ⟨_, _, _, _, rfl, rfl, rfl⟩
  | _ => exact h.elim

/-- Texts with blanks between them. -/
theorem toList_spaced (s : String) (ss : List String) :
    (" ".intercalate (s :: ss)).toList = s.toList ++ ss.flatMap (' ' :: ·.toList) := by
  induction ss generalizing s with
  | nil => simp
  | cons t ss ih =>
    rw [String.intercalate_cons_cons, String.toList_append, ih, List.flatMap_cons]
    simp

mutual

/-- The pieces make up the written form. -/
theorem Value.toList_repr : ∀ {v : Value}, v.Plain → v.repr.toList = texts v.pieces
  | .nil, _ | .bool true, _ | .bool false, _ => rfl
  | .str s, _ => by
    rw [Value.repr, Value.pieces, Lexer.texts_cons, Lexer.text_ofText, Lexer.texts_nil, List.append_nil]
  | .num n, _ => by
    have hrepr : (Value.num n).repr = "(num " ++ n.text ++ ")" := rfl
    rw [hrepr, String.toList_append, String.toList_append]
    rfl
  | .list [], _ => rfl
  | .list (v :: vs), h => by
    have hlist : (Value.list (v :: vs)).repr = "[" ++ " ".intercalate (v.repr :: reprItems vs) ++ "]" := rfl
    rw [hlist, String.toList_append, String.toList_append, toList_spaced, Value.toList_repr h.1,
      ← toList_reprItems h.2, Value.pieces, piecesOfItems, List.nil_append]
    simp [Piece.sign]
  | .map [], _ => rfl
  | .map ((k, v) :: entries), h => by
    have hmap : (Value.map ((k, v) :: entries)).repr =
        "[" ++ " ".intercalate (("&" ++ k.repr ++ "=" ++ v.repr) :: reprEntries entries) ++ "]" := rfl
    have hpieces : (Value.map ((k, v) :: entries)).pieces =
        .sign '[' .lbracket :: (piecesOfEntries [] ((k, v) :: entries) ++ [.sign ']' .rbracket]) := rfl
    obtain ⟨⟨hk, hv, hentries⟩, -⟩ := h
    rw [hmap, String.toList_append, String.toList_append, toList_spaced, ← toList_reprEntries hentries,
      hpieces, piecesOfEntries, List.nil_append]
    simp [Piece.sign, Value.toList_repr hk, Value.toList_repr hv]

theorem toList_reprItems : ∀ {vs : List Value}, PlainItems vs →
    texts (piecesOfItems [.blank] vs) = (reprItems vs).flatMap (' ' :: ·.toList)
  | [], _ => rfl
  | v :: vs, h => by
    rw [piecesOfItems, reprItems, List.flatMap_cons, Lexer.texts_append, Lexer.texts_append,
      toList_reprItems h.2, ← Value.toList_repr h.1]
    rfl

theorem toList_reprEntries : ∀ {entries : List (Value × Value)}, PlainEntries entries →
    texts (piecesOfEntries [.blank] entries) = (reprEntries entries).flatMap (' ' :: ·.toList)
  | [], _ => rfl
  | (k, v) :: entries, ⟨hk, hv, hentries⟩ => by
    rw [piecesOfEntries, reprEntries, List.flatMap_cons, ← toList_reprEntries hentries]
    simp [Piece.sign, Piece.blank, Value.toList_repr hk, Value.toList_repr hv]

end

/-- In front of a written value stands a blank by itself. -/
theorem Value.cuts_blank {v : Value} (h : v.Plain) (rest : List Char) :
    Cuts [.blank] (texts v.pieces ++ rest) := by
  obtain ⟨c, cs, token, ps, hpieces, hblank, -⟩ := Value.pieces_first h
  refine Cuts.blank fun d hd ↦ ?_
  rw [hpieces] at hd
  obtain rfl : c = d := Option.some.inj hd
  exact hblank

theorem Num.cuts_pieces {n : Num} (h : n.Exact) (rest : List Char) : Cuts (Value.num n).pieces rest := by
  obtain ⟨hne, hbare⟩ := Num.text_bareword h
  have hclose : Cuts [.bare n.text, .sign ')' .rparen] rest :=
    .cons (Lexer.cuts_bare hne hbare (.cons (.inr (.inl rfl)) _)) (.sign fun _ ↦ rfl)
  have hblank : Cuts [.blank] (texts [.bare n.text, .sign ')' .rparen] ++ rest) := by
    refine .blank fun c hc ↦ Lexer.isBlank_of_bareword (hbare c ?_)
    obtain ⟨d, ds, hcs⟩ : ∃ d ds, n.text.toList = d :: ds := List.exists_cons_of_ne_nil (by simpa using hne)
    have htexts : texts [.bare n.text, .sign ')' .rparen] ++ rest = d :: (ds ++ ')' :: rest) := by
      simp [Piece.bare, Piece.sign, hcs]
    rw [htexts] at hc
    obtain rfl : d = c := Option.some.inj hc
    rw [hcs]
    exact List.mem_cons_self
  have hname : Cuts [.bare "num"] (texts [.blank, .bare n.text, .sign ')' .rparen] ++ rest) :=
    Lexer.cuts_bare (by decide) (List.all_eq_true.1 (by decide)) (.cons (.inl rfl) _)
  exact .cons (.sign fun _ ↦ rfl) (.cons hname (.cons hblank hclose))

/-- Behind an item stands a blank or the closing bracket. -/
theorem stops_piecesOfItems (vs : List Value) (rest : List Char) :
    Stops (texts (piecesOfItems [.blank] vs) ++ ']' :: rest) := by
  cases vs with
  | nil => exact .cons (.inr (.inr (.inl rfl))) _
  | cons v vs => exact .cons (.inl rfl) _

theorem stops_piecesOfEntries (entries : List (Value × Value)) (rest : List Char) :
    Stops (texts (piecesOfEntries [.blank] entries) ++ ']' :: rest) := by
  cases entries with
  | nil => exact .cons (.inr (.inr (.inl rfl))) _
  | cons entry entries => exact .cons (.inl rfl) _

/-- An entry is cut into its pieces if its key and its value are. -/
theorem cuts_entry {k v : Value} {ps : List Piece} {rest : List Char}
    (hk : ∀ rest, Stops rest → Cuts k.pieces rest) (hv : Cuts v.pieces (texts ps ++ rest)) (hs : Cuts ps rest) :
    Cuts (.sign '&' .amp :: (k.pieces ++ (.sign '=' .eq :: (v.pieces ++ ps)))) rest :=
  .cons (.sign fun _ ↦ rfl) (.append (hk _ (.cons (.inr (.inr (.inr rfl))) _))
    (.cons (.sign fun _ ↦ rfl) (.append hv hs)))

mutual

/-- **A written value is cut into its pieces**, wherever a value can stand. -/
theorem Value.cuts_pieces : ∀ {v : Value} {rest : List Char}, v.Plain → Stops rest → Cuts v.pieces rest
  | .nil, _, _, hrest | .bool true, _, _, hrest | .bool false, _, _, hrest =>
    Lexer.cuts_variable (List.all_eq_true.1 (by decide)) hrest
  | .str s, _, _, hrest => .ofText s hrest
  | .num _, rest, h, _ => Num.cuts_pieces h rest
  | .list [], _, _, _ => .cons (.sign fun _ ↦ rfl) (.sign fun _ ↦ rfl)
  | .list (v :: vs), rest, h, _ => by
    have hitem := Value.cuts_pieces h.1 (stops_piecesOfItems vs rest)
    have hitems : Cuts (piecesOfItems [] (v :: vs)) (']' :: rest) :=
      hitem.append (cuts_piecesOfItems h.2)
    exact .cons (.sign fun _ ↦ rfl) (.append hitems (.sign fun _ ↦ rfl))
  | .map [], _, _, _ => .cons (.sign fun _ ↦ rfl) (.cons (.sign fun _ ↦ rfl) (.sign fun _ ↦ rfl))
  | .map ((k, v) :: entries), rest, ⟨⟨hk, hv, hes⟩, _⟩, _ => by
    have hvalue := Value.cuts_pieces hv (stops_piecesOfEntries entries rest)
    have hentries : Cuts (piecesOfEntries [] ((k, v) :: entries)) (']' :: rest) :=
      cuts_entry (fun _ ↦ Value.cuts_pieces hk) hvalue (cuts_piecesOfEntries hes)
    exact .cons (.sign fun _ ↦ rfl) (.append hentries (.sign fun _ ↦ rfl))

theorem cuts_piecesOfItems : ∀ {vs : List Value} {rest : List Char}, PlainItems vs →
    Cuts (piecesOfItems [.blank] vs) (']' :: rest)
  | [], _, _ => .nil
  | v :: vs, rest, h => by
    have hitem := Value.cuts_pieces h.1 (stops_piecesOfItems vs rest)
    refine .append ?_ (hitem.append (cuts_piecesOfItems h.2))
    rw [Lexer.texts_append, List.append_assoc]
    exact Value.cuts_blank h.1 _

theorem cuts_piecesOfEntries : ∀ {entries : List (Value × Value)} {rest : List Char},
    PlainEntries entries → Cuts (piecesOfEntries [.blank] entries) (']' :: rest)
  | [], _, _ => .nil
  | (k, v) :: entries, rest, ⟨hk, hv, hes⟩ => by
    have hvalue := Value.cuts_pieces hv (stops_piecesOfEntries entries rest)
    exact .append (.blank (by rintro c ⟨⟩; rfl))
      (cuts_entry (fun _ ↦ Value.cuts_pieces hk) hvalue (cuts_piecesOfEntries hes))

end

end ValueShell
