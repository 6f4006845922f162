import Mathlib.Data.List.Forall2
import ValueShell.Proofs.ReadBack.Syntax

/-!
# Nothing of a text is lost

The tokens of a text and what is skipped between them make up the text (`tokenize_spells`).  The spans of the
tokens are not empty, come in order without overlap, and start and stop between characters of the text.  What
the tokens leave — in front of the first, between one and the next, behind the last (`gaps`) — is made of
skipped pieces only: runs of blanks, line ends joined with `^`, and comments (`Skipped`).

* **One piece** (`skipped_of_lexeme`): a piece without a token is one of the three kinds.
* **The pieces** (`pieces_whole`): when cutting comes to the end of a text, the pieces make up the text.
* **The spans** (`exists_spells`): by induction on the pieces; the text in front of them says where the next span
  starts, so that no arithmetic is left but the lengths of the texts.
-/

set_option autoImplicit false

namespace ValueShell

/-! ## Spans and the text they cover -/

theorem foldl_byteLength (cs : List Char) (n : Nat) :
    cs.foldl (fun n c ↦ n + c.utf8Size) n = n + byteLength cs := by
  rw [byteLength]
  induction cs generalizing n with
  | nil => rfl
  | cons c cs ih => rw [List.foldl_cons, List.foldl_cons, ih, ih (0 + c.utf8Size), Nat.zero_add, Nat.add_assoc]

theorem byteLength_cons (c : Char) (cs : List Char) : byteLength (c :: cs) = c.utf8Size + byteLength cs := by
  rw [byteLength, List.foldl_cons, foldl_byteLength, Nat.zero_add]

@[simp] theorem byteLength_nil : byteLength [] = 0 :=
  rfl

@[simp] theorem byteLength_append (cs ds : List Char) : byteLength (cs ++ ds) = byteLength cs + byteLength ds := by
  rw [byteLength, List.foldl_append, foldl_byteLength]
  rfl

theorem byteLength_pos {cs : List Char} (h : cs ≠ []) : 0 < byteLength cs := by
  cases cs with
  | nil => exact absurd rfl h
  | cons c cs =>
    rw [byteLength_cons]
    exact Nat.add_pos_left c.utf8Size_pos _

/-- Behind a text, the offset is its length. -/
theorem splitAtByte_byteLength (cs ds : List Char) : splitAtByte (byteLength cs) (cs ++ ds) = some (cs, ds) := by
  induction cs with
  | nil => rw [byteLength_nil, List.nil_append, splitAtByte]
  | cons c cs ih =>
    obtain ⟨n, hn⟩ := Nat.exists_eq_add_one.2 (byteLength_pos (List.cons_ne_nil c cs))
    rw [byteLength_cons] at hn
    rw [byteLength_cons, hn, List.cons_append, splitAtByte, if_pos (by omega),
      show n + 1 - c.utf8Size = byteLength cs by omega, ih, Option.map_some]

namespace Source

variable {s : Source} {span : Span} {text rest : List Char}

/-- The span covers the text, and `rest` is what the source goes on with behind it. -/
def Covers (s : Source) (span : Span) (text rest : List Char) : Prop :=
  ∃ before, s.code.toList = before ++ text ++ rest ∧ span.start = byteLength before ∧
    span.stop = byteLength before + byteLength text

/-- A span that covers a text starts between characters. -/
theorem Covers.isSome_start (h : s.Covers span text rest) : (splitAtByte span.start s.code.toList).isSome := by
  obtain ⟨before, hcode, hstart, -⟩ := h
  rw [hcode, hstart, List.append_assoc, splitAtByte_byteLength, Option.isSome_some]

/-- A span that covers a text stops between characters. -/
theorem Covers.isSome_stop (h : s.Covers span text rest) : (splitAtByte span.stop s.code.toList).isSome := by
  obtain ⟨before, hcode, -, hstop⟩ := h
  rw [hcode, hstop, ← byteLength_append, splitAtByte_byteLength, Option.isSome_some]

theorem Covers.stop_le (h : s.Covers span text rest) : span.stop ≤ byteLength s.code.toList := by
  obtain ⟨before, hcode, -, hstop⟩ := h
  rw [hcode, hstop, byteLength_append, byteLength_append]
  exact Nat.le_add_right _ _

theorem Covers.stop_eq (h : s.Covers span text rest) : span.stop = span.start + byteLength text := by
  obtain ⟨before, -, hstart, hstop⟩ := h
  rw [hstart, hstop]

/-- Where a span starts says what it covers. -/
theorem Covers.eq_append {before after : List Char} (h : s.Covers span text rest)
    (hcode : s.code.toList = before ++ after) (hstart : span.start = byteLength before) : after = text ++ rest := by
  obtain ⟨before', hcode', hstart', -⟩ := h
  have hsplit : splitAtByte span.start s.code.toList = some (before, after) := by
    rw [hcode, hstart, splitAtByte_byteLength]
  rw [hcode', hstart', List.append_assoc, splitAtByte_byteLength] at hsplit
  exact (Prod.mk.inj (Option.some.inj hsplit)).2.symm

/-- A span is empty if it covers nothing. -/
theorem Covers.start_eq_stop_iff (h : s.Covers span text rest) : span.start = span.stop ↔ text = [] := by
  rw [h.stop_eq, Nat.left_eq_add]
  constructor
  · intro hzero
    by_contra hne
    exact (byteLength_pos hne).ne' hzero
  · rintro rfl
    exact byteLength_nil

/-- The text a span covers is the one that is shown for it. -/
theorem Covers.slice (h : s.Covers span text rest) : s.slice span = some (String.ofList text) := by
  have hstop := h.stop_eq
  obtain ⟨before, hcode, hstart, -⟩ := h
  rw [Source.slice, if_pos (by omega), hcode, hstop, hstart, List.append_assoc, splitAtByte_byteLength,
    Nat.add_sub_cancel_left]
  simp [splitAtByte_byteLength]

end Source

/-! ## What is skipped -/

namespace Lexer

/-- A piece that is skipped, with what stands behind it: a run of blanks up to something else, the end of a line
joined to the next line with `^`, or a comment up to the end of its line. -/
inductive Skipped : List Char → List Char → Prop where
  | blanks {cs rest : List Char} (hne : cs ≠ []) (h : ∀ c ∈ cs, c = ' ' ∨ c = '\t' ∨ c = '\r')
      (hrest : ∀ c ∈ rest.head?, c ≠ ' ' ∧ c ≠ '\t' ∧ c ≠ '\r') : Skipped cs rest
  | joined {rest : List Char} : Skipped ['^', '\n'] rest
  | joinedReturn {rest : List Char} : Skipped ['^', '\r', '\n'] rest
  | comment {cs rest : List Char} (h : '\n' ∉ cs) (hrest : ∀ c ∈ rest.head?, c = '\n') : Skipped ('#' :: cs) rest

/-- Pieces that are skipped, one behind the other, with what stands behind the last. -/
def AllSkipped : List (List Char) → List Char → Prop
  | [], _ => True
  | cs :: pieces, rest => Skipped cs (pieces.flatten ++ rest) ∧ AllSkipped pieces rest

variable {c : Char} {cs rest : List Char} {n : Nat} {p : Piece} {ps : List Piece}

theorem Skipped.ne_nil (h : Skipped cs rest) : cs ≠ [] := by
  cases h with
  | blanks hne _ _ => exact hne
  | joined => nofun
  | joinedReturn => nofun
  | comment _ _ => nofun

theorem AllSkipped.flatten_eq_nil_iff {pieces : List (List Char)} (h : AllSkipped pieces rest) :
    pieces.flatten = [] ↔ pieces = [] := by
  cases pieces with
  | nil => simp
  | cons cs pieces => simp [h.1.ne_nil]

theorem isBlank_iff : isBlank c = true ↔ c = ' ' ∨ c = '\t' ∨ c = '\r' := by
  simp [isBlank, or_assoc]

theorem take_run (q : Char → Bool) (cs : List Char) : cs.take (run q cs) = cs.takeWhile q :=
  (List.prefix_iff_eq_take.1 (List.takeWhile_prefix q)).symm

theorem drop_run (q : Char → Bool) (cs : List Char) : cs.drop (run q cs) = cs.dropWhile q := by
  have h := List.take_append_drop (run q cs) cs
  rw [take_run] at h
  exact List.append_cancel_left (h.trans List.takeWhile_append_dropWhile.symm)

/-- A run ends in front of a character of another kind. -/
theorem head_dropWhile {q : Char → Bool} (hc : c ∈ (cs.dropWhile q).head?) : q c = false := by
  have h := List.head?_dropWhile_not q cs
  rw [hc] at h
  exact h

/-! ## One piece -/

/-- Where a token is made of what was read, the piece is not skipped. -/
theorem token_ne_skipped {α : Type} (x : Except LexFault α) (m : Nat) (token : α → Token) :
    (do let a ← x; return (m, some (token a))) ≠ Except.ok (n, none) := by
  cases x with
  | error _ => nofun
  | ok _ => nofun

theorem redirection_ne_skipped (ds : List Char) : redirection ds cs ≠ .ok (n, none) := by
  unfold redirection
  split
  next => exact token_ne_skipped _ _ _
  next rest =>
    by_cases htarget : (rest.takeWhile Char.isDigit).isEmpty
    · rw [if_pos htarget]
      split <;> nofun
    · rw [if_neg htarget]
      split
      next => nofun
      next => exact token_ne_skipped _ _ _
  next => exact token_ne_skipped _ _ _

theorem number_ne_skipped : number c cs ≠ .ok (n, none) := by
  intro h
  unfold number at h
  split at h
  next rest _ =>
    cases hr : redirection (c :: cs.takeWhile Char.isDigit) rest with
    | error _ =>
      rw [hr] at h
      cases h
    | ok found =>
      obtain ⟨m, token⟩ := found
      rw [hr] at h
      obtain ⟨-, rfl⟩ := Prod.mk.inj (Except.ok.inj h)
      exact redirection_ne_skipped _ hr
  next => cases h

/-- **A piece without a token is skipped.** -/
theorem skipped_of_lexeme (h : lexeme c cs = .ok (n, none)) : Skipped (c :: cs.take n) (cs.drop n) := by
  unfold lexeme at h
  split at h
  case h_12 =>
    cases h
    rw [take_run, drop_run]
    exact .comment (fun hmem ↦ by simpa using List.mem_takeWhile_imp hmem)
      fun c hc ↦ by simpa using head_dropWhile hc
  case h_13 => exact absurd h (redirection_ne_skipped _)
  case h_14 =>
    unfold «variable» at h
    split at h <;> cases h
  case h_15 => split at h <;> cases h
  case h_16 =>
    split at h
    next => exact absurd h (token_ne_skipped _ _ _)
    next => cases h
  case h_17 =>
    split at h <;> cases h
    next => exact .joined
    next => exact .joinedReturn
  case h_18 =>
    split at h
    next hblank =>
      cases h
      rw [take_run, drop_run]
      refine .blanks nofun (fun d hd ↦ isBlank_iff.1 ?_) fun d hd ↦ ?_
      · rcases List.mem_cons.1 hd with rfl | hd
        · exact hblank
        · exact List.mem_takeWhile_imp hd
      · have hd := head_dropWhile hd
        rw [← Bool.not_eq_true, isBlank_iff] at hd
        tauto
    next =>
      split at h
      next => exact absurd h number_ne_skipped
      next => split at h <;> cases h
  all_goals cases h

/-! ## All pieces -/

/-- The pieces are not empty, and those without a token are skipped. -/
def Whole : List Piece → Prop
  | [] => True
  | p :: ps => p.text ≠ [] ∧ (p.token = none → Skipped p.text (texts ps)) ∧ Whole ps

/-- **Nothing is lost between the pieces**: when cutting comes to the end of a text, the pieces make it up. -/
theorem pieces_whole (cs : List Char) (h : (pieces cs).2 = none) :
    texts (pieces cs).1 = cs ∧ Whole (pieces cs).1 := by
  induction cs using pieces.induct with
  | case1 =>
    rw [pieces]
    exact ⟨rfl, trivial⟩
  | case2 c cs fault hf =>
    rw [pieces, hf] at h
    cases h
  | case3 c cs n token hl _ _ _ ih =>
    rw [pieces, hl] at h ⊢
    obtain ⟨htexts, hwhole⟩ := ih h
    refine ⟨?_, List.cons_ne_nil _ _, ?_, hwhole⟩
    · rw [texts_cons, htexts, List.cons_append, List.take_append_drop]
    · rintro rfl
      rw [htexts]
      exact skipped_of_lexeme hl

/-! ## The spans -/

/-- The spans that tokens leave between one offset and another: in front of the first, between one and the
next, and behind the last. -/
def gaps : Nat → List Spanned → Nat → List Span
  | start, [], stop => [⟨start, stop⟩]
  | start, t :: tokens, stop => ⟨start, t.span.start⟩ :: gaps t.span.stop tokens stop

/-- Stretches of text, with other stretches put between one and the next. -/
def weave : List (List Char) → List (List Char) → List Char
  | between :: others, text :: texts => between ++ text ++ weave others texts
  | others, [] => others.flatten
  | [], texts => texts.flatten

end Lexer

/-- The code of a source is the texts of the tokens with the skipped pieces in front of them, between them and
behind them, in this order. -/
structure Source.Spells (s : Source) (tokens : List Spanned) (texts : List (List Char))
    (skipped : List (List (List Char))) : Prop where
  /-- What the spans of the tokens cover -/
  covers : List.Forall₂ (fun t text ↦ text ≠ [] ∧ ∃ rest, s.Covers t.span text rest) tokens texts
  /-- What the gaps cover -/
  skips : List.Forall₂ (fun gap pieces ↦ ∃ rest, s.Covers gap pieces.flatten rest ∧ Lexer.AllSkipped pieces rest)
    (Lexer.gaps 0 tokens (byteLength s.code.toList)) skipped
  /-- Where tokens touch, and where a token touches an end of the text -/
  touch : List.Forall₂ (fun gap pieces ↦ gap.start = gap.stop ↔ pieces = [])
    (Lexer.gaps 0 tokens (byteLength s.code.toList)) skipped
  /-- What the code is -/
  code : s.code.toList = Lexer.weave (skipped.map List.flatten) texts

namespace Lexer

variable {s : Source} {before : List Char} {ps : List Piece} {offset start stop : Nat}

theorem le_start_of_mem_place {t : Spanned} (h : t ∈ place offset ps) : offset ≤ t.span.start := by
  induction ps generalizing offset with
  | nil => cases h
  | cons p ps ih =>
    cases hp : p.token with
    | none =>
      rw [place_skipped hp] at h
      exact (Nat.le_add_right _ _).trans (ih h)
    | some token =>
      rw [place_token hp] at h
      rcases List.mem_cons.1 h with rfl | h
      · exact le_rfl
      · exact (Nat.le_add_right _ _).trans (ih h)

/-- The spans of the tokens come in order and do not overlap. -/
theorem pairwise_place : (place offset ps).Pairwise fun t u ↦ t.span.stop ≤ u.span.start := by
  induction ps generalizing offset with
  | nil => exact .nil
  | cons p ps ih =>
    cases hp : p.token with
    | none =>
      rw [place_skipped hp]
      exact ih
    | some token =>
      rw [place_token hp]
      exact .cons (fun _ ↦ le_start_of_mem_place) ih

/-- Only the first gap depends on where the text starts. -/
theorem exists_gaps (tokens : List Spanned) (stop : Nat) :
    ∃ first others, ∀ start, gaps start tokens stop = ⟨start, first⟩ :: others := by
  cases tokens with
  | nil => exact ⟨stop, [], fun _ ↦ rfl⟩
  | cons t tokens => exact ⟨t.span.start, gaps t.span.stop tokens stop, fun _ ↦ rfl⟩

theorem append_weave (text between : List Char) (others tokenTexts : List (List Char)) :
    text ++ weave (between :: others) tokenTexts = weave ((text ++ between) :: others) tokenTexts := by
  cases tokenTexts with
  | nil => rw [weave, weave, List.flatten_cons, List.flatten_cons, List.append_assoc]
  | cons _ _ => rw [weave, weave, List.append_assoc, List.append_assoc, List.append_assoc]

/-- The tokens that stand behind a text, and the skipped pieces around them. -/
theorem exists_spells (hwhole : Whole ps) (hcode : s.code.toList = before ++ texts ps) :
    ∃ tokenTexts skipped,
      List.Forall₂ (fun t text ↦ text ≠ [] ∧ ∃ rest, s.Covers t.span text rest)
        (place (byteLength before) ps) tokenTexts ∧
      List.Forall₂ (fun gap pieces ↦ ∃ rest, s.Covers gap pieces.flatten rest ∧ AllSkipped pieces rest)
        (gaps (byteLength before) (place (byteLength before) ps) (byteLength s.code.toList)) skipped ∧
      texts ps = weave (skipped.map List.flatten) tokenTexts := by
  induction ps generalizing before with
  | nil =>
    refine ⟨[], [[]], .nil, .cons ⟨[], ⟨before, ?_, rfl, ?_⟩, trivial⟩ .nil, rfl⟩
    · simpa using hcode
    · simp [hcode]
  | cons p ps ih =>
    obtain ⟨hne, hskipped, hwhole⟩ := hwhole
    have hcode' : s.code.toList = (before ++ p.text) ++ texts ps := by
      rw [hcode, texts_cons, List.append_assoc]
    obtain ⟨tokenTexts, skipped, hcovers, hgaps, htexts⟩ := ih hwhole hcode'
    rw [byteLength_append] at hcovers hgaps
    cases hp : p.token with
    | none =>
      rw [place_skipped hp]
      obtain ⟨first, others, hfirst⟩ := exists_gaps (place (byteLength before + byteLength p.text) ps)
        (byteLength s.code.toList)
      rw [hfirst] at hgaps ⊢
      obtain ⟨pieces, others, ⟨rest, hcover, hall⟩, hothers, rfl⟩ := List.forall₂_cons_left_iff.1 hgaps
      have hrest : texts ps = pieces.flatten ++ rest := hcover.eq_append hcode' (byteLength_append _ _).symm
      refine ⟨tokenTexts, (p.text :: pieces) :: others, hcovers,
        .cons ⟨rest, ⟨before, ?_, rfl, ?_⟩, hrest ▸ hskipped hp, hall⟩ hothers, ?_⟩
      · rw [hcode', hrest, List.flatten_cons, List.append_assoc, List.append_assoc, List.append_assoc]
      · rw [List.flatten_cons, byteLength_append, ← Nat.add_assoc]
        exact hcover.stop_eq
      · rw [texts_cons, htexts, List.map_cons, List.map_cons, List.flatten_cons, append_weave]
    | some token =>
      rw [place_token hp]
      refine ⟨p.text :: tokenTexts, [] :: skipped, .cons ⟨hne, texts ps, before, ?_, rfl, rfl⟩ hcovers,
        .cons ⟨p.text ++ texts ps, ⟨before, ?_, rfl, rfl⟩, trivial⟩ hgaps, ?_⟩
      · rw [hcode']
      · simpa using hcode
      · rw [texts_cons, htexts]
        rfl

end Lexer

theorem exists_of_forall₂ {α β : Type} {R : α → β → Prop} {as : List α} {bs : List β} (h : List.Forall₂ R as bs) :
    ∀ a ∈ as, ∃ b, R a b := by
  induction h with
  | nil => simp
  | cons hab _ ih => exact List.forall_mem_cons.2 ⟨⟨_, hab⟩, ih⟩

/-- **Nothing of a text is lost.**  When a text is cut into tokens, their spans are not empty, lie inside the text,
start and stop between characters, and come in order without overlap.  The text is the tokens and skipped pieces in
order, and a gap between tokens is empty if no piece is skipped there. -/
theorem tokenize_spells {s : Source} {tokens : List Spanned} (h : tokenize s.code.toList = .ok tokens) :
    (∀ t ∈ tokens, t.span.start < t.span.stop ∧ t.span.stop ≤ byteLength s.code.toList ∧
      (splitAtByte t.span.start s.code.toList).isSome ∧ (splitAtByte t.span.stop s.code.toList).isSome) ∧
    tokens.Pairwise (fun t u ↦ t.span.stop ≤ u.span.start) ∧
    ∃ texts skipped, s.Spells tokens texts skipped := by
  unfold tokenize at h
  split at h
  next ps hps =>
    obtain rfl := Except.ok.inj h
    have hpieces := Lexer.pieces_whole s.code.toList (by rw [hps])
    rw [hps] at hpieces
    have hall : s.code.toList = [] ++ Lexer.texts ps := hpieces.1.symm
    obtain ⟨texts, skipped, hcovers, hskips, hcode⟩ := Lexer.exists_spells hpieces.2 hall
    refine ⟨fun t ht ↦ ?_, Lexer.pairwise_place, texts, skipped, hcovers, hskips, ?_, hpieces.1.symm.trans hcode⟩
    · obtain ⟨text, hne, rest, hcover⟩ := exists_of_forall₂ hcovers t ht
      have hstop := hcover.stop_eq
      have hpos := byteLength_pos hne
      exact ⟨by omega, hcover.stop_le, hcover.isSome_start, hcover.isSome_stop⟩
    · refine hskips.imp fun gap pieces ↦ ?_
      rintro ⟨rest, hcover, hall⟩
      rw [hcover.start_eq_stop_iff, hall.flatten_eq_nil_iff]
  next => cases h

/-- Three tokens, two of which touch, with blanks, joined lines and a comment around them. -/
theorem tokenize_spells_joined :
    let s : Source := ⟨0, "", "put ^\r\n $x; # é", none⟩
    let tokens : List Spanned :=
      [⟨.bareword "put", ⟨0, 3⟩⟩, ⟨.variable "x" false, ⟨8, 10⟩⟩, ⟨.semicolon, ⟨10, 11⟩⟩]
    tokenize s.code.toList = .ok tokens ∧ ∃ texts skipped, s.Spells tokens texts skipped := by
  intro s tokens
  have h : tokenize s.code.toList = .ok tokens := by decide +kernel
  exact ⟨h, (tokenize_spells h).2.2⟩

end ValueShell
