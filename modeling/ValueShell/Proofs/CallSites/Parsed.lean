import ValueShell.Proofs.CallSites.Regions
import ValueShell.Proofs.Flattening.WellFormed
import ValueShell.Proofs.Parsing

/-!
# The trees that the parser gives lie well on their tokens

`Cursor.Reads c read c'` says that the tokens `read` lead from one cursor to another, and `Parser.Takes m P` that `P`
holds of the tokens a parser has read and of what it gives.  A node fills the tokens that were read for it
(`Region.Covers`), and a list of nodes fits on them in order (`Region.Fits`).  What is read later stands behind, so the
order of nodes and that one lies in the other follow from the order of the tokens, by `Region.Fits.append` and
`Region.Covers.node`.

As for well-formedness, `Parser.TakesTrees n` speaks of all rules at once, and there is one lemma for each rule.
-/

set_option autoImplicit false

namespace ValueShell

/-! ## Tokens in order -/

/-- The spans of the tokens are not empty, and come in order without overlap. -/
structure InOrder (tokens : List Spanned) : Prop where
  lt : ∀ t ∈ tokens, t.span.start < t.span.stop
  before : tokens.Pairwise fun t u ↦ t.span.Before u.span

namespace InOrder

variable {tokens tokens' : List Spanned}

theorem left (h : InOrder (tokens ++ tokens')) : InOrder tokens where
  lt t ht := h.lt t (List.mem_append_left _ ht)
  before := (List.pairwise_append.1 h.before).1

theorem right (h : InOrder (tokens ++ tokens')) : InOrder tokens' where
  lt t ht := h.lt t (List.mem_append_right _ ht)
  before := (List.pairwise_append.1 h.before).2.1

theorem across (h : InOrder (tokens ++ tokens')) {t u : Spanned} (ht : t ∈ tokens) (hu : u ∈ tokens') :
    t.span.Before u.span :=
  (List.pairwise_append.1 h.before).2.2 t ht u hu

/-- What lies on earlier tokens comes before what lies on later ones. -/
theorem before_of_onTokens (h : InOrder (tokens ++ tokens')) {a b : Span} (ha : a.OnTokens tokens)
    (hb : b.OnTokens tokens') : a.Before b := by
  obtain ⟨t, ht, hstop⟩ := ha.stop
  obtain ⟨u, hu, hstart⟩ := hb.start
  have htu := h.across ht hu
  rw [Span.Before] at htu ⊢
  omega

end InOrder

/-- The span starts with the first of the tokens and stops with the last. -/
structure Span.Fills (span : Span) (read : List Spanned) : Prop where
  start : ∃ t rest, read = t :: rest ∧ t.span.start = span.start
  stop : ∃ before t, read = before ++ [t] ∧ t.span.stop = span.stop

namespace Span.Fills

variable {span a : Span} {read read' : List Spanned}

/-- What lies on the tokens starts no earlier. -/
theorem start_le (h : span.Fills read) (hread : InOrder read) {t : Spanned} (ht : t ∈ read) :
    span.start ≤ t.span.start := by
  obtain ⟨first, rest, rfl, hstart⟩ := h.start
  rcases List.mem_cons.1 ht with rfl | ht
  · omega
  · have hlt := hread.lt first List.mem_cons_self
    have hbefore := (List.pairwise_cons.1 hread.before).1 t ht
    rw [Span.Before] at hbefore
    omega

theorem le_stop (h : span.Fills read) (hread : InOrder read) {t : Spanned} (ht : t ∈ read) :
    t.span.stop ≤ span.stop := by
  obtain ⟨before, last, rfl, hstop⟩ := h.stop
  rcases List.mem_append.1 ht with ht | ht
  · have hlt := hread.lt last (by simp)
    have hbefore := hread.across ht (List.mem_singleton_self last)
    rw [Span.Before] at hbefore
    omega
  · obtain rfl := List.mem_singleton.1 ht
    omega

theorem within (h : span.Fills read) (hread : InOrder read) (ha : a.OnTokens read) : a.Within span := by
  obtain ⟨t, ht, hstart⟩ := ha.start
  obtain ⟨u, hu, hstop⟩ := ha.stop
  exact ⟨hstart ▸ h.start_le hread ht, hstop ▸ h.le_stop hread hu⟩

theorem onTokens (h : span.Fills read) (hread : InOrder read) : span.OnTokens read := by
  obtain ⟨first, rest, hfirst, hstart⟩ := h.start
  obtain ⟨before, last, hlast, hstop⟩ := h.stop
  have hmem : first ∈ read := by simp [hfirst]
  refine ⟨⟨first, hmem, hstart⟩, ⟨last, by simp [hlast], hstop⟩, ?_⟩
  have hlt := hread.lt first hmem
  have hle := h.le_stop hread hmem
  omega

/-- Behind the first tokens, everything starts later. -/
theorem lt_start (h : span.Fills (read ++ read')) (hread : InOrder (read ++ read')) (hne : read ≠ [])
    (ha : a.OnTokens read') : span.start < a.start := by
  obtain ⟨t, rest, rfl⟩ := List.exists_cons_of_ne_nil hne
  obtain ⟨u, hu, hstart⟩ := ha.start
  have hmem : t ∈ t :: rest ++ read' := by simp
  have hle := h.start_le hread hmem
  have hlt := hread.lt t hmem
  have hbefore := hread.across List.mem_cons_self hu
  rw [Span.Before] at hbefore
  omega

end Span.Fills

/-! ## Regions on the tokens that were read -/

namespace Region

variable {read read' : List Spanned} {r : Region} {rs rs' : List Region}

/-- The regions lie well on the tokens and come in order. -/
structure Fits (read : List Spanned) (rs : List Region) : Prop where
  laid : ∀ r ∈ rs, r.Laid read
  before : rs.Pairwise fun r r' ↦ r.span.Before r'.span

/-- The region lies well on the tokens and fills them. -/
structure Covers (read : List Spanned) (r : Region) : Prop where
  laid : r.Laid read
  fills : r.span.Fills read

namespace Fits

theorem nil : Fits read [] :=
  ⟨nofun, .nil⟩

theorem mono (h : Fits read rs) (hsub : read ⊆ read') : Fits read' rs :=
  ⟨fun r hr ↦ (h.laid r hr).mono hsub, h.before⟩

theorem left (h : Fits read rs) : Fits (read ++ read') rs :=
  h.mono (List.subset_append_left _ _)

theorem right (h : Fits read' rs) : Fits (read ++ read') rs :=
  h.mono (List.subset_append_right _ _)

/-- What is on later tokens comes later. -/
theorem append (h : Fits read rs) (h' : Fits read' rs') (hread : InOrder (read ++ read')) :
    Fits (read ++ read') (rs ++ rs') where
  laid r hr := by
    rcases List.mem_append.1 hr with hr | hr
    · exact h.left.laid r hr
    · exact h'.right.laid r hr
  before := List.pairwise_append.2 ⟨h.before, h'.before, fun r hr r' hr' ↦
    hread.before_of_onTokens (h.laid r hr).onTokens (h'.laid r' hr').onTokens⟩

theorem single (h : r.Laid read) : Fits read [r] :=
  ⟨by simpa using h, List.pairwise_singleton _ _⟩

theorem cons (h : r.Laid read) (h' : Fits read' rs) (hread : InOrder (read ++ read')) :
    Fits (read ++ read') (r :: rs) :=
  (single h).append h' hread

end Fits

/-- Both lists fit on the tokens, and nothing of one overlaps with anything of the other. -/
structure FitsBeside (read : List Spanned) (rs rs' : List Region) : Prop where
  inside : Fits read rs
  aside : Fits read rs'
  apart : ∀ r ∈ rs, ∀ r' ∈ rs', r.span.Apart r'.span

namespace FitsBeside

variable {aside : List Region}

theorem nil (h : Fits read rs) : FitsBeside read rs [] :=
  ⟨h, .nil, nofun⟩

theorem cons (h : r.Laid read) (h' : FitsBeside read' rs aside) (hread : InOrder (read ++ read')) :
    FitsBeside (read ++ read') (r :: rs) aside where
  inside := .cons h h'.inside hread
  aside := h'.aside.right
  apart := List.forall_mem_cons.2 ⟨fun _ hr ↦
    .inl (hread.before_of_onTokens h.onTokens (h'.aside.laid _ hr).onTokens), h'.apart⟩

theorem consAside (h : r.Laid read) (h' : FitsBeside read' rs aside) (hread : InOrder (read ++ read')) :
    FitsBeside (read ++ read') rs (r :: aside) where
  inside := h'.inside.right
  aside := .cons h h'.aside hread
  apart r' hr' := List.forall_mem_cons.2
    ⟨.inr (hread.before_of_onTokens h.onTokens (h'.inside.laid _ hr').onTokens), h'.apart r' hr'⟩

end FitsBeside

namespace Covers

/-- A node around what fits on its tokens. -/
theorem node {kind : Kind} {span : Span} {aside : List Region} (hread : InOrder read) (hspan : span.Fills read)
    (hinside : FitsBeside read rs aside) (hpipeline : kind = .pipeline → aside = [])
    (hopens : ∀ r ∈ rs ++ aside, r.kind.opens = true → kind = .pipeline ∨ span.start < r.span.start) :
    Covers read (.node kind span rs aside) := by
  have hparts : ∀ r ∈ rs ++ aside, r.Laid read :=
    List.forall_mem_append.2 ⟨hinside.inside.laid, hinside.aside.laid⟩
  have hwithin : ∀ r ∈ rs ++ aside, r.span.Within span := fun r hr ↦ hspan.within hread (hparts r hr).onTokens
  exact ⟨.node (hspan.onTokens hread) hwithin hinside.inside.before hinside.aside.before hinside.apart hpipeline hopens
    hparts, hspan⟩

/-- A node with nothing aside. -/
theorem around {kind : Kind} {span : Span} (hread : InOrder read) (hspan : span.Fills read) (hinside : Fits read rs)
    (hopens : ∀ r ∈ rs, r.kind.opens = true → kind = .pipeline ∨ span.start < r.span.start) :
    Covers read (.node kind span rs []) :=
  node hread hspan (.nil hinside) (fun _ ↦ rfl) (by simpa using hopens)

/-- A node around words. -/
theorem shut {kind : Kind} {span : Span} (hread : InOrder read) (hspan : span.Fills read) (hinside : Fits read rs)
    (hshut : Shut rs) : Covers read (.node kind span rs []) :=
  around hread hspan hinside fun _ hr hopens ↦ absurd hopens (hshut.not_opens hr)

/-- An argument is its word, also if that is removed. -/
theorem arg {word : Compound} (hread : InOrder read) (h : Covers read word.region) (deletes : Bool) :
    Covers read ((Item.arg word).region deletes) := by
  cases deletes with
  | false => exact h
  | true =>
    refine shut hread ?_ (.single h.laid) (Shut.nil.word word)
    rw [Compound.region_eq] at h
    exact h.fills

theorem ne_nil (h : Covers read r) : read ≠ [] := by
  obtain ⟨t, rest, rfl, -⟩ := h.fills.start
  exact List.cons_ne_nil t rest

end Covers

end Region

/-! ## What a parser reads -/

/-- The tokens lead from the first cursor to the second. -/
structure Cursor.Reads (c : Cursor) (read : List Spanned) (c' : Cursor) : Prop where
  rest : c.rest = read ++ c'.rest
  behind : c'.behind = (read.getLast?.map (·.span.stop)).or c.behind

namespace Cursor

variable {c c₁ c₂ : Cursor} {read read' : List Spanned}

namespace Reads

theorem refl (c : Cursor) : c.Reads [] c :=
  ⟨rfl, rfl⟩

theorem trans (h : c.Reads read c₁) (h' : c₁.Reads read' c₂) : c.Reads (read ++ read') c₂ where
  rest := by rw [h.rest, h'.rest, List.append_assoc]
  behind := by
    rw [h'.behind, h.behind, List.getLast?_append]
    cases read'.getLast? <;> rfl

theorem inOrder (h : c.Reads read c₁) (hc : InOrder c.rest) : InOrder read :=
  (h.rest ▸ hc).left

theorem inOrder_rest (h : c.Reads read c₁) (hc : InOrder c.rest) : InOrder c₁.rest :=
  (h.rest ▸ hc).right

/-- From where the first token starts to the end of the last one is the span of the tokens. -/
theorem fills (h : c.Reads read c₁) (hne : read ≠ []) : Span.Fills ⟨c.here, c₁.lastEnd⟩ read where
  start := by
    obtain ⟨t, rest, rfl⟩ := List.exists_cons_of_ne_nil hne
    refine ⟨t, rest, rfl, ?_⟩
    rw [here, h.rest, List.cons_append]
  stop := by
    refine ⟨read.dropLast, read.getLast hne, (List.dropLast_append_getLast hne).symm, ?_⟩
    rw [lastEnd, h.behind, List.getLast?_eq_some_getLast hne]
    rfl

end Reads

theorem reads_tail_of_none (h : c.next? = none) : c.Reads [] c.tail := by
  rw [next?, Option.map_eq_none_iff, List.head?_eq_none_iff] at h
  rw [tail]
  split
  · simp_all
  · exact .refl c

theorem exists_reads_tail {token : Token} (h : c.next? = some token) : ∃ t, t.token = token ∧ c.Reads [t] c.tail := by
  rw [next?, Option.map_eq_some_iff] at h
  obtain ⟨t, ht, rfl⟩ := h
  obtain ⟨rest, hrest⟩ := List.head?_eq_some_iff.1 ht
  refine ⟨t, rfl, ?_⟩
  rw [tail]
  split
  · rename_i heq
    rw [hrest] at heq
    cases heq
    exact ⟨hrest, rfl⟩
  · simp_all

theorem exists_reads_skip_go (p : Token → Bool) (rest : List Spanned) (behind : Option Nat) :
    ∃ read, rest = read ++ (skip.go p c rest behind).rest ∧
      (skip.go p c rest behind).behind = (read.getLast?.map (·.span.stop)).or behind := by
  induction rest generalizing behind with
  | nil => exact ⟨[], rfl, rfl⟩
  | cons t rest ih =>
    rw [skip.go]
    split
    · obtain ⟨read, hrest, hbehind⟩ := ih (some t.span.stop)
      refine ⟨t :: read, by rw [List.cons_append, ← hrest], ?_⟩
      rw [hbehind, List.getLast?_cons]
      cases read.getLast? <;> rfl
    · exact ⟨[], rfl, rfl⟩

theorem exists_reads_skip (p : Token → Bool) (c : Cursor) : ∃ read, c.Reads read (c.skip p) := by
  obtain ⟨read, hrest, hbehind⟩ := exists_reads_skip_go p c.rest c.behind
  exact ⟨read, hrest, hbehind⟩

end Cursor

namespace Parser

open Region

variable {α β : Type} {m : Parser α} {f : α → Parser β} {P : List Spanned → α → Prop} {c c₂ : Cursor}

/-- `P` holds of the tokens that the parser has read and of what it gives. -/
def Takes (m : Parser α) (P : List Spanned → α → Prop) : Prop :=
  ∀ c a c', InOrder c.rest → m c = .ok (a, c') → ∃ read, c.Reads read c' ∧ P read a

/-- The first of two parsers in a row has read some tokens, and the second goes on behind them. -/
theorem Takes.bind_ok {b : β} (h : Takes m P) (hc : InOrder c.rest) (hm : (m >>= f) c = .ok (b, c₂)) :
    ∃ a c₁ read, c.Reads read c₁ ∧ InOrder c₁.rest ∧ P read a ∧ f a c₁ = .ok (b, c₂) := by
  obtain ⟨a, c₁, hma, hfa⟩ := Parser.bind_ok hm
  obtain ⟨read, hread, ha⟩ := h c a c₁ hc hma
  exact ⟨a, c₁, read, hread, hread.inOrder_rest hc, ha, hfa⟩

theorem wordTouches_run : wordTouches c = .ok (c.touches && c.next?.any Token.startsWord, c) :=
  rfl

theorem wordContinues_run : wordContinues c = .ok (c.touches && c.next?.any Token.continuesWord, c) :=
  rfl

theorem discard_advance_run : discard advance c = .ok ((), c.tail) :=
  rfl

theorem spanFrom_run {start : Nat} : spanFrom start c = .ok (⟨start, c.lastEnd⟩, c) :=
  rfl

theorem Takes.fail {fault : SyntaxFault} : Takes (Parser.fail fault) P := by
  rintro c a c' hc hm
  cases hm

theorem advance_takes : Takes advance fun read next ↦
    (next = none ∧ read = []) ∨ ∃ t, next = some t.token ∧ read = [t] := by
  rintro c a c' hc hm
  cases hm
  cases hnext : c.next? with
  | none => exact ⟨[], Cursor.reads_tail_of_none hnext, .inl ⟨rfl, rfl⟩⟩
  | some token =>
    obtain ⟨t, rfl, hread⟩ := Cursor.exists_reads_tail hnext
    exact ⟨[t], hread, .inr ⟨t, rfl, rfl⟩⟩

theorem discard_advance_takes : Takes (discard advance) fun _ _ ↦ True := by
  rintro c a c' hc hm
  cases hm
  obtain ⟨read, hread, -⟩ := advance_takes c _ _ hc rfl
  exact ⟨read, hread, trivial⟩

theorem skipNewlines_takes : Takes skipNewlines fun _ _ ↦ True := by
  rintro c a c' hc hm
  cases hm
  obtain ⟨read, hread⟩ := Cursor.exists_reads_skip (· = .newline) c
  exact ⟨read, hread, trivial⟩

theorem skipSeparators_takes : Takes skipSeparators fun _ _ ↦ True := by
  rintro c a c' hc hm
  cases hm
  obtain ⟨read, hread⟩ := Cursor.exists_reads_skip (fun token ↦ token = .newline || token = .semicolon) c
  exact ⟨read, hread, trivial⟩

theorem expect_takes (wanted : Token) : Takes (expect wanted) fun read _ ↦ read ≠ [] := by
  rintro c a c' hc hm
  rw [expect] at hm
  obtain ⟨next, c₁, hpeek, hm⟩ := Parser.bind_ok hm
  cases hpeek
  split at hm
  next hnext =>
    obtain ⟨t, -, hread⟩ := Cursor.exists_reads_tail hnext
    cases hm
    exact ⟨[t], hread, List.cons_ne_nil _ _⟩
  next => cases hm

theorem endPipeline_takes (close : Option Token) : Takes (endPipeline close) fun _ _ ↦ True := by
  rintro c a c' hc hm
  rw [endPipeline] at hm
  obtain ⟨next, c₁, hpeek, hm⟩ := Parser.bind_ok hm
  cases hpeek
  generalize c.next? = next at hm
  split at hm
  iterate 3
    cases hm
    exact ⟨[], .refl c, trivial⟩
  split at hm
  · cases hm
    exact ⟨[], .refl c, trivial⟩
  · cases hm

/-! ## The rules -/

/-- The region of a lambda whose first tokens have been read before. -/
def LambdaCovers (before read : List Spanned) (p : Primary) : Prop :=
  InOrder (before ++ read) → ∃ l, p = .lambda l ∧ Covers (before ++ read) l.region

/-- What stands in a primary fits on its tokens, and what a site can start with lies behind the first of them. -/
inductive FitsPrimary : List Spanned → Primary → Prop where
  | intro {t : Spanned} {rest : List Spanned} {p : Primary} (hfits : Fits (t :: rest) p.regions)
    (hopens : ∀ r ∈ p.regions, r.kind.opens = true → r.Laid rest) : FitsPrimary (t :: rest) p

namespace FitsPrimary

variable {t : Spanned} {rest : List Spanned} {p : Primary}

theorem behind (h : Fits rest p.regions) : FitsPrimary (t :: rest) p :=
  .intro (h.mono (List.subset_cons_self _ _)) fun r hr _ ↦ h.laid r hr

theorem lambda (h : LambdaCovers [t] rest p) (hread : InOrder (t :: rest)) : FitsPrimary (t :: rest) p := by
  obtain ⟨l, rfl, hl⟩ := h hread
  refine .intro (.single hl.laid) fun r hr hopen ↦ ?_
  rw [Primary.regions, List.mem_singleton] at hr
  rw [hr, Lambda.region_eq] at hopen
  cases hopen

end FitsPrimary

/-- With `n` steps, what every rule gives lies well on the tokens it reads. -/
structure TakesTrees (n : Nat) : Prop where
  chunk : ∀ close, Takes (chunk close n) fun read x ↦ Fits read x.regions
  pipeline : Takes (pipeline n) fun read x ↦ Covers read x.region
  stages : Takes (stages n) fun read x ↦ Fits read (Form.regions x)
  form : Takes (form n) fun read x ↦ Covers read x.region
  formRest : Takes (formRest n) fun read x ↦ ∀ deletes,
    FitsBeside read (Item.regions deletes x.1) (Redir.regions x.2)
  option : Takes (option n) fun read x ↦ ∀ deletes, Covers read (x.region deletes)
  optionValue : Takes (optionValue n) fun read x ↦ Fits read (Compound.regionOfOptional x)
  /-- Where there is a token. -/
  redir : ∀ fd mode c x c' token, InOrder c.rest → c.next? = some token → redir fd mode n c = .ok (x, c') →
    ∃ read, c.Reads read c' ∧ Covers read x.region
  compound : Takes (compound n) fun read x ↦ Covers read x.region
  moreParts : Takes (moreParts n) fun read x ↦ Fits read (Indexed.regions x)
  indexed : Takes (indexed n) fun read x ↦ Covers read x.region
  indexLists : Takes (indexLists n) fun read x ↦ Fits read (Compound.regionsOfLists x)
  wordsUntil : ∀ close, Takes (wordsUntil close n) fun read x ↦ Fits read (Compound.regions x)
  primary : Takes (primary n) FitsPrimary
  pairs : Takes (pairs n) fun read x ↦ Fits read (Compound.regionsOfPairs x)
  pair : Takes (pair n) fun read x ↦ Fits read [x.1.region, x.2.region]
  lambda : ∀ t : Spanned, Takes (lambda t.span.start n) (LambdaCovers [t])
  lambdaBody : ∀ (t : Spanned) before params options restOptions, Fits before (Compound.regionsOfDefaults options) →
    Takes (lambdaBody t.span.start params options restOptions n) (LambdaCovers (t :: before))
  signature : ∀ hasRest, Takes (signature hasRest n) fun read x ↦ Fits read (Compound.regionsOfDefaults x.2.1)

namespace TakesTrees

variable {n : Nat}

/-! ### Words -/

theorem compound_step (h : TakesTrees n) : Takes (Parser.compound (n + 1)) fun read x ↦ Covers read x.region := by
  intro c word c' hc hm
  rw [Parser.compound, bind_eq here_eq] at hm
  obtain ⟨first, c₁, r₁, hr₁, hc₁, hfirst, hm⟩ := h.indexed.bind_ok hc hm
  obtain ⟨others, c₂, r₂, hr₂, hc₂, hothers, hm⟩ := h.moreParts.bind_ok hc₁ hm
  cases hm
  have hreads := hr₁.trans hr₂
  have hread := hreads.inOrder hc
  have hspan := hreads.fills (by simp [hfirst.ne_nil])
  refine ⟨_, hreads, ?_⟩
  dsimp only
  rw [Compound.region_eq]
  exact .shut hread hspan (.cons hfirst.laid hothers hread) (.parts _)

theorem moreParts_step (h : TakesTrees n) :
    Takes (Parser.moreParts (n + 1)) fun read x ↦ Fits read (Indexed.regions x) := by
  intro c parts c' hc hm
  rw [Parser.moreParts, bind_eq wordContinues_run] at hm
  split at hm
  · obtain ⟨first, c₁, r₁, hr₁, hc₁, hfirst, hm⟩ := h.indexed.bind_ok hc hm
    obtain ⟨others, c₂, r₂, hr₂, hc₂, hothers, hm⟩ := h.moreParts.bind_ok hc₁ hm
    cases hm
    have hreads := hr₁.trans hr₂
    exact ⟨_, hreads, .cons hfirst.laid hothers (hreads.inOrder hc)⟩
  · cases hm
    exact ⟨[], .refl c, .nil⟩

theorem indexed_step (h : TakesTrees n) : Takes (Parser.indexed (n + 1)) fun read x ↦ Covers read x.region := by
  intro c part c' hc hm
  rw [Parser.indexed, bind_eq here_eq] at hm
  obtain ⟨head, c₁, r₁, hr₁, hc₁, @⟨t, rest, _, hhead, hopens⟩, hm⟩ := h.primary.bind_ok hc hm
  obtain ⟨indices, c₂, r₂, hr₂, hc₂, hindices, hm⟩ := h.indexLists.bind_ok hc₁ hm
  cases hm
  have hreads := hr₁.trans hr₂
  have hread := hreads.inOrder hc
  have hspan := hreads.fills (by simp)
  refine ⟨_, hreads, ?_⟩
  dsimp only
  rw [Indexed.region_eq]
  refine .around hread hspan (hhead.append hindices hread) fun r hr hopen ↦ .inr ?_
  rcases List.mem_append.1 hr with hr | hr
  · -- a bracket has been read, so that what starts with a site is not where the part starts
    have hbehind : r.Laid (rest ++ r₂) := (hopens r hr hopen).mono (List.subset_append_left _ _)
    have hfills : Span.Fills _ ([t] ++ (rest ++ r₂)) := hspan
    exact hfills.lt_start hread (List.cons_ne_nil _ _) hbehind.onTokens
  · exact absurd hopen ((Shut.lists _).not_opens hr)

theorem indexLists_step (h : TakesTrees n) :
    Takes (Parser.indexLists (n + 1)) fun read x ↦ Fits read (Compound.regionsOfLists x) := by
  intro c lists c' hc hm
  rw [Parser.indexLists, bind_eq peek_eq, bind_eq touches_eq] at hm
  generalize c.next? = next, c.touches = touches at hm
  split at hm
  · obtain ⟨-, c₁, r₁, hr₁, hc₁, -, hm⟩ := discard_advance_takes.bind_ok hc hm
    obtain ⟨first, c₂, r₂, hr₂, hc₂, hfirst, hm⟩ := (h.wordsUntil _).bind_ok hc₁ hm
    obtain ⟨others, c₃, r₃, hr₃, hc₃, hothers, hm⟩ := h.indexLists.bind_ok hc₂ hm
    cases hm
    have hreads := hr₂.trans hr₃
    exact ⟨_, hr₁.trans hreads, (hfirst.append hothers (hreads.inOrder hc₁)).right⟩
  · cases hm
    exact ⟨[], .refl c, .nil⟩

theorem wordsUntil_step (h : TakesTrees n) (close : Token) :
    Takes (Parser.wordsUntil close (n + 1)) fun read x ↦ Fits read (Compound.regions x) := by
  intro c words c' hc hm
  rw [Parser.wordsUntil] at hm
  obtain ⟨-, c₁, r₁, hr₁, hc₁, -, hm⟩ := skipNewlines_takes.bind_ok hc hm
  rw [bind_eq peek_eq] at hm
  split at hm
  · obtain ⟨-, c₂, r₂, hr₂, -, -, hm⟩ := discard_advance_takes.bind_ok hc₁ hm
    cases hm
    exact ⟨_, hr₁.trans hr₂, .nil⟩
  · split at hm
    · obtain ⟨first, c₂, r₂, hr₂, hc₂, hfirst, hm⟩ := h.compound.bind_ok hc₁ hm
      obtain ⟨others, c₃, r₃, hr₃, hc₃, hothers, hm⟩ := (h.wordsUntil close).bind_ok hc₂ hm
      cases hm
      have hreads := hr₂.trans hr₃
      exact ⟨_, hr₁.trans hreads, (Fits.cons hfirst.laid hothers (hreads.inOrder hc₁)).right⟩
    · cases hm

theorem primary_step (h : TakesTrees n) : Takes (Parser.primary (n + 1)) FitsPrimary := by
  intro c p c' hc hm
  rw [Parser.primary, bind_eq here_eq] at hm
  obtain ⟨next, c₁, r₁, hr₁, hc₁, ⟨rfl, -⟩ | ⟨t, -, rfl⟩, hm⟩ := advance_takes.bind_ok hc hm
  · cases hm
  have hstart : c.here = t.span.start := by rw [Cursor.here, hr₁.rest, List.cons_append]
  rw [hstart] at hm
  split at hm
  case h_1 => cases hm
  case h_2 | h_3 =>
    cases hm
    exact ⟨_, hr₁, .behind .nil⟩
  case h_4 =>
    split at hm
    · cases hm
    · cases hm
      exact ⟨_, hr₁, .behind .nil⟩
  case h_5 =>
    obtain ⟨inside, c₂, r₂, hr₂, hc₂, hinside, hm⟩ := (h.chunk _).bind_ok hc₁ hm
    obtain ⟨-, c₃, r₃, hr₃, -, -, hm⟩ := (expect_takes _).bind_ok hc₂ hm
    cases hm
    exact ⟨_, hr₁.trans (hr₂.trans hr₃), .behind hinside.left⟩
  case h_6 =>
    obtain ⟨-, c₂, r₂, hr₂, hc₂, -, hm⟩ := skipNewlines_takes.bind_ok hc₁ hm
    rw [bind_eq peek_eq] at hm
    split at hm
    · obtain ⟨ps, c₃, r₃, hr₃, hc₃, hps, hm⟩ := h.pairs.bind_ok hc₂ hm
      cases hm
      exact ⟨_, hr₁.trans (hr₂.trans hr₃), .behind hps.right⟩
    · obtain ⟨ws, c₃, r₃, hr₃, hc₃, hws, hm⟩ := (h.wordsUntil _).bind_ok hc₂ hm
      cases hm
      exact ⟨_, hr₁.trans (hr₂.trans hr₃), .behind hws.right⟩
  case h_7 =>
    obtain ⟨r₂, hr₂, hlambda⟩ := h.lambda t c₁ p c' hc₁ hm
    have hreads := hr₁.trans hr₂
    exact ⟨_, hreads, .lambda hlambda (hreads.inOrder hc)⟩
  case h_8 => cases hm

theorem pairs_step (h : TakesTrees n) :
    Takes (Parser.pairs (n + 1)) fun read x ↦ Fits read (Compound.regionsOfPairs x) := by
  intro c ps c' hc hm
  rw [Parser.pairs] at hm
  obtain ⟨-, c₁, r₁, hr₁, hc₁, -, hm⟩ := skipNewlines_takes.bind_ok hc hm
  rw [bind_eq peek_eq] at hm
  split at hm
  · obtain ⟨-, c₂, r₂, hr₂, -, -, hm⟩ := discard_advance_takes.bind_ok hc₁ hm
    cases hm
    exact ⟨_, hr₁.trans hr₂, .nil⟩
  · obtain ⟨-, c₂, r₂, hr₂, hc₂, -, hm⟩ := (expect_takes _).bind_ok hc₁ hm
    rw [bind_eq peek_eq] at hm
    split at hm
    · obtain ⟨r₃, hr₃, hps⟩ := h.pairs _ _ _ hc₂ hm
      exact ⟨_, hr₁.trans (hr₂.trans hr₃), hps.right.right⟩
    · obtain ⟨⟨key, value⟩, c₃, r₃, hr₃, hc₃, hpair, hm⟩ := h.pair.bind_ok hc₂ hm
      obtain ⟨others, c₄, r₄, hr₄, hc₄, hothers, hm⟩ := h.pairs.bind_ok hc₃ hm
      cases hm
      have hreads := hr₃.trans hr₄
      exact ⟨_, hr₁.trans (hr₂.trans hreads), (hpair.append hothers (hreads.inOrder hc₂)).right.right⟩

theorem pair_step (h : TakesTrees n) :
    Takes (Parser.pair (n + 1)) fun read x ↦ Fits read [x.1.region, x.2.region] := by
  intro c p c' hc hm
  rw [Parser.pair, bind_eq wordTouches_run] at hm
  split at hm
  · obtain ⟨key, c₁, r₁, hr₁, hc₁, hkey, hm⟩ := h.compound.bind_ok hc hm
    rw [bind_eq peek_eq, bind_eq touches_eq] at hm
    generalize c₁.next? = next, c₁.touches = touches at hm
    split at hm
    · obtain ⟨-, c₂, r₂, hr₂, hc₂, -, hm⟩ := discard_advance_takes.bind_ok hc₁ hm
      rw [bind_eq wordTouches_run] at hm
      split at hm
      · obtain ⟨value, c₃, r₃, hr₃, hc₃, hvalue, hm⟩ := h.compound.bind_ok hc₂ hm
        cases hm
        have hreads := hr₁.trans (hr₂.trans hr₃)
        exact ⟨_, hreads, .cons hkey.laid (.right (.single hvalue.laid)) (hreads.inOrder hc)⟩
      · cases hm
    · cases hm
  · cases hm

/-! ### Lambdas -/

theorem lambda_step (h : TakesTrees n) (t : Spanned) :
    Takes (Parser.lambda t.span.start (n + 1)) (LambdaCovers [t]) := by
  intro c p c' hc hm
  rw [Parser.lambda, bind_eq peek_eq, bind_eq touches_eq] at hm
  generalize c.next? = next, c.touches = touches at hm
  split at hm
  · obtain ⟨-, c₁, r₁, hr₁, hc₁, -, hm⟩ := discard_advance_takes.bind_ok hc hm
    obtain ⟨⟨params, options, restOptions⟩, c₂, r₂, hr₂, hc₂, hoptions, hm⟩ := (h.signature false).bind_ok hc₁ hm
    obtain ⟨r₃, hr₃, hlambda⟩ := h.lambdaBody t (r₁ ++ r₂) _ _ _ hoptions.right _ _ _ hc₂ hm
    refine ⟨_, (hr₁.trans hr₂).trans hr₃, ?_⟩
    exact hlambda
  · exact h.lambdaBody t [] _ _ _ .nil _ _ _ hc hm

theorem lambdaBody_step (h : TakesTrees n) (t : Spanned) (before : List Spanned) (params : List Param)
    (options : List (String × Compound)) (restOptions : Option String)
    (hoptions : Fits before (Compound.regionsOfDefaults options)) :
    Takes (Parser.lambdaBody t.span.start params options restOptions (n + 1)) (LambdaCovers (t :: before)) := by
  intro c p c' hc hm
  rw [Parser.lambdaBody] at hm
  obtain ⟨body, c₁, r₁, hr₁, hc₁, hbody, hm⟩ := (h.chunk _).bind_ok hc hm
  obtain ⟨-, c₂, r₂, hr₂, hc₂, hne, hm⟩ := (expect_takes _).bind_ok hc₁ hm
  cases hm
  have hreads := hr₁.trans hr₂
  refine ⟨_, hreads, fun hread ↦ ⟨_, rfl, ?_⟩⟩
  rw [Lambda.region_eq]
  obtain ⟨front, last, hlast, hstop⟩ := (hreads.fills (by simp [hne])).stop
  have hspan : Span.Fills ⟨t.span.start, c'.lastEnd⟩ (t :: before ++ (r₁ ++ r₂)) :=
    ⟨⟨t, _, rfl, rfl⟩, t :: before ++ front, last, by rw [hlast, List.append_assoc], hstop⟩
  refine .around hread hspan ?_ fun r hr hopen ↦ .inr ?_
  · exact .append (hoptions.mono (List.subset_cons_self _ _)) hbody.left hread
  · rcases List.mem_append.1 hr with hr | hr
    · exact absurd hopen ((Shut.defaults _).not_opens hr)
    · exact hspan.lt_start hread (List.cons_ne_nil _ _) ((hbody.left.laid r hr).onTokens)

theorem signature_step (h : TakesTrees n) (hasRest : Bool) :
    Takes (Parser.signature hasRest (n + 1)) fun read x ↦ Fits read (Compound.regionsOfDefaults x.2.1) := by
  intro c x c' hc hm
  rw [Parser.signature, bind_eq here_eq] at hm
  obtain ⟨next, c₁, r₁, hr₁, hc₁, -, hm⟩ := advance_takes.bind_ok hc hm
  split at hm
  case h_1 => cases hm
  case h_2 =>
    cases hm
    exact ⟨_, hr₁, .nil⟩
  case h_3 =>
    obtain ⟨r₂, hr₂, hrest⟩ := h.signature _ _ _ _ hc₁ hm
    exact ⟨_, hr₁.trans hr₂, hrest.right⟩
  case h_4 word =>
    generalize word.toList = letters at hm
    split at hm
    · split at hm
      · cases hm
      · obtain ⟨rest, c₂, r₂, hr₂, hc₂, hrest, hm⟩ := (h.signature _).bind_ok hc₁ hm
        cases hm
        exact ⟨_, hr₁.trans hr₂, hrest.right⟩
    · obtain ⟨rest, c₂, r₂, hr₂, hc₂, hrest, hm⟩ := (h.signature _).bind_ok hc₁ hm
      cases hm
      exact ⟨_, hr₁.trans hr₂, hrest.right⟩
  case h_5 =>
    obtain ⟨next, c₂, r₂, hr₂, hc₂, -, hm⟩ := advance_takes.bind_ok hc₁ hm
    split at hm
    · next word =>
      generalize word.toList = letters at hm
      split at hm
      · obtain ⟨rest, c₃, r₃, hr₃, hc₃, hrest, hm⟩ := (h.signature _).bind_ok hc₂ hm
        cases hm
        exact ⟨_, hr₁.trans (hr₂.trans hr₃), hrest.right.right⟩
      · obtain ⟨-, c₃, r₃, hr₃, hc₃, -, hm⟩ := (expect_takes _).bind_ok hc₂ hm
        obtain ⟨default, c₄, r₄, hr₄, hc₄, hdefault, hm⟩ := h.compound.bind_ok hc₃ hm
        obtain ⟨rest, c₅, r₅, hr₅, hc₅, hrest, hm⟩ := (h.signature _).bind_ok hc₄ hm
        cases hm
        have hreads := hr₄.trans hr₅
        have hfits := Fits.cons hdefault.laid hrest (hreads.inOrder hc₃)
        exact ⟨_, hr₁.trans (hr₂.trans (hr₃.trans hreads)), hfits.right.right.right⟩
    · cases hm
  case h_6 => cases hm

/-! ### Commands -/

theorem option_step (h : TakesTrees n) :
    Takes (Parser.option (n + 1)) fun read x ↦ ∀ deletes, Covers read (x.region deletes) := by
  intro c item c' hc hm
  rw [Parser.option, bind_eq here_eq] at hm
  obtain ⟨-, c₁, r₁, hr₁, hc₁, hne, hm⟩ := (expect_takes _).bind_ok hc hm
  rw [bind_eq peek_eq, bind_eq touches_eq] at hm
  generalize c₁.next? = next, c₁.touches = touches at hm
  split at hm
  · obtain ⟨-, c₂, r₂, hr₂, hc₂, -, hm⟩ := discard_advance_takes.bind_ok hc₁ hm
    obtain ⟨value, c₃, r₃, hr₃, hc₃, hvalue, hm⟩ := h.optionValue.bind_ok hc₂ hm
    cases hm
    have hreads := hr₁.trans (hr₂.trans hr₃)
    refine ⟨_, hreads, fun deletes ↦ ?_⟩
    rw [Item.region]
    exact .shut (hreads.inOrder hc) (hreads.fills (by simp [hne])) hvalue.right.right (.optional _)
  · cases hm

theorem optionValue_step (h : TakesTrees n) :
    Takes (Parser.optionValue (n + 1)) fun read x ↦ Fits read (Compound.regionOfOptional x) := by
  intro c value c' hc hm
  rw [Parser.optionValue, bind_eq peek_eq, bind_eq touches_eq] at hm
  generalize c.next? = next, c.touches = touches at hm
  split at hm
  · obtain ⟨-, c₁, r₁, hr₁, hc₁, -, hm⟩ := discard_advance_takes.bind_ok hc hm
    rw [bind_eq wordTouches_run] at hm
    split at hm
    · obtain ⟨word, c₂, r₂, hr₂, hc₂, hword, hm⟩ := h.compound.bind_ok hc₁ hm
      cases hm
      exact ⟨_, hr₁.trans hr₂, .right (.single hword.laid)⟩
    · cases hm
  · cases hm
    exact ⟨[], .refl c, .nil⟩

theorem redir_step (h : TakesTrees n) (fd : Nat) (mode : RedirMode) (c : Cursor) (x : Redir) (c' : Cursor)
    (token : Token) (hc : InOrder c.rest) (hnext : c.next? = some token)
    (hm : Parser.redir fd mode (n + 1) c = .ok (x, c')) : ∃ read, c.Reads read c' ∧ Covers read x.region := by
  rw [Parser.redir, bind_eq here_eq, bind_eq discard_advance_run] at hm
  obtain ⟨t, -, hr₁⟩ := Cursor.exists_reads_tail hnext
  cases mode with
  | dup other =>
    cases hm
    refine ⟨_, hr₁, ?_⟩
    rw [Redir.region]
    exact .shut (hr₁.inOrder hc) (hr₁.fills (List.cons_ne_nil _ _)) .nil .nil
  | write | append =>
    dsimp only at hm
    rw [bind_eq peek_eq] at hm
    split at hm
    · obtain ⟨target, c₂, r₂, hr₂, hc₂, htarget, hm⟩ := h.compound.bind_ok (hr₁.inOrder_rest hc) hm
      cases hm
      have hreads := hr₁.trans hr₂
      refine ⟨_, hreads, ?_⟩
      rw [Redir.region]
      exact .shut (hreads.inOrder hc) (hreads.fills (by simp)) (.right (.single htarget.laid)) (.optional _)
    · cases hm

theorem formRest_step (h : TakesTrees n) :
    Takes (Parser.formRest (n + 1)) fun read x ↦ ∀ deletes,
      FitsBeside read (Item.regions deletes x.1) (Redir.regions x.2) := by
  intro c x c' hc hm
  rw [Parser.formRest, bind_eq peek_eq] at hm
  generalize hnext : c.next? = next at hm
  split at hm
  case h_1 | h_2 | h_3 | h_4 | h_5 | h_6 =>
    cases hm
    exact ⟨[], .refl c, fun _ ↦ .nil .nil⟩
  case h_7 =>
    obtain ⟨first, c₁, r₁, hr₁, hc₁, hfirst, hm⟩ := h.option.bind_ok hc hm
    obtain ⟨rest, c₂, r₂, hr₂, hc₂, hrest, hm⟩ := h.formRest.bind_ok hc₁ hm
    cases hm
    have hreads := hr₁.trans hr₂
    exact ⟨_, hreads, fun deletes ↦ .cons (hfirst deletes).laid (hrest deletes) (hreads.inOrder hc)⟩
  case h_8 =>
    rw [bind_eq here_eq, bind_eq discard_advance_run, bind_eq spanFrom_run] at hm
    obtain ⟨t, -, hr₁⟩ := Cursor.exists_reads_tail hnext
    obtain ⟨rest, c₂, r₂, hr₂, hc₂, hrest, hm⟩ := h.formRest.bind_ok (hr₁.inOrder_rest hc) hm
    cases hm
    have hreads := hr₁.trans hr₂
    have heq (deletes : Bool) : Covers [t] (Item.region deletes (.eq ⟨c.here, c.tail.lastEnd⟩)) := by
      rw [Item.region]
      exact .shut (hr₁.inOrder hc) (hr₁.fills (List.cons_ne_nil _ _)) .nil .nil
    exact ⟨_, hreads, fun deletes ↦ .cons (heq deletes).laid (hrest deletes) (hreads.inOrder hc)⟩
  case h_9 =>
    obtain ⟨first, c₁, hfirst, hm⟩ := Parser.bind_ok hm
    obtain ⟨r₁, hr₁, hfirst⟩ := h.redir _ _ _ _ _ _ hc hnext hfirst
    obtain ⟨rest, c₂, r₂, hr₂, hc₂, hrest, hm⟩ := h.formRest.bind_ok (hr₁.inOrder_rest hc) hm
    cases hm
    have hreads := hr₁.trans hr₂
    exact ⟨_, hreads, fun deletes ↦ .consAside hfirst.laid (hrest deletes) (hreads.inOrder hc)⟩
  case h_10 =>
    split at hm
    · obtain ⟨word, c₁, r₁, hr₁, hc₁, hword, hm⟩ := h.compound.bind_ok hc hm
      obtain ⟨rest, c₂, r₂, hr₂, hc₂, hrest, hm⟩ := h.formRest.bind_ok hc₁ hm
      cases hm
      have hreads := hr₁.trans hr₂
      have harg := Covers.arg (hr₁.inOrder hc) hword
      exact ⟨_, hreads, fun deletes ↦ .cons (harg deletes).laid (hrest deletes) (hreads.inOrder hc)⟩
    · cases hm

theorem form_step (h : TakesTrees n) : Takes (Parser.form (n + 1)) fun read x ↦ Covers read x.region := by
  intro c f c' hc hm
  rw [Parser.form, bind_eq here_eq, bind_eq peek_eq] at hm
  split at hm
  · obtain ⟨head, c₁, r₁, hr₁, hc₁, hhead, hm⟩ := h.compound.bind_ok hc hm
    obtain ⟨⟨items, redirs⟩, c₂, r₂, hr₂, hc₂, hrest, hm⟩ := h.formRest.bind_ok hc₁ hm
    cases hm
    have hreads := hr₁.trans hr₂
    have hread := hreads.inOrder hc
    have hspan := hreads.fills (by simp [hhead.ne_nil])
    refine ⟨_, hreads, ?_⟩
    dsimp only
    rw [Form.region_eq]
    have hparts := hrest head.deletes
    refine .node hread hspan (.cons hhead.laid hparts hread) (by split <;> rintro ⟨⟩) fun r hr hopen ↦ .inr ?_
    rw [List.cons_append] at hr
    rcases List.mem_cons.1 hr with rfl | hr
    · exact absurd hopen ((Shut.nil.word head).not_opens List.mem_cons_self)
    · have hlaid : ∀ r ∈ Item.regions head.deletes items ++ Redir.regions redirs, r.Laid r₂ :=
        List.forall_mem_append.2 ⟨hparts.inside.laid, hparts.aside.laid⟩
      exact hspan.lt_start hread hhead.ne_nil (hlaid r hr).onTokens
  · cases hm

theorem stages_step (h : TakesTrees n) :
    Takes (Parser.stages (n + 1)) fun read x ↦ Fits read (Form.regions x) := by
  intro c forms c' hc hm
  rw [Parser.stages, bind_eq peek_eq] at hm
  split at hm
  · obtain ⟨-, c₁, r₁, hr₁, hc₁, -, hm⟩ := discard_advance_takes.bind_ok hc hm
    obtain ⟨-, c₂, r₂, hr₂, hc₂, -, hm⟩ := skipNewlines_takes.bind_ok hc₁ hm
    obtain ⟨first, c₃, r₃, hr₃, hc₃, hfirst, hm⟩ := h.form.bind_ok hc₂ hm
    obtain ⟨others, c₄, r₄, hr₄, hc₄, hothers, hm⟩ := h.stages.bind_ok hc₃ hm
    cases hm
    have hreads := hr₃.trans hr₄
    have hfits := Fits.cons hfirst.laid hothers (hreads.inOrder hc₂)
    exact ⟨_, hr₁.trans (hr₂.trans hreads), hfits.right.right⟩
  · cases hm
    exact ⟨[], .refl c, .nil⟩

theorem pipeline_step (h : TakesTrees n) : Takes (Parser.pipeline (n + 1)) fun read x ↦ Covers read x.region := by
  intro c p c' hc hm
  rw [Parser.pipeline, bind_eq here_eq] at hm
  obtain ⟨first, c₁, r₁, hr₁, hc₁, hfirst, hm⟩ := h.form.bind_ok hc hm
  obtain ⟨others, c₂, r₂, hr₂, hc₂, hothers, hm⟩ := h.stages.bind_ok hc₁ hm
  cases hm
  have hreads := hr₁.trans hr₂
  have hread := hreads.inOrder hc
  have hspan := hreads.fills (by simp [hfirst.ne_nil])
  refine ⟨_, hreads, ?_⟩
  dsimp only
  rw [Pipeline.region_eq]
  exact .around hread hspan (.cons hfirst.laid hothers hread) fun _ _ _ ↦ .inl rfl

theorem chunk_step (h : TakesTrees n) (close : Option Token) :
    Takes (Parser.chunk close (n + 1)) fun read x ↦ Fits read x.regions := by
  intro c x c' hc hm
  rw [Parser.chunk] at hm
  obtain ⟨-, c₁, r₁, hr₁, hc₁, -, hm⟩ := skipSeparators_takes.bind_ok hc hm
  rw [bind_eq peek_eq] at hm
  generalize c₁.next? = next at hm
  split at hm
  · cases hm
    exact ⟨_, hr₁, .nil⟩
  · cases hm
  · split at hm
    · cases hm
      exact ⟨_, hr₁, .nil⟩
    · obtain ⟨first, c₂, r₂, hr₂, hc₂, hfirst, hm⟩ := h.pipeline.bind_ok hc₁ hm
      obtain ⟨-, c₃, r₃, hr₃, hc₃, -, hm⟩ := (endPipeline_takes close).bind_ok hc₂ hm
      obtain ⟨others, c₄, r₄, hr₄, hc₄, hothers, hm⟩ := (h.chunk close).bind_ok hc₃ hm
      cases hm
      have hreads := hr₂.trans (hr₃.trans hr₄)
      dsimp only at hothers ⊢
      rw [Chunk.regions_eq] at hothers ⊢
      exact ⟨_, hr₁.trans hreads, (Fits.cons hfirst.laid hothers.right (hreads.inOrder hc₁)).right⟩

/-- Without a step no rule gives anything. -/
theorem zero : TakesTrees 0 where
  chunk _ := .fail
  pipeline := .fail
  stages := .fail
  form := .fail
  formRest := .fail
  option := .fail
  optionValue := .fail
  redir _ _ _ _ _ _ _ _ := nofun
  compound := .fail
  moreParts := .fail
  indexed := .fail
  indexLists := .fail
  wordsUntil _ := .fail
  primary := .fail
  pairs := .fail
  pair := .fail
  lambda _ := .fail
  lambdaBody _ _ _ _ _ _ := .fail
  signature _ := .fail

theorem step (h : TakesTrees n) : TakesTrees (n + 1) where
  chunk := h.chunk_step
  pipeline := h.pipeline_step
  stages := h.stages_step
  form := h.form_step
  formRest := h.formRest_step
  option := h.option_step
  optionValue := h.optionValue_step
  redir := h.redir_step
  compound := h.compound_step
  moreParts := h.moreParts_step
  indexed := h.indexed_step
  indexLists := h.indexLists_step
  wordsUntil := h.wordsUntil_step
  primary := h.primary_step
  pairs := h.pairs_step
  pair := h.pair_step
  lambda := h.lambda_step
  lambdaBody := h.lambdaBody_step
  signature := h.signature_step

theorem all : ∀ n, TakesTrees n
  | 0 => zero
  | n + 1 => (all n).step

end TakesTrees

/-- The tree of tokens that come in order lies well on them. -/
theorem script_fits {tokens : List Spanned} {finish : Nat} {tree : Chunk} (htokens : InOrder tokens)
    (h : script tokens finish = .ok tree) : Fits tokens tree.regions := by
  rw [script] at h
  split at h
  · next tree' c hm =>
    obtain rfl : tree' = tree := Except.ok.inj h
    obtain ⟨read, hreads, hfits⟩ := (TakesTrees.all _).chunk none _ tree' c htokens hm
    have hrest : tokens = read ++ c.rest := hreads.rest
    exact hrest ▸ hfits.left
  · cases h

end Parser

end ValueShell
