import ValueShell.Proofs.Flattening.Ends

/-!
# Reading what was written out flat

Every rule of the grammar reads the marks of the trees it is for, and stops where they end.
`Parser.ReadsTrees n` says it of all rules at once, for trees that `n` steps are enough for.  Each rule calls
others with one step less, so it is shown by induction on the steps, with one lemma for each rule: the marks of
a tree of the rule are taken apart as the rule takes them, and the bounds of the parts are left to arithmetic.

`Parser.script_flatten` is what comes of it for a whole script.
-/

set_option autoImplicit false

namespace ValueShell

/-! ## The rules -/

namespace Parser

open Mark (EndsPipeline EndsForm EndsChunk EndsItem Breaks NoIndex)

/-- With `n` steps, every rule reads the marks of the trees it is for. -/
structure ReadsTrees (n : Nat) : Prop where
  /-- There may be separators in front of a chunk. -/
  chunk : ∀ (c : Chunk) (close : Option Token) (sep rest : List Mark), c.WellFormed →
    (∀ m ∈ sep, m.token = .newline ∨ m.token = .semicolon) → EndsChunk close rest →
    10 * c.marks.length < n →
    Reads (chunk close n) (sep ++ (c.marks ++ rest)) (·.unplaced = c.unplaced) rest
  pipeline : ∀ (p : Pipeline) (rest : List Mark), p.WellFormed → EndsPipeline rest →
    10 * p.marks.length ≤ n + 5 → Reads (pipeline n) (p.marks ++ rest) (·.unplaced = p.unplaced) rest
  stages : ∀ (fs : List Form) (rest : List Mark), Form.AllWellFormed fs → EndsPipeline rest →
    10 * (Form.otherMarks fs).length < n →
    Reads (stages n) (Form.otherMarks fs ++ rest) (Form.allUnplaced · = Form.allUnplaced fs) rest
  form : ∀ (f : Form) (rest : List Mark), f.WellFormed → EndsForm rest → 10 * f.marks.length ≤ n + 6 →
    Reads (form n) (f.marks ++ rest) (·.unplaced = f.unplaced) rest
  formRest : ∀ (items : List Item) (redirs : List Redir) (rest : List Mark), Item.AllWellFormed items →
    Redir.AllWellFormed redirs → EndsForm rest →
    10 * ((Item.allMarks items).length + (Redir.allMarks redirs).length) < n →
    Reads (formRest n) (Item.allMarks items ++ (Redir.allMarks redirs ++ rest))
      (fun x ↦ Item.allUnplaced x.1 = Item.allUnplaced items ∧
        Redir.allUnplaced x.2 = Redir.allUnplaced redirs) rest
  option : ∀ (span : Span) (name : String) (value : Option Compound) (rest : List Mark),
    (Item.opt span name value).WellFormed → EndsItem rest →
    10 * (Item.opt span name value).marks.length ≤ n + 9 →
    Reads (option n) ((Item.opt span name value).marks ++ rest)
      (·.unplaced = (Item.opt span name value).unplaced) rest
  optionValue : ∀ (word : Compound) (rest : List Mark), word.WellFormed → Breaks rest →
    10 * (word.marks true).length < n →
    Reads (optionValue n) (.joined .eq :: (word.marks true ++ rest))
      (fun value ↦ ∃ w, value = some w ∧ w.unplaced = word.unplaced) rest
  redir : ∀ (r : Redir) (rest : List Mark), r.WellFormed → Breaks rest → 10 * r.marks.length ≤ n + 9 →
    Reads (redir r.fd r.mode n) (r.marks ++ rest) (·.unplaced = r.unplaced) rest
  compound : ∀ (w : Compound) (touching : Bool) (rest : List Mark), w.WellFormed → Breaks rest →
    10 * (w.marks touching).length ≤ n + 7 →
    Reads (compound n) (w.marks touching ++ rest) (·.unplaced = w.unplaced) rest
  moreParts : ∀ (parts : List Indexed) (rest : List Mark), Indexed.AllContinue parts → Breaks rest →
    10 * (Indexed.otherMarks parts).length < n →
    Reads (moreParts n) (Indexed.otherMarks parts ++ rest)
      (Indexed.allUnplaced · = Indexed.allUnplaced parts) rest
  indexed : ∀ (part : Indexed) (touching : Bool) (rest : List Mark), part.WellFormed → NoIndex rest →
    10 * (part.marks touching).length ≤ n + 8 →
    Reads (indexed n) (part.marks touching ++ rest) (·.unplaced = part.unplaced) rest
  indexLists : ∀ (indices : List (List Compound)) (rest : List Mark), Indexed.IndicesWellFormed indices →
    NoIndex rest → 10 * (Indexed.indexMarks indices).length < n →
    Reads (indexLists n) (Indexed.indexMarks indices ++ rest)
      (Indexed.indicesUnplaced · = Indexed.indicesUnplaced indices) rest
  wordsUntil : ∀ (ws : List Compound) (touching : Bool) (rest : List Mark), Compound.AllWellFormed ws →
    10 * (Compound.allMarks ws).length < n →
    Reads (wordsUntil .rbracket n) (Compound.allMarks ws ++ ⟨touching, .rbracket⟩ :: rest)
      (Compound.allUnplaced · = Compound.allUnplaced ws) rest
  primary : ∀ (p : Primary) (touching : Bool) (rest : List Mark), p.WellFormed →
    10 * (p.marks touching).length ≤ n + 9 →
    Reads (primary n) (p.marks touching ++ rest) (·.unplaced = p.unplaced) rest
  pairs : ∀ (ps : List (Compound × Compound)) (rest : List Mark), Compound.PairsWellFormed ps →
    10 * (Compound.pairMarks ps).length < n →
    Reads (pairs n) (Compound.pairMarks ps ++ .apart .rbracket :: rest)
      (Compound.pairsUnplaced · = Compound.pairsUnplaced ps) rest
  pair : ∀ (key value : Compound) (rest : List Mark), key.WellFormed → value.WellFormed → Breaks rest →
    10 * ((key.marks true).length + (value.marks true).length) < n →
    Reads (pair n) (key.marks true ++ .joined .eq :: (value.marks true ++ rest))
      (fun x ↦ x.1.unplaced = key.unplaced ∧ x.2.unplaced = value.unplaced) rest
  lambda : ∀ (start : Nat) (l : Lambda) (rest : List Mark), l.WellFormed → 10 * l.marks.length ≤ n →
    Reads (lambda start n) (l.marks ++ rest) (·.unplaced = (Primary.lambda l).unplaced) rest
  lambdaBody : ∀ (start : Nat) (l : Lambda) (rest : List Mark), l.body.WellFormed →
    10 * l.body.marks.length + 1 < n →
    Reads (lambdaBody start l.params l.options l.restOptions n) (l.body.marks ++ .apart .rbrace :: rest)
      (·.unplaced = (Primary.lambda l).unplaced) rest
  signature : ∀ (hasRest : Bool) (params : List Param) (options : List (String × Compound))
    (restOptions : Option String) (rest : List Mark), params.countP (·.isRest) + hasRest.toNat ≤ 1 →
    (∀ p ∈ params, p.isRest = false → Name.startsAt p.name = false) → Compound.DefaultsWellFormed options →
    10 * (params.length + (Compound.defaultMarks options).length +
      (Lambda.restMarks restOptions).length) < n →
    Reads (signature hasRest n) (params.map (.apart ·.token) ++ (Compound.defaultMarks options ++
        (Lambda.restMarks restOptions ++ .apart .pipe :: rest)))
      (fun x ↦ x.1 = params ∧ Compound.defaultsUnplaced x.2.1 = Compound.defaultsUnplaced options ∧
        x.2.2 = restOptions) rest

namespace ReadsTrees

variable {n : Nat}

/-! ### Words -/

/-- The empty map is written with a lone sign. -/
theorem reads_lone (n : Nat) (rest : List Mark) :
    Reads (Parser.pairs (n + 2)) (.apart .amp :: .apart .rbracket :: rest) (· = []) rest := by
  rw [Parser.pairs]
  refine .bind (.skipNewlines (Mark.next?_cons_ne (by decide))) fun _ _ ↦ .follow .peek ?_
  refine .bind (.expect rfl) fun _ _ ↦ .follow .peek ?_
  change Reads (Parser.pairs (n + 1)) _ _ _
  rw [Parser.pairs]
  refine .bind (.skipNewlines (Mark.next?_cons_ne (by decide))) fun _ _ ↦ .follow .peek ?_
  exact .bind .discard fun _ _ ↦ .pure rfl

theorem compound_step (h : ReadsTrees n) (w : Compound) (touching : Bool) (rest : List Mark)
    (hw : w.WellFormed) (hrest : Breaks rest) (hn : 10 * (w.marks touching).length ≤ n + 1 + 7) :
    Reads (Parser.compound (n + 1)) (w.marks touching ++ rest) (·.unplaced = w.unplaced) rest := by
  obtain ⟨span, parts⟩ := w
  cases parts with
  | nil => rw [Compound.WellFormed] at hw; exact hw.elim
  | cons part parts =>
    rw [Compound.WellFormed] at hw
    obtain ⟨token, marks, hmarks, -⟩ := part.marks_eq touching
    have hlength : (part.marks touching).length = marks.length + 1 := by rw [hmarks, List.length_cons]
    rw [Compound.marks, List.length_append] at hn
    rw [Parser.compound, Compound.marks, List.append_assoc]
    refine .bind .here fun start _ ↦ ?_
    refine .bind (h.indexed part touching _ hw.1 (hrest.parts hw.2) (by omega)) fun first hfirst ↦ ?_
    refine .bind (h.moreParts parts rest hw.2 hrest (by omega)) fun others hothers ↦ ?_
    refine .bind .spanFrom fun place _ ↦ .pure ?_
    rw [Compound.unplaced, Compound.unplaced, Indexed.allUnplaced, Indexed.allUnplaced, hfirst, hothers]

theorem moreParts_step (h : ReadsTrees n) (parts : List Indexed) (rest : List Mark)
    (hparts : Indexed.AllContinue parts) (hrest : Breaks rest)
    (hn : 10 * (Indexed.otherMarks parts).length < n + 1) :
    Reads (Parser.moreParts (n + 1)) (Indexed.otherMarks parts ++ rest)
      (Indexed.allUnplaced · = Indexed.allUnplaced parts) rest := by
  rw [Parser.moreParts]
  cases parts with
  | nil =>
    rw [Indexed.otherMarks, List.nil_append]
    refine .follow .wordContinues ?_
    rw [hrest.continues, if_neg Bool.false_ne_true]
    exact .pure rfl
  | cons part parts =>
    rw [Indexed.AllContinue] at hparts
    obtain ⟨token, marks, hmarks, -, hcontinues⟩ := part.marks_eq true
    have hlength : (part.marks true).length = marks.length + 1 := by rw [hmarks, List.length_cons]
    rw [Indexed.otherMarks, List.length_append] at hn
    rw [Indexed.otherMarks, List.append_assoc]
    refine .follow .wordContinues ?_
    have htrue : (Mark.firstTouches (part.marks true ++ (Indexed.otherMarks parts ++ rest)) &&
        (Mark.next? (part.marks true ++ (Indexed.otherMarks parts ++ rest))).any Token.continuesWord) = true := by
      rw [hmarks]
      simpa [Mark.firstTouches, Mark.next?] using hcontinues.trans hparts.1
    rw [htrue, if_pos rfl]
    refine .bind (h.indexed part true _ hparts.2.1 (hrest.parts hparts.2.2) (by omega)) fun first hfirst ↦ ?_
    refine .bind (h.moreParts parts rest hparts.2.2 hrest (by omega)) fun others hothers ↦ .pure ?_
    rw [Indexed.allUnplaced, Indexed.allUnplaced, hfirst, hothers]

theorem indexed_step (h : ReadsTrees n) (part : Indexed) (touching : Bool) (rest : List Mark)
    (hpart : part.WellFormed) (hrest : NoIndex rest) (hn : 10 * (part.marks touching).length ≤ n + 1 + 8) :
    Reads (Parser.indexed (n + 1)) (part.marks touching ++ rest) (·.unplaced = part.unplaced) rest := by
  obtain ⟨span, head, indices⟩ := part
  rw [Indexed.WellFormed] at hpart
  obtain ⟨token, marks, hmarks, -⟩ := head.marks_eq touching
  have hlength : (head.marks touching).length = marks.length + 1 := by rw [hmarks, List.length_cons]
  rw [Indexed.marks, List.length_append] at hn
  rw [Parser.indexed, Indexed.marks, List.append_assoc]
  refine .bind .here fun start _ ↦ ?_
  refine .bind (h.primary head touching _ hpart.1 (by omega)) fun first hfirst ↦ ?_
  refine .bind (h.indexLists indices rest hpart.2 hrest (by omega)) fun lists hlists ↦ ?_
  refine .bind .spanFrom fun place _ ↦ .pure ?_
  rw [Indexed.unplaced, Indexed.unplaced, hfirst, hlists]

theorem indexLists_step (h : ReadsTrees n) (indices : List (List Compound)) (rest : List Mark)
    (hindices : Indexed.IndicesWellFormed indices) (hrest : NoIndex rest)
    (hn : 10 * (Indexed.indexMarks indices).length < n + 1) :
    Reads (Parser.indexLists (n + 1)) (Indexed.indexMarks indices ++ rest)
      (Indexed.indicesUnplaced · = Indexed.indicesUnplaced indices) rest := by
  rw [Parser.indexLists]
  cases indices with
  | nil =>
    rw [Indexed.indexMarks, List.nil_append]
    refine .follow .peek (.follow .touches ?_)
    split
    · next hnext htouches => exact absurd hnext (hrest htouches)
    · exact .pure rfl
  | cons ws indices =>
    rw [Indexed.IndicesWellFormed] at hindices
    rw [Indexed.indexMarks, List.length_cons, List.length_append, List.length_cons] at hn
    rw [Indexed.indexMarks, List.cons_append, List.append_assoc, List.cons_append]
    refine .follow .peek (.follow .touches (.bind .discard fun _ _ ↦ ?_))
    refine .bind (h.wordsUntil ws true _ hindices.1 (by omega)) fun first hfirst ↦ ?_
    refine .bind (h.indexLists indices rest hindices.2 hrest (by omega)) fun others hothers ↦ .pure ?_
    rw [Indexed.indicesUnplaced, Indexed.indicesUnplaced, hfirst, hothers]

theorem wordsUntil_step (h : ReadsTrees n) (ws : List Compound) (touching : Bool) (rest : List Mark)
    (hws : Compound.AllWellFormed ws) (hn : 10 * (Compound.allMarks ws).length < n + 1) :
    Reads (Parser.wordsUntil .rbracket (n + 1)) (Compound.allMarks ws ++ ⟨touching, .rbracket⟩ :: rest)
      (Compound.allUnplaced · = Compound.allUnplaced ws) rest := by
  rw [Parser.wordsUntil]
  cases ws with
  | nil =>
    rw [Compound.allMarks, List.nil_append]
    refine .bind (.skipNewlines (Mark.next?_cons_ne (by simp))) fun _ _ ↦ .follow .peek ?_
    exact .bind .discard fun _ _ ↦ .pure rfl
  | cons w ws =>
    rw [Compound.AllWellFormed] at hws
    have hbreaks : Breaks (Compound.allMarks ws ++ ⟨touching, .rbracket⟩ :: rest) :=
      .words hws.2 (Mark.breaks_cons rfl (by decide))
    have hpos := Compound.length_pos hws.1 false
    rw [Compound.allMarks, List.length_append] at hn
    rw [Compound.allMarks, List.append_assoc]
    have hnext := Compound.startsWord hws.1 false (Compound.allMarks ws ++ ⟨touching, .rbracket⟩ :: rest)
    refine .bind (.skipNewlines (Token.ne_of_startsWord hnext rfl)) fun _ _ ↦ .follow .peek ?_
    rw [if_neg (Token.ne_of_startsWord hnext rfl), if_pos hnext]
    refine .bind (h.compound w false _ hws.1 hbreaks (by omega)) fun first hfirst ↦ ?_
    refine .bind (h.wordsUntil ws touching rest hws.2 (by omega)) fun others hothers ↦ .pure ?_
    rw [Compound.allUnplaced, Compound.allUnplaced, hfirst, hothers]

theorem primary_step (h : ReadsTrees n) (p : Primary) (touching : Bool) (rest : List Mark)
    (hp : p.WellFormed) (hn : 10 * (p.marks touching).length ≤ n + 1 + 9) :
    Reads (Parser.primary (n + 1)) (p.marks touching ++ rest) (·.unplaced = p.unplaced) rest := by
  rw [Parser.primary]
  refine .bind .here fun start _ ↦ ?_
  cases p with
  | bareword text => exact .follow .advance (.pure rfl)
  | quoted text => exact .follow .advance (.pure rfl)
  | «variable» name explode =>
    rw [Primary.WellFormed] at hp
    refine .follow .advance ?_
    dsimp only
    rw [hp, if_neg Bool.false_ne_true]
    exact .pure rfl
  | capture inside =>
    rw [Primary.WellFormed] at hp
    rw [Primary.marks, List.length_cons, List.length_append, List.length_singleton] at hn
    rw [Primary.marks, List.cons_append, List.append_assoc, List.singleton_append]
    refine .follow .advance ?_
    refine .bind (h.chunk inside _ [] _ hp (by simp) ⟨rfl, by simp⟩ (by omega)) fun c hc ↦ ?_
    refine .bind (.expect rfl) fun _ _ ↦ .pure ?_
    rw [Primary.unplaced, Primary.unplaced, hc]
  | list ws =>
    rw [Primary.WellFormed] at hp
    rw [Primary.marks, List.length_cons, List.length_append, List.length_singleton] at hn
    rw [Primary.marks, List.cons_append, List.append_assoc, List.singleton_append]
    refine .follow .advance ?_
    have hnext := Compound.next?_allMarks hp rest (.apart .rbracket) rfl
    refine .bind (.skipNewlines hnext.1) fun _ _ ↦ .follow .peek ?_
    rw [if_neg hnext.2]
    refine .bind (h.wordsUntil ws false rest hp (by omega)) fun words hwords ↦ .pure ?_
    rw [Primary.unplaced, Primary.unplaced, hwords]
  | map ps =>
    rw [Primary.WellFormed] at hp
    cases ps with
    | nil =>
      have hsteps : n = n - 2 + 2 := by
        simp only [Primary.marks, List.length_cons, List.length_nil] at hn
        omega
      refine .follow .advance (.bind (.skipNewlines (Mark.next?_cons_ne (by decide))) fun _ _ ↦ .follow .peek ?_)
      rw [hsteps]
      refine .bind (reads_lone (n - 2) rest) fun pairs hpairs ↦ .pure ?_
      rw [hpairs]
    | cons p ps =>
      rw [Primary.marks, List.length_cons, List.length_append, List.length_singleton] at hn
      rw [Primary.marks, List.cons_append, List.append_assoc, List.singleton_append]
      have hnext : Mark.next? (Compound.pairMarks (p :: ps) ++ .apart .rbracket :: rest) = some .amp := by
        rw [Compound.pairMarks]
        rfl
      refine .follow .advance ?_
      refine .bind (.skipNewlines (by rw [hnext]; decide)) fun _ _ ↦ .follow .peek ?_
      rw [if_pos hnext]
      refine .bind (h.pairs (p :: ps) rest hp (by omega)) fun pairs hpairs ↦ .pure ?_
      rw [Primary.unplaced, Primary.unplaced, hpairs]
  | lambda l =>
    rw [Primary.WellFormed] at hp
    rw [Primary.marks, List.length_cons] at hn
    rw [Primary.marks, List.cons_append]
    exact .follow .advance (h.lambda start l rest hp (by omega))

theorem pairs_step (h : ReadsTrees n) (ps : List (Compound × Compound)) (rest : List Mark)
    (hps : Compound.PairsWellFormed ps) (hn : 10 * (Compound.pairMarks ps).length < n + 1) :
    Reads (Parser.pairs (n + 1)) (Compound.pairMarks ps ++ .apart .rbracket :: rest)
      (Compound.pairsUnplaced · = Compound.pairsUnplaced ps) rest := by
  rw [Parser.pairs]
  cases ps with
  | nil =>
    rw [Compound.pairMarks, List.nil_append]
    refine .bind (.skipNewlines (Mark.next?_cons_ne (by decide))) fun _ _ ↦ .follow .peek ?_
    exact .bind .discard fun _ _ ↦ .pure rfl
  | cons p ps =>
    obtain ⟨key, value⟩ := p
    rw [Compound.PairsWellFormed] at hps
    obtain ⟨hkey, hvalue, hps⟩ := hps
    have hbreaks : Breaks (Compound.pairMarks ps ++ .apart .rbracket :: rest) := .pairs Mark.breaks_apart
    simp only [Compound.pairMarks, List.length_cons, List.length_append] at hn
    simp only [Compound.pairMarks, List.cons_append, List.append_assoc]
    refine .bind (.skipNewlines (Mark.next?_cons_ne (by decide))) fun _ _ ↦ .follow .peek ?_
    rw [if_neg (Mark.next?_cons_ne (by decide))]
    refine .bind (.expect rfl) fun _ _ ↦ .follow .peek ?_
    rw [if_neg (Token.ne_of_startsWord (Compound.startsWord hkey true _) rfl)]
    refine .bind (h.pair key value _ hkey hvalue hbreaks (by omega)) fun first hfirst ↦ ?_
    refine .bind (h.pairs ps rest hps (by omega)) fun others hothers ↦ .pure ?_
    rw [Compound.pairsUnplaced, Compound.pairsUnplaced, hfirst.1, hfirst.2, hothers]

theorem pair_step (h : ReadsTrees n) (key value : Compound) (rest : List Mark) (hkey : key.WellFormed)
    (hvalue : value.WellFormed) (hrest : Breaks rest)
    (hn : 10 * ((key.marks true).length + (value.marks true).length) < n + 1) :
    Reads (Parser.pair (n + 1)) (key.marks true ++ .joined .eq :: (value.marks true ++ rest))
      (fun x ↦ x.1.unplaced = key.unplaced ∧ x.2.unplaced = value.unplaced) rest := by
  rw [Parser.pair]
  refine .follow .wordTouches ?_
  rw [if_pos (Compound.wordTouches hkey _)]
  refine .bind (h.compound key true _ hkey (Mark.breaks_cons rfl (by decide)) (by omega)) fun first hfirst ↦ ?_
  refine .follow .peek (.follow .touches (.bind .discard fun _ _ ↦ .follow .wordTouches ?_))
  rw [if_pos (Compound.wordTouches hvalue _)]
  exact .bind (h.compound value true rest hvalue hrest (by omega)) fun second hsecond ↦ .pure ⟨hfirst, hsecond⟩

/-! ### Lambdas -/

theorem lambda_step (h : ReadsTrees n) (start : Nat) (l : Lambda) (rest : List Mark) (hl : l.WellFormed)
    (hn : 10 * l.marks.length ≤ n + 1) :
    Reads (Parser.lambda start (n + 1)) (l.marks ++ rest) (·.unplaced = (Primary.lambda l).unplaced) rest := by
  rw [Parser.lambda]
  by_cases hplain : l.params = [] ∧ l.options = [] ∧ l.restOptions = none
  · obtain ⟨span, params, options, restOptions, body⟩ := l
    obtain ⟨rfl, rfl, rfl⟩ := hplain
    rw [Lambda.WellFormed] at hl
    rw [Lambda.marks, List.length_append, List.length_singleton] at hn
    rw [Lambda.marks, List.append_assoc, List.singleton_append]
    refine .follow .peek (.follow .touches ?_)
    split
    · next hnext htouches => exact absurd htouches (by rw [Chunk.firstTouches_marks hl.2.2.2]; decide)
    · exact h.lambdaBody start ⟨span, [], [], none, body⟩ rest hl.2.2.2 (by dsimp only; omega)
  · rw [Lambda.marks_eq hplain] at hn ⊢
    obtain ⟨span, params, options, restOptions, body⟩ := l
    simp only [List.length_cons, List.length_append, List.length_map, List.length_nil] at hn
    rw [Lambda.WellFormed] at hl
    simp only [List.cons_append, List.append_assoc, List.nil_append]
    refine .follow .peek (.follow .touches (.bind .discard fun _ _ ↦ ?_))
    refine .bind (h.signature false params options restOptions _ (by simpa using hl.1) hl.2.1 hl.2.2.1
      (by omega)) fun x hx ↦ ?_
    obtain ⟨params', options', restOptions'⟩ := x
    obtain ⟨rfl, hoptions, rfl⟩ := hx
    refine .consequence (h.lambdaBody start ⟨span, params', options', restOptions', body⟩ rest hl.2.2.2
      (by dsimp only; omega)) fun p hp ↦ ?_
    rw [hp, Primary.unplaced, Primary.unplaced, Lambda.unplaced, Lambda.unplaced, hoptions]

theorem lambdaBody_step (h : ReadsTrees n) (start : Nat) (l : Lambda) (rest : List Mark)
    (hbody : l.body.WellFormed) (hn : 10 * l.body.marks.length + 1 < n + 1) :
    Reads (Parser.lambdaBody start l.params l.options l.restOptions (n + 1))
      (l.body.marks ++ .apart .rbrace :: rest) (·.unplaced = (Primary.lambda l).unplaced) rest := by
  obtain ⟨span, params, options, restOptions, body⟩ := l
  dsimp only at hn hbody
  rw [Parser.lambdaBody]
  refine .bind (h.chunk body _ [] _ hbody (by simp) ⟨rfl, by simp⟩ (by omega)) fun c hc ↦ ?_
  refine .bind (.expect rfl) fun _ _ ↦ .bind .spanFrom fun place _ ↦ .pure ?_
  rw [Primary.unplaced, Primary.unplaced, Lambda.unplaced, Lambda.unplaced, hc]

section Signatures

variable {hasRest : Bool} {marks marks' rest : List Mark}
  {Q : List Param × List (String × Compound) × Option String → Prop}

/-- A parameter stands in front of a signature. -/
theorem reads_param {p : Param} (hname : p.isRest = false → Name.startsAt p.name = false)
    (hsingle : p.isRest = true → hasRest = false)
    (h : Reads (Parser.signature (hasRest || p.isRest) n) marks Q rest) :
    Reads (Parser.signature hasRest (n + 1)) (.apart p.token :: marks)
      (fun x ↦ ∃ params, x.1 = p :: params ∧ Q (params, x.2)) rest := by
  obtain ⟨name, isRest⟩ := p
  rw [Parser.signature]
  refine .bind .here fun start _ ↦ .follow .advance ?_
  cases isRest with
  | true =>
    obtain rfl : hasRest = false := hsingle rfl
    have htoken : (Mark.apart (Param.token ⟨name, true⟩)).token = .bareword ("@" ++ name) := rfl
    have hword : ("@" ++ name).toList = '@' :: name.toList := by simp
    rw [htoken]
    dsimp only
    rw [hword]
    exact .bind h fun x hx ↦ .pure ⟨x.1, by rw [String.ofList_toList], hx⟩
  | false =>
    rw [Bool.or_false] at h
    have htoken : (Mark.apart (Param.token ⟨name, false⟩)).token = .bareword name := rfl
    rw [htoken]
    dsimp only
    split
    · next rest hlist => exact (Name.startsAt_eq_false.1 (hname rfl) rest hlist).elim
    · exact .bind h fun x hx ↦ .pure ⟨x.1, rfl, hx⟩

/-- An option with its default stands in front of a signature. -/
theorem reads_default {name : String} {word : Compound} (hname : Name.startsAt name = false)
    (hword : Reads (Parser.compound n) marks (·.unplaced = word.unplaced) marks')
    (h : Reads (Parser.signature hasRest n) marks' Q rest) :
    Reads (Parser.signature hasRest (n + 1))
      (.apart .amp :: .joined (.bareword name) :: .joined .eq :: marks)
      (fun x ↦ ∃ default options, x.2.1 = (name, default) :: options ∧ default.unplaced = word.unplaced ∧
        Q (x.1, options, x.2.2)) rest := by
  have htoken : (Mark.joined (.bareword name)).token = .bareword name := rfl
  rw [Parser.signature]
  refine .bind .here fun start _ ↦ .follow .advance (.follow .advance ?_)
  rw [htoken]
  dsimp only
  split
  · next rest hlist => exact (Name.startsAt_eq_false.1 hname rest hlist).elim
  · refine .bind (.expect rfl) fun _ _ ↦ .bind hword fun default hdefault ↦ ?_
    exact .bind h fun x hx ↦ .pure ⟨default, x.2.1, rfl, hdefault, hx⟩

/-- The name for all other options stands in front of a signature. -/
theorem reads_restName {name : String} (h : Reads (Parser.signature hasRest n) marks Q rest) :
    Reads (Parser.signature hasRest (n + 1)) (.apart .amp :: .joined (.bareword ("@" ++ name)) :: marks)
      (fun x ↦ ∃ restOptions, x.2.2 = restOptions.or (some name) ∧ Q (x.1, x.2.1, restOptions)) rest := by
  have htoken : (Mark.joined (.bareword ("@" ++ name))).token = .bareword ("@" ++ name) := rfl
  have hword : ("@" ++ name).toList = '@' :: name.toList := by simp
  rw [Parser.signature]
  refine .bind .here fun start _ ↦ .follow .advance (.follow .advance ?_)
  rw [htoken]
  dsimp only
  rw [hword]
  refine .bind h fun x hx ↦ .pure ⟨x.2.2, ?_, hx⟩
  rw [String.ofList_toList]
  cases x.2.2 <;> rfl

end Signatures

theorem signature_step (h : ReadsTrees n) (hasRest : Bool) (params : List Param)
    (options : List (String × Compound)) (restOptions : Option String) (rest : List Mark)
    (hcount : params.countP (·.isRest) + hasRest.toNat ≤ 1)
    (hparams : ∀ p ∈ params, p.isRest = false → Name.startsAt p.name = false)
    (hoptions : Compound.DefaultsWellFormed options)
    (hn : 10 * (params.length + (Compound.defaultMarks options).length +
      (Lambda.restMarks restOptions).length) < n + 1) :
    Reads (Parser.signature hasRest (n + 1)) (params.map (.apart ·.token) ++ (Compound.defaultMarks options ++
        (Lambda.restMarks restOptions ++ .apart .pipe :: rest)))
      (fun x ↦ x.1 = params ∧ Compound.defaultsUnplaced x.2.1 = Compound.defaultsUnplaced options ∧
        x.2.2 = restOptions) rest := by
  cases params with
  | cons p params =>
    have hcounts : (p.isRest = true → hasRest = false) ∧
        params.countP (·.isRest) + (hasRest || p.isRest).toNat ≤ 1 := by
      rw [List.countP_cons] at hcount
      cases hasRest <;> cases hp : p.isRest <;> simp [hp] at hcount ⊢ <;> omega
    have hothers : ∀ q ∈ params, q.isRest = false → Name.startsAt q.name = false :=
      fun q hq ↦ hparams q (List.mem_cons_of_mem p hq)
    rw [List.length_cons] at hn
    refine .consequence (reads_param (hparams p List.mem_cons_self) hcounts.1
      (h.signature _ params options restOptions rest hcounts.2 hothers hoptions (by omega))) ?_
    rintro x ⟨params', hparams', hx⟩
    exact ⟨hparams'.trans (congrArg (p :: ·) hx.1), hx.2⟩
  | nil =>
    cases options with
    | cons o options =>
      obtain ⟨name, word⟩ := o
      rw [Compound.DefaultsWellFormed] at hoptions
      obtain ⟨hname, hword, hoptions⟩ := hoptions
      simp only [Compound.defaultMarks, List.length_cons, List.length_append, List.length_nil] at hn
      simp only [Compound.defaultMarks, List.map_nil, List.nil_append, List.cons_append, List.append_assoc]
      refine .consequence (reads_default hname
        (h.compound word true _ hword (.defaults (.restName Mark.breaks_apart)) (by omega))
        (h.signature hasRest [] options restOptions rest hcount (by simp) hoptions (by simp; omega))) ?_
      rintro x ⟨default, options', hx, hdefault, hothers⟩
      refine ⟨hothers.1, ?_, hothers.2.2⟩
      rw [hx, Compound.defaultsUnplaced, Compound.defaultsUnplaced, hdefault, hothers.2.1]
    | nil =>
      cases restOptions with
      | none =>
        rw [Parser.signature]
        simp only [Compound.defaultMarks, Lambda.restMarks, List.map_nil, List.nil_append]
        exact .bind .here fun start _ ↦ .follow .advance (.pure ⟨rfl, rfl, rfl⟩)
      | some name =>
        simp only [Compound.defaultMarks, Lambda.restMarks, List.length_cons, List.length_nil] at hn
        simp only [Compound.defaultMarks, Lambda.restMarks, List.map_nil, List.nil_append, List.cons_append]
        refine .consequence (reads_restName (h.signature hasRest [] [] none rest hcount (by simp) trivial
          (by simp only [Compound.defaultMarks, Lambda.restMarks, List.length_nil]; omega))) ?_
        rintro x ⟨restOptions, hx, hothers⟩
        obtain rfl : restOptions = none := hothers.2.2
        exact ⟨hothers.1, hothers.2.1, hx⟩

/-! ### Commands -/

theorem reads_noValue (n : Nat) {rest : List Mark} (hrest : EndsItem rest) :
    Reads (Parser.optionValue (n + 1)) rest (· = none) rest := by
  rw [Parser.optionValue]
  refine .follow .peek (.follow .touches ?_)
  split
  · next hnext htouches => exact absurd hnext (hrest.2 htouches)
  · exact .pure rfl

theorem option_step (h : ReadsTrees n) (span : Span) (name : String) (value : Option Compound)
    (rest : List Mark) (hvalue : (Item.opt span name value).WellFormed) (hrest : EndsItem rest)
    (hn : 10 * (Item.opt span name value).marks.length ≤ n + 1 + 9) :
    Reads (Parser.option (n + 1)) ((Item.opt span name value).marks ++ rest)
      (·.unplaced = (Item.opt span name value).unplaced) rest := by
  rw [Parser.option]
  refine .bind .here fun start _ ↦ ?_
  cases value with
  | none =>
    have hsteps : n = n - 1 + 1 := by
      simp only [Item.marks, List.length_cons, List.length_nil] at hn
      omega
    refine .bind (.expect rfl) fun _ _ ↦ .follow .peek (.follow .touches (.bind .discard fun _ _ ↦ ?_))
    rw [hsteps]
    refine .follow (reads_noValue (n - 1) hrest) (.bind .spanFrom fun place _ ↦ .pure ?_)
    rw [Item.unplaced, Item.unplaced]
  | some word =>
    rw [Item.WellFormed] at hvalue
    simp only [Item.marks, List.length_cons] at hn
    simp only [Item.marks, List.cons_append]
    refine .bind (.expect rfl) fun _ _ ↦ .follow .peek (.follow .touches (.bind .discard fun _ _ ↦ ?_))
    refine .bind (h.optionValue word rest hvalue hrest.1 (by omega)) fun v hv ↦ ?_
    refine .bind .spanFrom fun place _ ↦ .pure ?_
    obtain ⟨w, rfl, hw⟩ := hv
    rw [Item.unplaced, Item.unplaced, hw]

theorem optionValue_step (h : ReadsTrees n) (word : Compound) (rest : List Mark) (hword : word.WellFormed)
    (hrest : Breaks rest) (hn : 10 * (word.marks true).length < n + 1) :
    Reads (Parser.optionValue (n + 1)) (.joined .eq :: (word.marks true ++ rest))
      (fun value ↦ ∃ w, value = some w ∧ w.unplaced = word.unplaced) rest := by
  rw [Parser.optionValue]
  refine .follow .peek (.follow .touches (.bind .discard fun _ _ ↦ .follow .wordTouches ?_))
  rw [if_pos (Compound.wordTouches hword rest)]
  exact .bind (h.compound word true rest hword hrest (by omega)) fun w hw ↦ .pure ⟨w, rfl, hw⟩

theorem redir_step (h : ReadsTrees n) (r : Redir) (rest : List Mark) (hr : r.WellFormed) (hrest : Breaks rest)
    (hn : 10 * r.marks.length ≤ n + 1 + 9) :
    Reads (Parser.redir r.fd r.mode (n + 1)) (r.marks ++ rest) (·.unplaced = r.unplaced) rest := by
  obtain ⟨span, fd, mode, target⟩ := r
  rw [Parser.redir]
  refine .bind .here fun start _ ↦ ?_
  cases target with
  | none =>
    cases mode with
    | dup other =>
      refine .bind .discard fun _ _ ↦ .bind .spanFrom fun place _ ↦ .pure ?_
      rw [Redir.unplaced, Redir.unplaced]
    | write | append => simp [Redir.WellFormed] at hr
  | some word =>
    rw [Redir.marks, List.length_cons] at hn
    rw [Redir.marks, List.cons_append]
    refine .bind .discard fun _ _ ↦ ?_
    cases mode with
    | dup other => rw [Redir.WellFormed] at hr; cases hr
    | write | append =>
      have hr : word.WellFormed := by simpa [Redir.WellFormed] using hr
      refine .follow .peek ?_
      rw [if_pos (Compound.startsWord hr false rest)]
      refine .bind (h.compound word false rest hr hrest (by omega)) fun w hw ↦ ?_
      refine .bind .spanFrom fun place _ ↦ .pure ?_
      rw [Redir.unplaced, Redir.unplaced, hw]

section Forms

variable {marks rest : List Mark} {Q : List Item × List Redir → Prop}

/-- An item stands in front of what is left of a form. -/
theorem reads_item (h : ReadsTrees n) {i : Item} (hi : i.WellFormed) (hmarks : EndsItem marks)
    (hn : 10 * i.marks.length < n + 1) (hothers : Reads (Parser.formRest n) marks Q rest) :
    Reads (Parser.formRest (n + 1)) (i.marks ++ marks)
      (fun x ↦ ∃ first items, x.1 = first :: items ∧ first.unplaced = i.unplaced ∧ Q (items, x.2)) rest := by
  rw [Parser.formRest]
  refine .follow .peek ?_
  cases i with
  | arg word =>
    rw [Item.WellFormed] at hi
    rw [Item.marks] at hn ⊢
    obtain ⟨token, others, hword, hstart⟩ := Compound.marks_eq false hi
    have hnext : Mark.next? (word.marks false ++ marks) = some token := by
      rw [hword]
      rfl
    rw [hnext]
    have hfirst := h.compound word false _ hi hmarks.1 (by omega)
    cases token with
    | bareword | quoted | «variable» | lparen | lbracket | lbrace =>
      refine .bind hfirst fun w hw ↦ .bind hothers fun x hx ↦ .pure ⟨_, x.1, rfl, ?_, hx⟩
      rw [Item.unplaced, Item.unplaced, hw]
    | _ => cases hstart
  | opt span name value =>
    have hnext : Mark.next? ((Item.opt span name value).marks ++ marks) = some .amp := by
      cases value <;> rfl
    rw [hnext]
    refine .bind (h.option span name value _ hi hmarks (by omega)) fun first hfirst ↦ ?_
    exact .bind hothers fun x hx ↦ .pure ⟨first, x.1, rfl, hfirst, hx⟩
  | eq span =>
    refine .bind .here fun start _ ↦ .bind .discard fun _ _ ↦ .bind .spanFrom fun place _ ↦ ?_
    refine .bind hothers fun x hx ↦ .pure ⟨_, x.1, rfl, ?_, hx⟩
    rw [Item.unplaced, Item.unplaced]

/-- A redirection stands in front of what is left of a form. -/
theorem reads_redir (h : ReadsTrees n) {r : Redir} (hr : r.WellFormed) (hmarks : Breaks marks)
    (hn : 10 * r.marks.length < n + 1) (hothers : Reads (Parser.formRest n) marks Q rest) :
    Reads (Parser.formRest (n + 1)) (r.marks ++ marks)
      (fun x ↦ ∃ first redirs, x.2 = first :: redirs ∧ first.unplaced = r.unplaced ∧ Q (x.1, redirs)) rest := by
  have hnext : Mark.next? (r.marks ++ marks) = some (.redir (some r.fd) r.mode) := by
    obtain ⟨span, fd, mode, target⟩ := r
    cases target <;> rfl
  rw [Parser.formRest]
  refine .follow .peek ?_
  rw [hnext]
  refine .bind (h.redir r _ hr hmarks (by omega)) fun first hfirst ↦ ?_
  exact .bind hothers fun x hx ↦ .pure ⟨first, x.2, rfl, hfirst, hx⟩

end Forms

theorem formRest_step (h : ReadsTrees n) (items : List Item) (redirs : List Redir) (rest : List Mark)
    (hitems : Item.AllWellFormed items) (hredirs : Redir.AllWellFormed redirs) (hrest : EndsForm rest)
    (hn : 10 * ((Item.allMarks items).length + (Redir.allMarks redirs).length) < n + 1) :
    Reads (Parser.formRest (n + 1)) (Item.allMarks items ++ (Redir.allMarks redirs ++ rest))
      (fun x ↦ Item.allUnplaced x.1 = Item.allUnplaced items ∧
        Redir.allUnplaced x.2 = Redir.allUnplaced redirs) rest := by
  cases items with
  | cons i items =>
    rw [Item.AllWellFormed] at hitems
    have hpos := Item.length_pos hitems.1
    have hends : EndsItem (Item.allMarks items ++ (Redir.allMarks redirs ++ rest)) :=
      .items hitems.2 (.redirs hrest.endsItem)
    rw [Item.allMarks, List.length_append] at hn
    rw [Item.allMarks, List.append_assoc]
    refine .consequence (h.reads_item hitems.1 hends (by omega)
      (h.formRest items redirs rest hitems.2 hredirs hrest (by omega))) ?_
    rintro x ⟨first, others, hx, hfirst, hothers⟩
    refine ⟨?_, hothers.2⟩
    rw [hx, Item.allUnplaced, Item.allUnplaced, hfirst, hothers.1]
  | nil =>
    rw [Item.allMarks, List.length_nil] at hn
    rw [Item.allMarks, List.nil_append]
    cases redirs with
    | cons r redirs =>
      rw [Redir.AllWellFormed] at hredirs
      have hpos := r.length_pos
      have hends : EndsItem (Redir.allMarks redirs ++ rest) := .redirs hrest.endsItem
      rw [Redir.allMarks, List.length_append] at hn
      rw [Redir.allMarks, List.append_assoc]
      refine .consequence (h.reads_redir hredirs.1 hends.1 (by omega)
        (h.formRest [] redirs rest trivial hredirs.2 hrest (by rw [Item.allMarks, List.length_nil]; omega))) ?_
      rintro x ⟨first, others, hx, hfirst, hothers⟩
      refine ⟨hothers.1, ?_⟩
      rw [hx, Redir.allUnplaced, Redir.allUnplaced, hfirst, hothers.2]
    | nil =>
      rw [Parser.formRest, Redir.allMarks, List.nil_append]
      refine .follow .peek ?_
      obtain hnext | hnext | hnext | hnext | hnext := hrest <;> rw [hnext] <;> exact .pure ⟨rfl, rfl⟩

theorem form_step (h : ReadsTrees n) (f : Form) (rest : List Mark) (hf : f.WellFormed) (hrest : EndsForm rest)
    (hn : 10 * f.marks.length ≤ n + 1 + 6) :
    Reads (Parser.form (n + 1)) (f.marks ++ rest) (·.unplaced = f.unplaced) rest := by
  obtain ⟨span, head, items, redirs⟩ := f
  rw [Form.WellFormed] at hf
  obtain ⟨hhead, hitems, hredirs⟩ := hf
  have hpos := Compound.length_pos hhead false
  rw [Form.marks, List.length_append, List.length_append] at hn
  rw [Parser.form, Form.marks, List.append_assoc, List.append_assoc]
  refine .bind .here fun start _ ↦ .follow .peek ?_
  rw [if_pos (Compound.startsWord hhead false _)]
  have hends : EndsItem (Item.allMarks items ++ (Redir.allMarks redirs ++ rest)) :=
    .items hitems (.redirs hrest.endsItem)
  refine .bind (h.compound head false _ hhead hends.1 (by omega)) fun w hw ↦ ?_
  refine .bind (h.formRest items redirs rest hitems hredirs hrest (by omega)) fun x hx ↦ ?_
  refine .bind .spanFrom fun place _ ↦ .pure ?_
  rw [Form.unplaced, Form.unplaced, hw, hx.1, hx.2]

theorem stages_step (h : ReadsTrees n) (fs : List Form) (rest : List Mark) (hfs : Form.AllWellFormed fs)
    (hrest : EndsPipeline rest) (hn : 10 * (Form.otherMarks fs).length < n + 1) :
    Reads (Parser.stages (n + 1)) (Form.otherMarks fs ++ rest)
      (Form.allUnplaced · = Form.allUnplaced fs) rest := by
  rw [Parser.stages]
  cases fs with
  | nil =>
    rw [Form.otherMarks, List.nil_append]
    refine .follow .peek ?_
    rw [if_neg hrest.ne_pipe]
    exact .pure rfl
  | cons f fs =>
    rw [Form.AllWellFormed] at hfs
    obtain ⟨token, marks, hmarks, hstart⟩ := Form.marks_eq hfs.1
    have hline : Mark.next? (f.marks ++ (Form.otherMarks fs ++ rest)) ≠ some .newline := by
      rw [hmarks]
      exact Token.ne_of_startsWord hstart rfl
    rw [Form.otherMarks, List.length_cons, List.length_append] at hn
    rw [Form.otherMarks, List.cons_append, List.append_assoc]
    refine .follow .peek (.bind .discard fun _ _ ↦ .bind (.skipNewlines hline) fun _ _ ↦ ?_)
    refine .bind (h.form f _ hfs.1 (.others hrest) (by omega)) fun first hfirst ↦ ?_
    refine .bind (h.stages fs rest hfs.2 hrest (by omega)) fun others hothers ↦ .pure ?_
    rw [Form.allUnplaced, Form.allUnplaced, hfirst, hothers]

theorem pipeline_step (h : ReadsTrees n) (p : Pipeline) (rest : List Mark) (hp : p.WellFormed)
    (hrest : EndsPipeline rest) (hn : 10 * p.marks.length ≤ n + 1 + 5) :
    Reads (Parser.pipeline (n + 1)) (p.marks ++ rest) (·.unplaced = p.unplaced) rest := by
  obtain ⟨span, forms⟩ := p
  rw [Pipeline.WellFormed] at hp
  cases forms with
  | nil => exact absurd rfl hp.1
  | cons f fs =>
    rw [Form.AllWellFormed] at hp
    obtain ⟨token, marks, hmarks, -⟩ := Form.marks_eq hp.2.1
    have hlength : f.marks.length = marks.length + 1 := by rw [hmarks, List.length_cons]
    rw [Pipeline.marks, List.length_append] at hn
    rw [Parser.pipeline, Pipeline.marks, List.append_assoc]
    refine .bind .here fun start _ ↦ ?_
    refine .bind (h.form f _ hp.2.1 (.others hrest) (by omega)) fun first hfirst ↦ ?_
    refine .bind (h.stages fs rest hp.2.2 hrest (by omega)) fun others hothers ↦ ?_
    refine .bind .spanFrom fun place _ ↦ .pure ?_
    rw [Pipeline.unplaced, Pipeline.unplaced, Form.allUnplaced, Form.allUnplaced, hfirst, hothers]

/-- Behind a pipeline of a chunk stands a semicolon or the end of the chunk. -/
theorem reads_endPipeline {close : Option Token} {rest : List Mark}
    (h : Mark.next? rest = some .semicolon ∨ EndsChunk close rest) :
    Reads (endPipeline close) rest (fun _ ↦ True) rest := by
  rw [endPipeline]
  refine .follow .peek ?_
  obtain h | ⟨h, rfl | rfl | rfl⟩ := h <;> rw [h] <;> exact .pure trivial

theorem chunk_step (h : ReadsTrees n) (c : Chunk) (close : Option Token) (sep rest : List Mark)
    (hc : c.WellFormed) (hsep : ∀ m ∈ sep, m.token = .newline ∨ m.token = .semicolon)
    (hrest : EndsChunk close rest) (hn : 10 * c.marks.length < n + 1) :
    Reads (Parser.chunk close (n + 1)) (sep ++ (c.marks ++ rest)) (·.unplaced = c.unplaced) rest := by
  rw [Parser.chunk]
  obtain ⟨pipelines⟩ := c
  cases pipelines with
  | nil =>
    rw [Chunk.marks, List.nil_append]
    refine .bind (.skipSeparators hsep hrest.ne_newline hrest.ne_semicolon) fun _ _ ↦ .follow .peek ?_
    obtain ⟨hnext, rfl | rfl | rfl⟩ := hrest <;> rw [hnext] <;> exact .pure rfl
  | cons p ps =>
    rw [Chunk.WellFormed, Pipeline.AllWellFormed] at hc
    obtain ⟨token, marks, hmarks, hstart⟩ := Pipeline.marks_eq hc.1
    have hlength : p.marks.length = marks.length + 1 := by rw [hmarks, List.length_cons]
    obtain ⟨sep', hsep', hothers⟩ := Pipeline.otherMarks_eq ps
    rw [Chunk.marks, List.length_append, hothers, List.length_append] at hn
    have hnext : Mark.next? (p.marks ++ (sep' ++ (Chunk.marks ⟨ps⟩ ++ rest))) = some token := by
      rw [hmarks]
      rfl
    rw [Chunk.marks, hothers, List.append_assoc, List.append_assoc]
    refine .bind (.skipSeparators hsep (hnext ▸ Token.ne_of_startsWord hstart rfl)
      (hnext ▸ Token.ne_of_startsWord hstart rfl)) fun _ _ ↦ .follow .peek ?_
    rw [hnext]
    have hclose : ¬ some token = close := by
      obtain ⟨-, rfl | rfl | rfl⟩ := hrest
      · exact Option.some_ne_none token
      · exact Token.ne_of_startsWord hstart rfl
      · exact Token.ne_of_startsWord hstart rfl
    dsimp only
    rw [if_neg hclose]
    have hends : Mark.next? (sep' ++ (Chunk.marks ⟨ps⟩ ++ rest)) = some .semicolon ∨
        EndsChunk close (sep' ++ (Chunk.marks ⟨ps⟩ ++ rest)) := by
      rw [← List.append_assoc, ← hothers]
      exact Pipeline.others_end ps hrest
    have hpipeline : EndsPipeline (sep' ++ (Chunk.marks ⟨ps⟩ ++ rest)) :=
      hends.elim (fun h ↦ .inr (.inl h)) EndsChunk.endsPipeline
    refine .bind (h.pipeline p _ hc.1 hpipeline (by omega)) fun first hfirst ↦ ?_
    refine .bind (reads_endPipeline hends) fun _ _ ↦ ?_
    refine .bind (h.chunk ⟨ps⟩ close sep' rest (by rw [Chunk.WellFormed]; exact hc.2) hsep' hrest (by omega))
      fun others hothers ↦ .pure ?_
    obtain ⟨others⟩ := others
    rw [Chunk.unplaced, Chunk.unplaced, Chunk.mk.injEq] at hothers
    rw [Chunk.unplaced, Chunk.unplaced, Pipeline.allUnplaced, Pipeline.allUnplaced, hfirst, hothers]

/-- No rule reads anything without a step. -/
theorem zero : ReadsTrees 0 where
  chunk _ _ _ _ _ _ _ hn := absurd hn (Nat.not_lt_zero _)
  pipeline p _ hp _ hn := by
    obtain ⟨token, marks, hmarks, -⟩ := Pipeline.marks_eq hp
    rw [hmarks, List.length_cons] at hn
    omega
  stages _ _ _ _ hn := absurd hn (Nat.not_lt_zero _)
  form f _ hf _ hn := by
    obtain ⟨token, marks, hmarks, -⟩ := Form.marks_eq hf
    rw [hmarks, List.length_cons] at hn
    omega
  formRest _ _ _ _ _ _ hn := absurd hn (Nat.not_lt_zero _)
  option span name value _ _ _ hn := by
    cases value <;> simp only [Item.marks, List.length_cons] at hn <;> omega
  optionValue _ _ _ _ hn := absurd hn (Nat.not_lt_zero _)
  redir r _ _ _ hn := by
    obtain ⟨span, fd, mode, target⟩ := r
    cases target <;> simp only [Redir.marks, List.length_cons] at hn <;> omega
  compound w touching _ hw _ hn := by
    have hpos := Compound.length_pos hw touching
    omega
  moreParts _ _ _ _ hn := absurd hn (Nat.not_lt_zero _)
  indexed part touching _ _ _ hn := by
    obtain ⟨token, marks, hmarks, -⟩ := part.marks_eq touching
    rw [hmarks, List.length_cons] at hn
    omega
  indexLists _ _ _ _ hn := absurd hn (Nat.not_lt_zero _)
  wordsUntil _ _ _ _ hn := absurd hn (Nat.not_lt_zero _)
  primary p touching _ _ hn := by
    obtain ⟨token, marks, hmarks, -⟩ := p.marks_eq touching
    rw [hmarks, List.length_cons] at hn
    omega
  pairs _ _ _ hn := absurd hn (Nat.not_lt_zero _)
  pair _ _ _ _ _ _ hn := absurd hn (Nat.not_lt_zero _)
  lambda _ l _ _ hn := by
    have hpos := l.length_pos
    omega
  lambdaBody _ _ _ _ hn := absurd hn (Nat.not_lt_zero _)
  signature _ _ _ _ _ _ _ _ hn := absurd hn (Nat.not_lt_zero _)

theorem step (h : ReadsTrees n) : ReadsTrees (n + 1) where
  chunk := h.chunk_step
  pipeline := h.pipeline_step
  stages := h.stages_step
  form := h.form_step
  formRest := h.formRest_step
  option := h.option_step
  optionValue := h.optionValue_step
  redir := h.redir_step
  compound := h.compound_step
  moreParts := h.moreParts_step
  indexed := h.indexed_step
  indexLists := h.indexLists_step
  wordsUntil := h.wordsUntil_step
  primary := h.primary_step
  pairs := h.pairs_step
  pair := h.pair_step
  lambda := h.lambda_step
  lambdaBody := h.lambdaBody_step
  signature := h.signature_step

theorem all : ∀ n, ReadsTrees n
  | 0 => zero
  | n + 1 => (all n).step

end ReadsTrees

/-- The tokens of a well-formed chunk are read as that chunk. -/
theorem script_flatten {c : Chunk} (h : c.WellFormed) (finish : Nat) :
    ∃ c', Parser.script c.flatten finish = .ok c' ∧ c'.unplaced = c.unplaced := by
  have hends : EndsChunk none [] := ⟨rfl, .inl rfl⟩
  have hsteps : 10 * c.marks.length < steps c.flatten.length := by
    rw [Chunk.flatten, Mark.length_place, steps]
    omega
  obtain ⟨c', cursor, hread, hc', -⟩ := (ReadsTrees.all _).chunk c none [] [] h (by simp) hends hsteps
    ⟨c.flatten, none, finish⟩ (by rw [List.append_nil, List.nil_append]; exact c.marks_flatten h)
  exact ⟨c', by rw [script, hread], hc'⟩

end Parser

end ValueShell
