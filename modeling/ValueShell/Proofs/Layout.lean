import Mathlib.Data.List.Basic
import ValueShell.Proofs.Flattening.Trees

/-!
# Layout

Blanks, comments and joined lines matter to the parser only in what they keep from touching.  Two cursors with the
same marks in front of them may stand in different texts; `Parser.Alike view m m'` says that there `m` and `m'`
find the same fault, or give what looks the same through `view` and leave off in front of the same marks.

* **Steps** (`Alike.bind` and the rules behind it): whatever the parser looks at, the marks tell, and places only
  get into spans and into the offsets of faults.
* **Rules** (`ReadsAlike`): every rule of the grammar, with a given number of steps, gives the same tree up to
  spans, by induction on the steps with one lemma for each rule.
* **Texts** (`parse_layout`): the two runs of a script get the same number of steps, one for each token.
-/

set_option autoImplicit false

namespace ValueShell

namespace Parser

/-! ## Two runs -/

/-- Two answers of the parser have the same fault, or what they give looks the same and they leave off in front of
the same marks. -/
inductive Agree {α γ : Type} (view : α → γ) :
    Except (SyntaxFault × Nat) (α × Cursor) → Except (SyntaxFault × Nat) (α × Cursor) → Prop where
  | ok {a b : α} {c d : Cursor} (hview : view a = view b) (hmarks : c.marks = d.marks) :
    Agree view (.ok (a, c)) (.ok (b, d))
  | error {fault : SyntaxFault} {offset offset' : Nat} : Agree view (.error (fault, offset)) (.error (fault, offset'))

/-- In front of the same marks the answers agree. -/
def Alike {α γ : Type} (view : α → γ) (m m' : Parser α) : Prop :=
  ∀ c d : Cursor, c.marks = d.marks → Agree view (m c) (m' d)

namespace Alike

variable {α β γ δ : Type} {m m' : Parser α} {f f' : α → Parser β} {view : α → γ} {view' : β → δ}

theorem pure {a b : α} (h : view a = view b) : Alike view (Pure.pure a) (Pure.pure b) :=
  fun _ _ hmarks ↦ .ok h hmarks

theorem bind (h : Alike view m m') (hf : ∀ a b, view a = view b → Alike view' (f a) (f' b)) :
    Alike view' (m >>= f) (m' >>= f') := by
  intro c d hmarks
  have hm := h c d hmarks
  change Agree view' (m c >>= fun x ↦ f x.1 x.2) (m' d >>= fun x ↦ f' x.1 x.2)
  generalize m c = r at hm ⊢
  generalize m' d = r' at hm ⊢
  cases hm with
  | ok hview hmarks => exact hf _ _ hview _ _ hmarks
  | error => exact .error

/-- What is the same on both sides may be put into what follows. -/
theorem follow (h : Alike id m m') (hf : ∀ a, Alike view' (f a) (f' a)) : Alike view' (m >>= f) (m' >>= f') :=
  h.bind fun a b hab ↦ by
    obtain rfl : a = b := hab
    exact hf a

/-- Places on both sides may differ. -/
theorem after (h : Alike (fun _ ↦ ()) m m') (hf : ∀ a b, Alike view' (f a) (f' b)) :
    Alike view' (m >>= f) (m' >>= f') :=
  h.bind fun a b _ ↦ hf a b

theorem fail {fault : SyntaxFault} : Alike view (Parser.fail fault) (Parser.fail fault) :=
  fun _ _ _ ↦ .error

theorem failAt {offset offset' : Nat} {fault : SyntaxFault} :
    Alike view (Parser.failAt offset fault) (Parser.failAt offset' fault) :=
  fun _ _ _ ↦ .error

theorem here : Alike (fun _ ↦ ()) Parser.here Parser.here :=
  fun _ _ hmarks ↦ .ok rfl hmarks

theorem spanFrom {start start' : Nat} : Alike (fun _ ↦ ()) (Parser.spanFrom start) (Parser.spanFrom start') :=
  fun _ _ hmarks ↦ .ok rfl hmarks

theorem peek : Alike id Parser.peek Parser.peek :=
  fun c d hmarks ↦ .ok (by rw [id, id, c.next?_eq, d.next?_eq, hmarks]) hmarks

theorem touches : Alike id Parser.touches Parser.touches :=
  fun c d hmarks ↦ .ok (by rw [id, id, c.touches_eq, d.touches_eq, hmarks]) hmarks

theorem wordTouches : Alike id Parser.wordTouches Parser.wordTouches :=
  fun c d hmarks ↦ .ok (by rw [id, id, c.touches_eq, d.touches_eq, c.next?_eq, d.next?_eq, hmarks]) hmarks

theorem wordContinues : Alike id Parser.wordContinues Parser.wordContinues :=
  fun c d hmarks ↦ .ok (by rw [id, id, c.touches_eq, d.touches_eq, c.next?_eq, d.next?_eq, hmarks]) hmarks

theorem advance : Alike id Parser.advance Parser.advance :=
  fun c d hmarks ↦ .ok (by rw [id, id, c.next?_eq, d.next?_eq, hmarks]) (by rw [c.marks_tail, d.marks_tail, hmarks])

theorem discard : Alike id (discard Parser.advance) (discard Parser.advance) :=
  fun c d hmarks ↦ .ok rfl (by rw [c.marks_tail, d.marks_tail, hmarks])

theorem skipNewlines : Alike id Parser.skipNewlines Parser.skipNewlines :=
  fun c d hmarks ↦ .ok rfl (by rw [c.marks_skip, d.marks_skip, hmarks])

theorem skipSeparators : Alike id Parser.skipSeparators Parser.skipSeparators :=
  fun c d hmarks ↦ .ok rfl (by rw [c.marks_skip, d.marks_skip, hmarks])

theorem expect {token : Token} : Alike id (Parser.expect token) (Parser.expect token) := by
  refine .follow .peek fun next ↦ ?_
  split
  · exact .discard
  · exact .fail

theorem endPipeline {close : Option Token} : Alike id (Parser.endPipeline close) (Parser.endPipeline close) := by
  refine .follow .peek fun next ↦ ?_
  split
  · exact .pure rfl
  · exact .pure rfl
  · exact .pure rfl
  · split
    · exact .pure rfl
    · exact .fail

end Alike

/-! ## The rules -/

/-- What follows a command word, without spans. -/
def itemsUnplaced (x : List Item × List Redir) : List Item × List Redir :=
  (Item.allUnplaced x.1, Redir.allUnplaced x.2)

/-- What a signature says, without spans. -/
def signatureUnplaced (x : List Param × List (String × Compound) × Option String) :
    List Param × List (String × Compound) × Option String :=
  (x.1, Compound.defaultsUnplaced x.2.1, x.2.2)

/-- With `n` steps, every rule gives trees that differ in their spans only. -/
structure ReadsAlike (n : Nat) : Prop where
  chunk : ∀ close, Alike Chunk.unplaced (chunk close n) (chunk close n)
  pipeline : Alike Pipeline.unplaced (pipeline n) (pipeline n)
  stages : Alike Form.allUnplaced (stages n) (stages n)
  form : Alike Form.unplaced (form n) (form n)
  formRest : Alike itemsUnplaced (formRest n) (formRest n)
  option : Alike Item.unplaced (option n) (option n)
  optionValue : Alike (Option.map Compound.unplaced) (optionValue n) (optionValue n)
  redir : ∀ fd mode, Alike Redir.unplaced (redir fd mode n) (redir fd mode n)
  compound : Alike Compound.unplaced (compound n) (compound n)
  moreParts : Alike Indexed.allUnplaced (moreParts n) (moreParts n)
  indexed : Alike Indexed.unplaced (indexed n) (indexed n)
  indexLists : Alike Indexed.indicesUnplaced (indexLists n) (indexLists n)
  wordsUntil : ∀ close, Alike Compound.allUnplaced (wordsUntil close n) (wordsUntil close n)
  primary : Alike Primary.unplaced (primary n) (primary n)
  pairs : Alike Compound.pairsUnplaced (pairs n) (pairs n)
  pair : Alike (fun x ↦ (x.1.unplaced, x.2.unplaced)) (pair n) (pair n)
  /-- The brace of a lambda may stand at different places. -/
  lambda : ∀ start start', Alike Primary.unplaced (lambda start n) (lambda start' n)
  lambdaBody : ∀ start start' params restOptions options options',
    Compound.defaultsUnplaced options = Compound.defaultsUnplaced options' →
    Alike Primary.unplaced (lambdaBody start params options restOptions n)
      (lambdaBody start' params options' restOptions n)
  signature : ∀ hasRest, Alike signatureUnplaced (signature hasRest n) (signature hasRest n)

namespace ReadsAlike

variable {n : Nat}

/-! ### Words -/

theorem compound_step (h : ReadsAlike n) :
    Alike Compound.unplaced (Parser.compound (n + 1)) (Parser.compound (n + 1)) := by
  rw [Parser.compound]
  refine .after .here fun start start' ↦ .bind h.indexed fun first first' hfirst ↦ ?_
  refine .bind h.moreParts fun others others' hothers ↦ .after .spanFrom fun place place' ↦ .pure ?_
  rw [Compound.unplaced, Compound.unplaced, Indexed.allUnplaced, Indexed.allUnplaced, hfirst, hothers]

theorem moreParts_step (h : ReadsAlike n) :
    Alike Indexed.allUnplaced (Parser.moreParts (n + 1)) (Parser.moreParts (n + 1)) := by
  rw [Parser.moreParts]
  refine .follow .wordContinues fun continues ↦ ?_
  split
  · refine .bind h.indexed fun first first' hfirst ↦ .bind h.moreParts fun others others' hothers ↦ .pure ?_
    rw [Indexed.allUnplaced, Indexed.allUnplaced, hfirst, hothers]
  · exact .pure rfl

theorem indexed_step (h : ReadsAlike n) :
    Alike Indexed.unplaced (Parser.indexed (n + 1)) (Parser.indexed (n + 1)) := by
  rw [Parser.indexed]
  refine .after .here fun start start' ↦ .bind h.primary fun head head' hhead ↦ ?_
  refine .bind h.indexLists fun indices indices' hindices ↦ .after .spanFrom fun place place' ↦ .pure ?_
  rw [Indexed.unplaced, Indexed.unplaced, hhead, hindices]

theorem indexLists_step (h : ReadsAlike n) :
    Alike Indexed.indicesUnplaced (Parser.indexLists (n + 1)) (Parser.indexLists (n + 1)) := by
  rw [Parser.indexLists]
  refine .follow .peek fun next ↦ .follow .touches fun touches ↦ ?_
  split
  · refine .follow .discard fun _ ↦ .bind (h.wordsUntil _) fun first first' hfirst ↦ ?_
    refine .bind h.indexLists fun others others' hothers ↦ .pure ?_
    rw [Indexed.indicesUnplaced, Indexed.indicesUnplaced, hfirst, hothers]
  · exact .pure rfl

theorem wordsUntil_step (h : ReadsAlike n) (close : Token) :
    Alike Compound.allUnplaced (Parser.wordsUntil close (n + 1)) (Parser.wordsUntil close (n + 1)) := by
  rw [Parser.wordsUntil]
  refine .follow .skipNewlines fun _ ↦ .follow .peek fun next ↦ ?_
  split
  · exact .follow .discard fun _ ↦ .pure rfl
  · split
    · refine .bind h.compound fun first first' hfirst ↦ ?_
      refine .bind (h.wordsUntil close) fun others others' hothers ↦ .pure ?_
      rw [Compound.allUnplaced, Compound.allUnplaced, hfirst, hothers]
    · exact .fail

theorem primary_step (h : ReadsAlike n) :
    Alike Primary.unplaced (Parser.primary (n + 1)) (Parser.primary (n + 1)) := by
  rw [Parser.primary]
  refine .after .here fun start start' ↦ .follow .advance fun next ↦ ?_
  split
  · exact .fail
  · exact .pure rfl
  · exact .pure rfl
  · split
    · exact .failAt
    · exact .pure rfl
  · refine .bind (h.chunk _) fun inside inside' hinside ↦ .follow .expect fun _ ↦ .pure ?_
    rw [Primary.unplaced, Primary.unplaced, hinside]
  · refine .follow .skipNewlines fun _ ↦ .follow .peek fun next ↦ ?_
    split
    · refine .bind h.pairs fun ps ps' hps ↦ .pure ?_
      rw [Primary.unplaced, Primary.unplaced, hps]
    · refine .bind (h.wordsUntil _) fun ws ws' hws ↦ .pure ?_
      rw [Primary.unplaced, Primary.unplaced, hws]
  · exact h.lambda start start'
  · exact .failAt

theorem pairs_step (h : ReadsAlike n) :
    Alike Compound.pairsUnplaced (Parser.pairs (n + 1)) (Parser.pairs (n + 1)) := by
  rw [Parser.pairs]
  refine .follow .skipNewlines fun _ ↦ .follow .peek fun next ↦ ?_
  split
  · exact .follow .discard fun _ ↦ .pure rfl
  · refine .follow .expect fun _ ↦ .follow .peek fun next ↦ ?_
    split
    · exact h.pairs
    · refine .bind h.pair fun first first' hfirst ↦ .bind h.pairs fun others others' hothers ↦ .pure ?_
      obtain ⟨hkey, hvalue⟩ := Prod.mk.inj hfirst
      rw [Compound.pairsUnplaced, Compound.pairsUnplaced, hkey, hvalue, hothers]

theorem pair_step (h : ReadsAlike n) :
    Alike (fun x ↦ (x.1.unplaced, x.2.unplaced)) (Parser.pair (n + 1)) (Parser.pair (n + 1)) := by
  rw [Parser.pair]
  refine .follow .wordTouches fun touches ↦ ?_
  split
  · refine .bind h.compound fun key key' hkey ↦ .follow .peek fun next ↦ .follow .touches fun touches ↦ ?_
    split
    · refine .follow .discard fun _ ↦ .follow .wordTouches fun touches ↦ ?_
      split
      · refine .bind h.compound fun value value' hvalue ↦ .pure ?_
        rw [hkey, hvalue]
      · exact .fail
    · exact .fail
  · exact .fail

/-! ### Lambdas -/

theorem lambda_step (h : ReadsAlike n) (start start' : Nat) :
    Alike Primary.unplaced (Parser.lambda start (n + 1)) (Parser.lambda start' (n + 1)) := by
  rw [Parser.lambda, Parser.lambda]
  refine .follow .peek fun next ↦ .follow .touches fun touches ↦ ?_
  split
  · refine .follow .discard fun _ ↦ .bind (h.signature false) fun x x' hx ↦ ?_
    obtain ⟨params, options, restOptions⟩ := x
    obtain ⟨params', options', restOptions'⟩ := x'
    obtain ⟨rfl, hx⟩ := Prod.mk.inj hx
    obtain ⟨hoptions, rfl⟩ := Prod.mk.inj hx
    exact h.lambdaBody start start' params restOptions options options' hoptions
  · exact h.lambdaBody start start' [] none [] [] rfl

theorem lambdaBody_step (h : ReadsAlike n) (start start' : Nat) (params : List Param)
    (restOptions : Option String) (options options' : List (String × Compound))
    (hoptions : Compound.defaultsUnplaced options = Compound.defaultsUnplaced options') :
    Alike Primary.unplaced (Parser.lambdaBody start params options restOptions (n + 1))
      (Parser.lambdaBody start' params options' restOptions (n + 1)) := by
  rw [Parser.lambdaBody, Parser.lambdaBody]
  refine .bind (h.chunk _) fun body body' hbody ↦ .follow .expect fun _ ↦ .after .spanFrom fun place place' ↦ ?_
  refine .pure ?_
  rw [Primary.unplaced, Primary.unplaced, Lambda.unplaced, Lambda.unplaced, hoptions, hbody]

theorem signature_step (h : ReadsAlike n) (hasRest : Bool) :
    Alike signatureUnplaced (Parser.signature hasRest (n + 1)) (Parser.signature hasRest (n + 1)) := by
  rw [Parser.signature]
  refine .after .here fun start start' ↦ .follow .advance fun next ↦ ?_
  split
  · exact .fail
  · exact .pure rfl
  · exact h.signature hasRest
  · split
    · split
      · exact .failAt
      · refine .bind (h.signature true) fun x x' hx ↦ .pure ?_
        obtain ⟨hparams, hothers⟩ := Prod.mk.inj hx
        exact Prod.ext (congrArg (List.cons _) hparams) hothers
    · refine .bind (h.signature hasRest) fun x x' hx ↦ .pure ?_
      obtain ⟨hparams, hothers⟩ := Prod.mk.inj hx
      exact Prod.ext (congrArg (List.cons _) hparams) hothers
  · refine .follow .advance fun next ↦ ?_
    split
    · split
      · refine .bind (h.signature hasRest) fun x x' hx ↦ .pure ?_
        obtain ⟨hparams, hothers⟩ := Prod.mk.inj hx
        obtain ⟨hoptions, hrest⟩ := Prod.mk.inj hothers
        exact Prod.ext hparams (Prod.ext hoptions (congrArg (Option.orElse · _) hrest))
      · refine .follow .expect fun _ ↦ .bind h.compound fun default default' hdefault ↦ ?_
        refine .bind (h.signature hasRest) fun x x' hx ↦ .pure ?_
        obtain ⟨hparams, hothers⟩ := Prod.mk.inj hx
        obtain ⟨hoptions, hrest⟩ := Prod.mk.inj hothers
        refine Prod.ext hparams (Prod.ext ?_ hrest)
        dsimp only [signatureUnplaced]
        rw [Compound.defaultsUnplaced, Compound.defaultsUnplaced, hdefault, hoptions]
    · exact .failAt
  · exact .failAt

/-! ### Commands -/

theorem option_step (h : ReadsAlike n) :
    Alike Item.unplaced (Parser.option (n + 1)) (Parser.option (n + 1)) := by
  rw [Parser.option]
  refine .after .here fun start start' ↦ .follow .expect fun _ ↦ ?_
  refine .follow .peek fun next ↦ .follow .touches fun touches ↦ ?_
  split
  · refine .follow .discard fun _ ↦ .bind h.optionValue fun value value' hvalue ↦ ?_
    refine .after .spanFrom fun place place' ↦ .pure ?_
    cases value with
    | none =>
      cases value' with
      | none => rfl
      | some word' => cases hvalue
    | some word =>
      cases value' with
      | none => cases hvalue
      | some word' => rw [Item.unplaced, Item.unplaced, Option.some.inj hvalue]
  · exact .fail

theorem optionValue_step (h : ReadsAlike n) :
    Alike (Option.map Compound.unplaced) (Parser.optionValue (n + 1)) (Parser.optionValue (n + 1)) := by
  rw [Parser.optionValue]
  refine .follow .peek fun next ↦ .follow .touches fun touches ↦ ?_
  split
  · refine .follow .discard fun _ ↦ .follow .wordTouches fun touches ↦ ?_
    split
    · exact .bind h.compound fun value value' hvalue ↦ .pure (congrArg some hvalue)
    · exact .fail
  · exact .pure rfl

theorem redir_step (h : ReadsAlike n) (fd : Nat) (mode : RedirMode) :
    Alike Redir.unplaced (Parser.redir fd mode (n + 1)) (Parser.redir fd mode (n + 1)) := by
  rw [Parser.redir]
  refine .after .here fun start start' ↦ .follow .discard fun _ ↦ ?_
  cases mode with
  | dup other => exact .after .spanFrom fun place place' ↦ .pure rfl
  | write | append =>
    refine .follow .peek fun next ↦ ?_
    split
    · refine .bind h.compound fun target target' htarget ↦ .after .spanFrom fun place place' ↦ .pure ?_
      rw [Redir.unplaced, Redir.unplaced, htarget]
    · exact .fail

theorem formRest_step (h : ReadsAlike n) :
    Alike itemsUnplaced (Parser.formRest (n + 1)) (Parser.formRest (n + 1)) := by
  have hitem {item item' : Item} {x x' : List Item × List Redir} (hitem : item.unplaced = item'.unplaced)
      (hx : itemsUnplaced x = itemsUnplaced x') :
      itemsUnplaced (item :: x.1, x.2) = itemsUnplaced (item' :: x'.1, x'.2) := by
    obtain ⟨hitems, hredirs⟩ := Prod.mk.inj hx
    dsimp only [itemsUnplaced]
    rw [Item.allUnplaced, Item.allUnplaced, hitem, hitems, hredirs]
  rw [Parser.formRest]
  refine .follow .peek fun next ↦ ?_
  split
  iterate 6 exact .pure rfl
  · exact .bind h.option fun first first' hfirst ↦ .bind h.formRest fun x x' hx ↦ .pure (hitem hfirst hx)
  · refine .after .here fun start start' ↦ .follow .discard fun _ ↦ .after .spanFrom fun place place' ↦ ?_
    exact .bind h.formRest fun x x' hx ↦ .pure (hitem rfl hx)
  · refine .bind (h.redir _ _) fun first first' hfirst ↦ .bind h.formRest fun x x' hx ↦ .pure ?_
    obtain ⟨hitems, hredirs⟩ := Prod.mk.inj hx
    dsimp only [itemsUnplaced]
    rw [Redir.allUnplaced, Redir.allUnplaced, hfirst, hitems, hredirs]
  · split
    · refine .bind h.compound fun first first' hfirst ↦ .bind h.formRest fun x x' hx ↦ .pure (hitem ?_ hx)
      rw [Item.unplaced, Item.unplaced, hfirst]
    · exact .fail

theorem form_step (h : ReadsAlike n) : Alike Form.unplaced (Parser.form (n + 1)) (Parser.form (n + 1)) := by
  rw [Parser.form]
  refine .after .here fun start start' ↦ .follow .peek fun next ↦ ?_
  split
  · refine .bind h.compound fun head head' hhead ↦ .bind h.formRest fun x x' hx ↦ ?_
    refine .after .spanFrom fun place place' ↦ .pure ?_
    obtain ⟨hitems, hredirs⟩ := Prod.mk.inj hx
    rw [Form.unplaced, Form.unplaced, hhead, hitems, hredirs]
  · exact .fail

theorem stages_step (h : ReadsAlike n) :
    Alike Form.allUnplaced (Parser.stages (n + 1)) (Parser.stages (n + 1)) := by
  rw [Parser.stages]
  refine .follow .peek fun next ↦ ?_
  split
  · refine .follow .discard fun _ ↦ .follow .skipNewlines fun _ ↦ .bind h.form fun first first' hfirst ↦ ?_
    refine .bind h.stages fun others others' hothers ↦ .pure ?_
    rw [Form.allUnplaced, Form.allUnplaced, hfirst, hothers]
  · exact .pure rfl

theorem pipeline_step (h : ReadsAlike n) :
    Alike Pipeline.unplaced (Parser.pipeline (n + 1)) (Parser.pipeline (n + 1)) := by
  rw [Parser.pipeline]
  refine .after .here fun start start' ↦ .bind h.form fun first first' hfirst ↦ ?_
  refine .bind h.stages fun others others' hothers ↦ .after .spanFrom fun place place' ↦ .pure ?_
  rw [Pipeline.unplaced, Pipeline.unplaced, Form.allUnplaced, Form.allUnplaced, hfirst, hothers]

theorem chunk_step (h : ReadsAlike n) (close : Option Token) :
    Alike Chunk.unplaced (Parser.chunk close (n + 1)) (Parser.chunk close (n + 1)) := by
  rw [Parser.chunk]
  refine .follow .skipSeparators fun _ ↦ .follow .peek fun next ↦ ?_
  split
  · exact .pure rfl
  · exact .fail
  · split
    · exact .pure rfl
    · refine .bind h.pipeline fun first first' hfirst ↦ .follow .endPipeline fun _ ↦ ?_
      refine .bind (h.chunk close) fun others others' hothers ↦ .pure ?_
      obtain ⟨ps⟩ := others
      obtain ⟨ps'⟩ := others'
      rw [Chunk.unplaced, Chunk.unplaced] at hothers
      rw [Chunk.unplaced, Chunk.unplaced, Pipeline.allUnplaced, Pipeline.allUnplaced, hfirst,
        Chunk.mk.inj hothers]

/-! ### All rules -/

theorem zero : ReadsAlike 0 where
  chunk _ := .fail
  pipeline := .fail
  stages := .fail
  form := .fail
  formRest := .fail
  option := .fail
  optionValue := .fail
  redir _ _ := .fail
  compound := .fail
  moreParts := .fail
  indexed := .fail
  indexLists := .fail
  wordsUntil _ := .fail
  primary := .fail
  pairs := .fail
  pair := .fail
  lambda _ _ := .fail
  lambdaBody _ _ _ _ _ _ _ := .fail
  signature _ := .fail

theorem step (h : ReadsAlike n) : ReadsAlike (n + 1) where
  chunk := h.chunk_step
  pipeline := h.pipeline_step
  stages := h.stages_step
  form := h.form_step
  formRest := h.formRest_step
  option := h.option_step
  optionValue := h.optionValue_step
  redir := h.redir_step
  compound := h.compound_step
  moreParts := h.moreParts_step
  indexed := h.indexed_step
  indexLists := h.indexLists_step
  wordsUntil := h.wordsUntil_step
  primary := h.primary_step
  pairs := h.pairs_step
  pair := h.pair_step
  lambda := h.lambda_step
  lambdaBody := h.lambdaBody_step
  signature := h.signature_step

theorem all : ∀ n, ReadsAlike n
  | 0 => zero
  | n + 1 => (all n).step

end ReadsAlike

end Parser

/-! ## Texts -/

/-- As many tokens as marks. -/
theorem Spanned.length_marks (behind : Option Nat) (tokens : List Spanned) :
    (Spanned.marks behind tokens).length = tokens.length := by
  induction tokens generalizing behind with
  | nil => rfl
  | cons t tokens ih => rw [marks, List.length_cons, List.length_cons, ih]

/-- **Layout does not matter beyond adjacency.**  Let two texts have the same tokens, of which the same touch the
one before.  If the one is a script, then so is the other, with the same tree up to spans; and if the one is not, then
neither is the other, for the same fault, which has the same message, wherever it may be. -/
theorem parse_layout {text text' : List Char} {tokens tokens' : List Spanned} (h : tokenize text = .ok tokens)
    (h' : tokenize text' = .ok tokens') (hmarks : Spanned.marks none tokens = Spanned.marks none tokens') :
    (∀ tree, parse text = .ok tree → ∃ tree', parse text' = .ok tree' ∧ tree'.unplaced = tree.unplaced) ∧
    (∀ fault offset, parse text = .error (fault, offset) → ∃ offset', parse text' = .error (fault, offset')) := by
  have hlength : tokens'.length = tokens.length := by
    rw [← Spanned.length_marks none, ← hmarks, Spanned.length_marks]
  have hagree := (Parser.ReadsAlike.all (Parser.steps tokens.length)).chunk none
    ⟨tokens, none, byteLength text⟩ ⟨tokens', none, byteLength text'⟩ hmarks
  rw [parse, h, parse, h']
  dsimp only
  rw [Parser.script, Parser.script, hlength]
  generalize Parser.chunk none (Parser.steps tokens.length) ⟨tokens, none, byteLength text⟩ = r at hagree ⊢
  generalize Parser.chunk none (Parser.steps tokens.length) ⟨tokens', none, byteLength text'⟩ = r' at hagree ⊢
  cases hagree with
  | ok hview _ =>
    refine ⟨?_, nofun⟩
    rintro tree ⟨⟩
    exact ⟨_, rfl, hview.symm⟩
  | error =>
    refine ⟨nofun, ?_⟩
    rintro fault offset ⟨⟩
    exact ⟨_, rfl⟩

/-- The same tokens, once on two lines that are joined, with a comment and other blanks. -/
theorem parse_layout_joined :
    let text := "put ^\n\t$x[ 0] # é".toList
    let text' := "put $x[  0]".toList
    ∃ tokens tokens' tree tree', tokenize text = .ok tokens ∧ tokenize text' = .ok tokens' ∧
      Spanned.marks none tokens = Spanned.marks none tokens' ∧ parse text = .ok tree ∧ parse text' = .ok tree' ∧
      tree'.unplaced = tree.unplaced := by
  intro text text'
  let tokens : List Spanned := [⟨.bareword "put", ⟨0, 3⟩⟩, ⟨.variable "x" false, ⟨7, 9⟩⟩, ⟨.lbracket, ⟨9, 10⟩⟩,
    ⟨.bareword "0", ⟨11, 12⟩⟩, ⟨.rbracket, ⟨12, 13⟩⟩]
  let tokens' : List Spanned := [⟨.bareword "put", ⟨0, 3⟩⟩, ⟨.variable "x" false, ⟨4, 6⟩⟩, ⟨.lbracket, ⟨6, 7⟩⟩,
    ⟨.bareword "0", ⟨9, 10⟩⟩, ⟨.rbracket, ⟨10, 11⟩⟩]
  have h : tokenize text = .ok tokens := by decide +kernel
  have h' : tokenize text' = .ok tokens' := by decide +kernel
  have hmarks : Spanned.marks none tokens = Spanned.marks none tokens' := by decide
  have hparses : (parse text).isOk = true := by decide +kernel
  obtain ⟨tree, htree⟩ : ∃ tree, parse text = .ok tree := by
    cases hparse : parse text with
    | ok tree => exact ⟨tree, rfl⟩
    | error fault => rw [hparse] at hparses; cases hparses
  obtain ⟨tree', htree', hview⟩ := (parse_layout h h' hmarks).1 tree htree
  exact ⟨tokens, tokens', tree, tree', h, h', hmarks, htree, htree', hview⟩

end ValueShell
