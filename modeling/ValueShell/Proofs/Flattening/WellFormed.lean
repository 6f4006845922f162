import ValueShell.Proofs.Flattening.Trees

/-!
# What the parser gives is well formed

`Parser.Gives m P` says that `P` holds of all that the parser can give, whatever it reads.  Most of what makes a
tree well formed is seen from the definition of the rule that makes it.  Only for the further parts of a word it
matters which token is next: `Parser.primary_continues` is about that one.

As for reading, `Parser.GivesTrees n` speaks of all rules at once, and there is one lemma for each rule.
-/

set_option autoImplicit false

namespace ValueShell

namespace Parser

section Gives

variable {α β : Type} {m : Parser α} {f : α → Parser β} {P P' : α → Prop} {Q : β → Prop}

/-- `P` holds of all that the parser gives. -/
def Gives (m : Parser α) (P : α → Prop) : Prop :=
  ∀ c a c', m c = .ok (a, c') → P a

/-- The first of two parsers in a row has gone well if both have. -/
theorem bind_ok {c c₂ : Cursor} {b : β} (h : (m >>= f) c = .ok (b, c₂)) :
    ∃ a c₁, m c = .ok (a, c₁) ∧ f a c₁ = .ok (b, c₂) := by
  change (m c >>= fun x ↦ f x.1 x.2) = .ok (b, c₂) at h
  cases hm : m c with
  | error fault => rw [hm] at h; cases h
  | ok x =>
    rw [hm] at h
    exact ⟨x.1, x.2, rfl, h⟩

namespace Gives

theorem any : Gives m fun _ ↦ True :=
  fun _ _ _ _ ↦ trivial

theorem pure {a : α} (h : P a) : Gives (Pure.pure a) P := by
  intro c a' c' hm
  cases hm
  exact h

theorem bind (h : Gives m P) (hf : ∀ a, P a → Gives (f a) Q) : Gives (m >>= f) Q := by
  intro c b c' hm
  obtain ⟨a, c₁, hma, hfa⟩ := bind_ok hm
  exact hf a (h c a c₁ hma) c₁ b c' hfa

/-- What comes first does not matter. -/
theorem after (hf : ∀ a, Gives (f a) Q) : Gives (m >>= f) Q :=
  Gives.any.bind fun a _ ↦ hf a

theorem fail {fault : SyntaxFault} : Gives (Parser.fail fault) P := by
  intro c a c' hm
  cases hm

theorem failAt {offset : Nat} {fault : SyntaxFault} : Gives (Parser.failAt offset fault) P := by
  intro c a c' hm
  cases hm

end Gives

end Gives

/-- With `n` steps, every rule gives well-formed trees. -/
structure GivesTrees (n : Nat) : Prop where
  chunk : ∀ close, Gives (chunk close n) Chunk.WellFormed
  pipeline : Gives (pipeline n) Pipeline.WellFormed
  stages : Gives (stages n) Form.AllWellFormed
  form : Gives (form n) Form.WellFormed
  formRest : Gives (formRest n) fun x ↦ Item.AllWellFormed x.1 ∧ Redir.AllWellFormed x.2
  option : Gives (option n) Item.WellFormed
  optionValue : Gives (optionValue n) fun value ↦ ∀ word ∈ value, word.WellFormed
  redir : ∀ fd mode, Gives (redir fd mode n) Redir.WellFormed
  compound : Gives (compound n) Compound.WellFormed
  moreParts : Gives (moreParts n) Indexed.AllContinue
  indexed : Gives (indexed n) Indexed.WellFormed
  indexLists : Gives (indexLists n) Indexed.IndicesWellFormed
  wordsUntil : ∀ close, Gives (wordsUntil close n) Compound.AllWellFormed
  primary : Gives (primary n) Primary.WellFormed
  pairs : Gives (pairs n) Compound.PairsWellFormed
  pair : Gives (pair n) fun x ↦ x.1.WellFormed ∧ x.2.WellFormed
  lambda : ∀ start, Gives (lambda start n) Primary.WellFormed
  lambdaBody : ∀ start params options restOptions,
    (∀ span body, body.WellFormed → (⟨span, params, options, restOptions, body⟩ : Lambda).WellFormed) →
    Gives (lambdaBody start params options restOptions n) Primary.WellFormed
  signature : ∀ hasRest, Gives (signature hasRest n) fun x ↦
    x.1.countP (·.isRest) + hasRest.toNat ≤ 1 ∧
      (∀ p ∈ x.1, p.isRest = false → Name.startsAt p.name = false) ∧ Compound.DefaultsWellFormed x.2.1

namespace GivesTrees

variable {n : Nat}

/-! ### Words -/

/-- A primary can carry on a word if its first token can. -/
theorem primary_continues {p : Primary} {c c' : Cursor} (h : Parser.primary n c = .ok (p, c'))
    (hc : c.next?.any Token.continuesWord = true) : p.continues = true := by
  cases n with
  | zero => rw [Parser.primary] at h; cases h
  | succ n =>
    rw [Parser.primary] at h
    obtain ⟨start, c₁, hhere, h⟩ := bind_ok h
    cases hhere
    obtain ⟨next, c₁, hnext, h⟩ := bind_ok h
    cases hnext
    cases hnext : c.next? with
    | none => rw [hnext] at hc; cases hc
    | some token =>
      rw [hnext] at hc h
      cases token with
      | bareword text | quoted text => cases h; rfl
      | «variable» name explode =>
        dsimp only at h
        split at h
        · cases h
        · cases h; rfl
      | lparen =>
        obtain ⟨inside, c₂, -, h⟩ := bind_ok h
        obtain ⟨u, c₃, -, h⟩ := bind_ok h
        cases h
        rfl
      | _ => cases hc

theorem compound_step (h : GivesTrees n) : Gives (Parser.compound (n + 1)) Compound.WellFormed := by
  rw [Parser.compound]
  refine .after fun start ↦ .bind h.indexed fun first hfirst ↦ .bind h.moreParts fun others hothers ↦ ?_
  refine .after fun place ↦ .pure ?_
  rw [Compound.WellFormed]
  exact ⟨hfirst, hothers⟩

theorem indexed_continues {part : Indexed} {c c' : Cursor} (h : Parser.indexed n c = .ok (part, c'))
    (hc : c.next?.any Token.continuesWord = true) : part.head.continues = true := by
  cases n with
  | zero => rw [Parser.indexed] at h; cases h
  | succ n =>
    rw [Parser.indexed] at h
    obtain ⟨start, c₁, hhere, h⟩ := bind_ok h
    cases hhere
    obtain ⟨head, c₂, hhead, h⟩ := bind_ok h
    obtain ⟨indices, c₃, -, h⟩ := bind_ok h
    cases h
    exact primary_continues hhead hc

theorem moreParts_step (h : GivesTrees n) : Gives (Parser.moreParts (n + 1)) Indexed.AllContinue := by
  intro c parts c' hm
  rw [Parser.moreParts] at hm
  obtain ⟨continues, c₁, hcontinues, hm⟩ := bind_ok hm
  cases hcontinues
  split at hm
  · next hcontinues =>
    rw [Bool.and_eq_true] at hcontinues
    obtain ⟨first, c₂, hfirst, hm⟩ := bind_ok hm
    obtain ⟨others, c₃, hothers, hm⟩ := bind_ok hm
    cases hm
    rw [Indexed.AllContinue]
    exact ⟨indexed_continues hfirst hcontinues.2, h.indexed _ _ _ hfirst, h.moreParts _ _ _ hothers⟩
  · cases hm
    rw [Indexed.AllContinue]
    trivial

theorem indexed_step (h : GivesTrees n) : Gives (Parser.indexed (n + 1)) Indexed.WellFormed := by
  rw [Parser.indexed]
  refine .after fun start ↦ .bind h.primary fun head hhead ↦ .bind h.indexLists fun indices hindices ↦ ?_
  refine .after fun place ↦ .pure ?_
  rw [Indexed.WellFormed]
  exact ⟨hhead, hindices⟩

theorem indexLists_step (h : GivesTrees n) :
    Gives (Parser.indexLists (n + 1)) Indexed.IndicesWellFormed := by
  rw [Parser.indexLists]
  refine .after fun next ↦ .after fun touches ↦ ?_
  split
  · refine .after fun _ ↦ .bind (h.wordsUntil _) fun first hfirst ↦ ?_
    refine .bind h.indexLists fun others hothers ↦ .pure ?_
    rw [Indexed.IndicesWellFormed]
    exact ⟨hfirst, hothers⟩
  · exact .pure trivial

theorem wordsUntil_step (h : GivesTrees n) (close : Token) :
    Gives (Parser.wordsUntil close (n + 1)) Compound.AllWellFormed := by
  rw [Parser.wordsUntil]
  refine .after fun _ ↦ .after fun next ↦ ?_
  split
  · exact .after fun _ ↦ .pure trivial
  · split
    · refine .bind h.compound fun first hfirst ↦ .bind (h.wordsUntil close) fun others hothers ↦ .pure ?_
      rw [Compound.AllWellFormed]
      exact ⟨hfirst, hothers⟩
    · exact .fail

theorem primary_step (h : GivesTrees n) : Gives (Parser.primary (n + 1)) Primary.WellFormed := by
  rw [Parser.primary]
  refine .after fun start ↦ .after fun next ↦ ?_
  split
  · exact .fail
  · exact .pure trivial
  · exact .pure trivial
  · next name explode =>
    split
    · exact .failAt
    · next hname =>
      refine .pure ?_
      rw [Primary.WellFormed]
      exact Bool.eq_false_iff.2 hname
  · refine .bind (h.chunk _) fun inside hinside ↦ .after fun _ ↦ .pure ?_
    rw [Primary.WellFormed]
    exact hinside
  · refine .after fun _ ↦ .after fun next ↦ ?_
    split
    · refine .bind h.pairs fun ps hps ↦ .pure ?_
      rw [Primary.WellFormed]
      exact hps
    · refine .bind (h.wordsUntil _) fun ws hws ↦ .pure ?_
      rw [Primary.WellFormed]
      exact hws
  · exact h.lambda start
  · exact .failAt

theorem pairs_step (h : GivesTrees n) : Gives (Parser.pairs (n + 1)) Compound.PairsWellFormed := by
  rw [Parser.pairs]
  refine .after fun _ ↦ .after fun next ↦ ?_
  split
  · exact .after fun _ ↦ .pure trivial
  · refine .after fun _ ↦ .after fun next ↦ ?_
    split
    · exact h.pairs
    · refine .bind h.pair fun first hfirst ↦ .bind h.pairs fun others hothers ↦ .pure ?_
      rw [Compound.PairsWellFormed]
      exact ⟨hfirst.1, hfirst.2, hothers⟩

theorem pair_step (h : GivesTrees n) :
    Gives (Parser.pair (n + 1)) fun x ↦ x.1.WellFormed ∧ x.2.WellFormed := by
  rw [Parser.pair]
  refine .after fun touches ↦ ?_
  split
  · refine .bind h.compound fun key hkey ↦ .after fun next ↦ .after fun touches ↦ ?_
    split
    · refine .after fun _ ↦ .after fun touches ↦ ?_
      split
      · exact .bind h.compound fun value hvalue ↦ .pure ⟨hkey, hvalue⟩
      · exact .fail
    · exact .fail
  · exact .fail

/-! ### Lambdas -/

theorem lambda_step (h : GivesTrees n) (start : Nat) :
    Gives (Parser.lambda start (n + 1)) Primary.WellFormed := by
  rw [Parser.lambda]
  refine .after fun next ↦ .after fun touches ↦ ?_
  split
  · refine .after fun _ ↦ .bind (h.signature false) fun x hx ↦ ?_
    refine h.lambdaBody start x.1 x.2.1 x.2.2 fun span body hbody ↦ ?_
    rw [Lambda.WellFormed]
    exact ⟨hx.1, hx.2.1, hx.2.2, hbody⟩
  · refine h.lambdaBody start [] [] none fun span body hbody ↦ ?_
    rw [Lambda.WellFormed]
    exact ⟨Nat.zero_le _, by simp, trivial, hbody⟩

theorem lambdaBody_step (h : GivesTrees n) (start : Nat) (params : List Param)
    (options : List (String × Compound)) (restOptions : Option String)
    (hsignature : ∀ span body, body.WellFormed →
      (⟨span, params, options, restOptions, body⟩ : Lambda).WellFormed) :
    Gives (Parser.lambdaBody start params options restOptions (n + 1)) Primary.WellFormed := by
  rw [Parser.lambdaBody]
  refine .bind (h.chunk _) fun body hbody ↦ .after fun _ ↦ .after fun place ↦ .pure ?_
  rw [Primary.WellFormed]
  exact hsignature place body hbody

theorem signature_step (h : GivesTrees n) (hasRest : Bool) :
    Gives (Parser.signature hasRest (n + 1)) fun x ↦
      x.1.countP (·.isRest) + hasRest.toNat ≤ 1 ∧
        (∀ p ∈ x.1, p.isRest = false → Name.startsAt p.name = false) ∧
          Compound.DefaultsWellFormed x.2.1 := by
  have hempty : ([] : List Param).countP (·.isRest) + hasRest.toNat ≤ 1 := by
    cases hasRest <;> decide
  rw [Parser.signature]
  refine .after fun start ↦ .after fun next ↦ ?_
  split
  · exact .fail
  · exact .pure ⟨hempty, by simp, trivial⟩
  · exact h.signature hasRest
  · next word =>
    split
    · next name hlist =>
      split
      · exact .failAt
      · next hfirst =>
        refine .bind (h.signature true) fun x hx ↦ .pure ⟨?_, ?_, hx.2.2⟩
        · rw [List.countP_cons_of_pos (by rfl), Bool.eq_false_iff.2 hfirst]
          exact hx.1
        · intro p hp hrest
          rcases List.mem_cons.1 hp with rfl | hp
          · cases hrest
          · exact hx.2.1 p hp hrest
    · next hlist =>
      refine .bind (h.signature hasRest) fun x hx ↦ .pure ⟨?_, ?_, hx.2.2⟩
      · rw [List.countP_cons_of_neg (by simp)]
        exact hx.1
      · intro p hp hrest
        rcases List.mem_cons.1 hp with rfl | hp
        · exact Name.startsAt_eq_false.2 hlist
        · exact hx.2.1 p hp hrest
  · refine .after fun next ↦ ?_
    split
    · next word =>
      split
      · exact .bind (h.signature hasRest) fun x hx ↦ .pure hx
      · next hlist =>
        refine .after fun _ ↦ .bind h.compound fun default hdefault ↦ ?_
        refine .bind (h.signature hasRest) fun x hx ↦ .pure ⟨hx.1, hx.2.1, ?_⟩
        rw [Compound.DefaultsWellFormed]
        exact ⟨Name.startsAt_eq_false.2 hlist, hdefault, hx.2.2⟩
    · exact .failAt
  · exact .failAt

/-! ### Commands -/

theorem option_step (h : GivesTrees n) : Gives (Parser.option (n + 1)) Item.WellFormed := by
  rw [Parser.option]
  refine .after fun start ↦ .after fun _ ↦ .after fun next ↦ .after fun touches ↦ ?_
  split
  · refine .after fun _ ↦ .bind h.optionValue fun value hvalue ↦ .after fun place ↦ .pure ?_
    cases value with
    | none => trivial
    | some word =>
      rw [Item.WellFormed]
      exact hvalue word rfl
  · exact .fail

theorem optionValue_step (h : GivesTrees n) :
    Gives (Parser.optionValue (n + 1)) fun value ↦ ∀ word ∈ value, word.WellFormed := by
  rw [Parser.optionValue]
  refine .after fun next ↦ .after fun touches ↦ ?_
  split
  · refine .after fun _ ↦ .after fun touches ↦ ?_
    split
    · refine .bind h.compound fun value hvalue ↦ .pure ?_
      rintro word ⟨⟩
      exact hvalue
    · exact .fail
  · refine .pure ?_
    rintro word ⟨⟩

theorem redir_step (h : GivesTrees n) (fd : Nat) (mode : RedirMode) :
    Gives (Parser.redir fd mode (n + 1)) Redir.WellFormed := by
  rw [Parser.redir]
  refine .after fun start ↦ .after fun _ ↦ ?_
  cases mode with
  | dup other => exact .after fun place ↦ .pure rfl
  | write | append =>
    refine .after fun next ↦ ?_
    split
    · refine .bind h.compound fun target htarget ↦ .after fun place ↦ .pure ?_
      simpa [Redir.WellFormed] using htarget
    · exact .fail

theorem formRest_step (h : GivesTrees n) :
    Gives (Parser.formRest (n + 1)) fun x ↦ Item.AllWellFormed x.1 ∧ Redir.AllWellFormed x.2 := by
  have hitem : ∀ item, item.WellFormed → ∀ x : List Item × List Redir,
      Item.AllWellFormed x.1 ∧ Redir.AllWellFormed x.2 →
      Item.AllWellFormed (item :: x.1) ∧ Redir.AllWellFormed x.2 := by
    intro item hitem x hx
    rw [Item.AllWellFormed]
    exact ⟨⟨hitem, hx.1⟩, hx.2⟩
  rw [Parser.formRest]
  refine .after fun next ↦ ?_
  split
  iterate 6 exact .pure ⟨trivial, trivial⟩
  · exact .bind h.option fun first hfirst ↦ .bind h.formRest fun x hx ↦ .pure (hitem first hfirst x hx)
  · refine .after fun start ↦ .after fun _ ↦ .after fun place ↦ ?_
    exact .bind h.formRest fun x hx ↦ .pure (hitem (.eq place) trivial x hx)
  · refine .bind (h.redir _ _) fun first hfirst ↦ .bind h.formRest fun x hx ↦ .pure ⟨hx.1, ?_⟩
    rw [Redir.AllWellFormed]
    exact ⟨hfirst, hx.2⟩
  · split
    · refine .bind h.compound fun first hfirst ↦ .bind h.formRest fun x hx ↦ .pure (hitem (.arg first) ?_ x hx)
      rw [Item.WellFormed]
      exact hfirst
    · exact .fail

theorem form_step (h : GivesTrees n) : Gives (Parser.form (n + 1)) Form.WellFormed := by
  rw [Parser.form]
  refine .after fun start ↦ .after fun next ↦ ?_
  split
  · refine .bind h.compound fun head hhead ↦ .bind h.formRest fun x hx ↦ .after fun place ↦ .pure ?_
    rw [Form.WellFormed]
    exact ⟨hhead, hx⟩
  · exact .fail

theorem stages_step (h : GivesTrees n) : Gives (Parser.stages (n + 1)) Form.AllWellFormed := by
  rw [Parser.stages]
  refine .after fun next ↦ ?_
  split
  · refine .after fun _ ↦ .after fun _ ↦ .bind h.form fun first hfirst ↦ ?_
    refine .bind h.stages fun others hothers ↦ .pure ?_
    rw [Form.AllWellFormed]
    exact ⟨hfirst, hothers⟩
  · exact .pure trivial

theorem pipeline_step (h : GivesTrees n) : Gives (Parser.pipeline (n + 1)) Pipeline.WellFormed := by
  rw [Parser.pipeline]
  refine .after fun start ↦ .bind h.form fun first hfirst ↦ .bind h.stages fun others hothers ↦ ?_
  refine .after fun place ↦ .pure ?_
  rw [Pipeline.WellFormed, Form.AllWellFormed]
  exact ⟨List.cons_ne_nil first others, hfirst, hothers⟩

theorem chunk_step (h : GivesTrees n) (close : Option Token) :
    Gives (Parser.chunk close (n + 1)) Chunk.WellFormed := by
  rw [Parser.chunk]
  refine .after fun _ ↦ .after fun next ↦ ?_
  split
  · exact .pure trivial
  · exact .fail
  · split
    · exact .pure trivial
    · refine .bind h.pipeline fun first hfirst ↦ .after fun _ ↦ .bind (h.chunk close) fun others hothers ↦ .pure ?_
      obtain ⟨others⟩ := others
      rw [Chunk.WellFormed] at hothers
      rw [Chunk.WellFormed, Pipeline.AllWellFormed]
      exact ⟨hfirst, hothers⟩

/-- Without a step no rule gives anything. -/
theorem zero : GivesTrees 0 where
  chunk _ := .fail
  pipeline := .fail
  stages := .fail
  form := .fail
  formRest := .fail
  option := .fail
  optionValue := .fail
  redir _ _ := .fail
  compound := .fail
  moreParts := .fail
  indexed := .fail
  indexLists := .fail
  wordsUntil _ := .fail
  primary := .fail
  pairs := .fail
  pair := .fail
  lambda _ := .fail
  lambdaBody _ _ _ _ _ := .fail
  signature _ := .fail

theorem step (h : GivesTrees n) : GivesTrees (n + 1) where
  chunk := h.chunk_step
  pipeline := h.pipeline_step
  stages := h.stages_step
  form := h.form_step
  formRest := h.formRest_step
  option := h.option_step
  optionValue := h.optionValue_step
  redir := h.redir_step
  compound := h.compound_step
  moreParts := h.moreParts_step
  indexed := h.indexed_step
  indexLists := h.indexLists_step
  wordsUntil := h.wordsUntil_step
  primary := h.primary_step
  pairs := h.pairs_step
  pair := h.pair_step
  lambda := h.lambda_step
  lambdaBody := h.lambdaBody_step
  signature := h.signature_step

theorem all : ∀ n, GivesTrees n
  | 0 => zero
  | n + 1 => (all n).step

end GivesTrees

/-- Whatever tokens it is given, the parser makes a well-formed chunk of them or none. -/
theorem script_wellFormed {tokens : List Spanned} {finish : Nat} {c : Chunk}
    (h : script tokens finish = .ok c) : c.WellFormed := by
  rw [script] at h
  split at h
  · next tree cursor hread =>
    obtain rfl : tree = c := Except.ok.inj h
    exact (GivesTrees.all _).chunk none _ tree cursor hread
  · cases h

end Parser

/-- The tree of a text is well formed. -/
theorem parse_wellFormed {text : List Char} {c : Chunk} (h : parse text = .ok c) : c.WellFormed := by
  rw [parse] at h
  split at h
  · cases h
  · exact Parser.script_wellFormed h

end ValueShell
