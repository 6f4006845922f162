import ValueShell.Proofs.Dialect
import ValueShell.Proofs.StoreEffects

/-!
# Operations are in the dialect of their text

Lowering brings in no construct that the text does not have.  `Lowering.Yields m P` says that `P` holds of all
that a step of lowering gives; what is declared meanwhile does not matter here.  There is one lemma for each
function of the walk, and `compile_isIn` is what they are for.
-/

set_option autoImplicit false

namespace ValueShell

namespace Lowering

variable {α β : Type} {d : Dialect} {env : Enclosing}

/-- `P` holds of all that the step gives. -/
def Yields (m : Lower α) (P : α → Prop) : Prop :=
  ∀ D x D', m D = .ok (x, D') → P x

namespace Yields

variable {m : Lower α} {f : α → Lower β} {P : α → Prop} {Q : β → Prop}

theorem any : Yields m fun _ ↦ True :=
  fun _ _ _ _ ↦ trivial

theorem pure {x : α} (h : P x) : Yields (Pure.pure x : Lower α) P := by
  rintro D _ _ ⟨⟩
  exact h

theorem fail {span : Span} {fault : CompileFault} : Yields (Lowering.fail span fault) P := by
  rintro D _ _ ⟨⟩

theorem bind (h : Yields m P) (hf : ∀ x, P x → Yields (f x) Q) : Yields (m >>= f) Q := by
  intro D y D' hy
  obtain ⟨⟨x, D₁⟩, hx, hy⟩ := bind_eq_ok hy
  exact hf x (h D x D₁ hx) D₁ y D' hy

/-- What comes first does not matter. -/
theorem after (hf : ∀ x, Yields (f x) Q) : Yields (m >>= f) Q :=
  any.bind fun x _ ↦ hf x

end Yields

/-! ## Pieces -/

theorem isIn_joinParts {es : List Expr} (h : Expr.allIn d es = true) : (joinParts es).isIn d = true := by
  unfold joinParts
  split
  · simpa using h
  · simpa using h

theorem useForm_isIn {span : Span} {items : List Item} :
    Yields (useForm env span items) (Op.isIn d · = true) := by
  unfold useForm
  split
  · rename_i word items
    refine .after fun given ↦ ?_
    cases word.literal? with
    | none => exact .fail
    | some spec => exact .after fun name ↦ .after fun _ ↦ .pure (by simp)
  · exact .fail

theorem varForm_isIn {span : Span} {items : List Item} {values : Lower (List Expr)}
    (h : Yields values (Expr.allIn d · = true)) :
    Yields (varForm env span items values) (Op.isIn d · = true) := by
  unfold varForm
  generalize splitEq items = parts
  obtain ⟨left, right⟩ := parts
  refine .after fun _ ↦ ?_
  split
  · exact .fail
  · refine .after fun targets ↦ .after fun _ ↦ .after fun _ ↦ .bind h fun values hvalues ↦ ?_
    refine .after fun _ ↦ .pure ?_
    cases right with
    | none => simp
    | some right => simpa using hvalues

theorem setForm_isIn {span : Span} {items : List Item} {values : Lower (List Expr)}
    {places : Lower (List Place)} (hvalues : Yields values (Expr.allIn d · = true))
    (hplaces : Yields places (Place.allIn d · = true)) :
    Yields (setForm env span items values places) (Op.isIn d · = true) := by
  unfold setForm
  generalize splitEq items = parts
  obtain ⟨left, right⟩ := parts
  cases right with
  | none => exact .fail
  | some right =>
    refine .after fun _ ↦ ?_
    split
    · exact .fail
    · refine .after fun _ ↦ .bind hvalues fun vs hvs ↦ .after fun targets ↦ ?_
      refine .bind hplaces fun ps hps ↦ .pure ?_
      simp [hps, hvs]

theorem delForm_isIn {span : Span} {items : List Item} {removals : Lower (List Op)}
    (h : Yields removals (Op.allIn d · = true)) :
    Yields (delForm span items removals) (Op.isIn d · = true) := by
  refine .after fun x ↦ ?_
  dsimp only
  split
  · exact .fail
  · refine .bind h fun ops hops ↦ .pure ?_
    simpa using hops

/-! ## The walk -/

mutual

theorem chunk_isIn (env : Enclosing) : ∀ c : Chunk, c.isIn d = true →
    Yields (chunk env c) (Op.isIn d · = true)
  | ⟨pipelines⟩, h => by
    rw [Chunk.isIn] at h
    rw [chunk]
    refine .bind (pipelineList_isIn env pipelines h) fun ops hops ↦ .pure ?_
    simpa using hops

theorem pipelineList_isIn (env : Enclosing) : ∀ ps : List Pipeline, Pipeline.allIn d ps = true →
    Yields (pipelineList env ps) (Op.allIn d · = true)
  | [], _ => by
    rw [pipelineList]
    exact .pure (by simp)
  | p :: ps, h => by
    rw [Pipeline.allIn, Bool.and_eq_true] at h
    rw [pipelineList]
    refine .bind (pipeline_isIn env p h.1) fun op hop ↦ ?_
    refine .bind (pipelineList_isIn env ps h.2) fun ops hops ↦ .pure ?_
    simp [hop, hops]

theorem pipeline_isIn (env : Enclosing) : ∀ p : Pipeline, p.isIn d = true →
    Yields (pipeline env p) (Op.isIn d · = true)
  | ⟨_, [f]⟩, h => by
    simp only [Pipeline.isIn, Form.allIn, Bool.and_eq_true] at h
    rw [pipeline]
    exact form_isIn env f h.2.1
  | ⟨span, []⟩, h => by
    have hd : d.pipelines = true := by simpa using h
    simp only [pipeline]
    refine .bind (formList_isIn env [] (by simp)) fun ops hops ↦ .pure ?_
    simp [hd, hops]
  | ⟨span, f :: g :: fs⟩, h => by
    obtain ⟨hd, hforms⟩ : d.pipelines = true ∧ Form.allIn d (f :: g :: fs) = true := by
      simpa using h
    simp only [pipeline]
    refine .bind (formList_isIn env (f :: g :: fs) hforms) fun ops hops ↦ .pure ?_
    simp [hd, hops]

theorem formList_isIn (env : Enclosing) : ∀ fs : List Form, Form.allIn d fs = true →
    Yields (formList env fs) (Op.allIn d · = true)
  | [], _ => by
    rw [formList]
    exact .pure (by simp)
  | f :: fs, h => by
    rw [Form.allIn, Bool.and_eq_true] at h
    rw [formList]
    refine .bind (form_isIn env f h.1) fun op hop ↦ ?_
    refine .bind (formList_isIn env fs h.2) fun ops hops ↦ .pure ?_
    simp [hop, hops]

theorem form_isIn (env : Enclosing) : ∀ f : Form, f.isIn d = true →
    Yields (form env f) (Op.isIn d · = true)
  | ⟨span, head, items, redirs⟩, h => by
    simp only [Form.isIn, Bool.and_eq_true] at h
    obtain ⟨⟨⟨hwhile, hhead⟩, hitems⟩, hredirs⟩ := h
    have hloops : head.bareword?.filter Name.isSpecial = some "while" → d.loops = true := by
      intro hname
      simpa [(Option.filter_eq_some_iff.1 hname).1] using hwhile
    unfold form
    generalize head.bareword?.filter Name.isSpecial = special at hloops
    split
    · exact .fail
    · exact varForm_isIn (wordsBehindEq_isIn env items hitems)
    · exact setForm_isIn (wordsBehindEq_isIn env items hitems) (places_isIn env items hitems)
    · refine .after fun _ ↦ ?_
      split
      · exact delForm_isIn (deletions_isIn env items hitems)
      · exact fnForm_isIn env span items hitems
      · exact useForm_isIn
      · refine .bind (branchList_isIn env span items hitems) fun x hx ↦ .pure ?_
        simp [hx]
      · exact whileForm_isIn env span items (hloops rfl) hitems
      · exact forForm_isIn env span items hitems
      · exact tryForm_isIn env span items hitems
      · refine .bind (words_isIn env items hitems) fun args hargs ↦ .pure ?_
        simp [hargs]
      · refine .bind (words_isIn env items hitems) fun args hargs ↦ .pure ?_
        simp [hargs]
    · refine .bind (commandHead_isIn env head hhead) fun h hh ↦ ?_
      refine .bind (arguments_isIn env items hitems) fun x hx ↦ ?_
      refine .bind (redirects_isIn env redirs hredirs) fun rs hrs ↦ .pure ?_
      simp [hh, hx, hrs]

theorem commandHead_isIn (env : Enclosing) : ∀ w : Compound, w.isIn d = true →
    Yields (commandHead env w) (Head.isIn d · = true)
  | ⟨span, parts⟩, h => by
    rw [Compound.isIn] at h
    rw [commandHead]
    generalize Compound.literal? ⟨span, parts⟩ = literal
    cases literal with
    | none =>
      refine .bind (indexedList_isIn env parts h) fun es hes ↦ .pure ?_
      rw [Head.isIn]
      exact isIn_joinParts hes
    | some name =>
      refine .after fun command ↦ ?_
      split
      · exact .pure (by simp)
      · exact .pure (by simp)
      · exact .fail

theorem arguments_isIn (env : Enclosing) : ∀ items : List Item, Item.allIn d items = true →
    Yields (arguments env items) fun x ↦ Expr.allIn d x.1 = true ∧ Expr.optionsIn d x.2 = true
  | [], _ => by
    rw [arguments]
    exact .pure ⟨by simp, by simp⟩
  | .arg word :: items, h => by
    simp only [Item.allIn, Item.isIn, Bool.and_eq_true] at h
    rw [arguments]
    refine .bind (compound_isIn env word h.1) fun e he ↦ ?_
    refine .bind (arguments_isIn env items h.2) fun x hx ↦ .pure ?_
    simp [he, hx]
  | .opt _ name none :: items, h => by
    simp only [Item.allIn, Item.isIn, Bool.and_eq_true] at h
    rw [arguments]
    refine .bind (arguments_isIn env items h.2) fun x hx ↦ .pure ?_
    simp [hx]
  | .opt _ name (some word) :: items, h => by
    simp only [Item.allIn, Item.isIn, Bool.and_eq_true] at h
    rw [arguments]
    refine .bind (compound_isIn env word h.1) fun e he ↦ ?_
    refine .bind (arguments_isIn env items h.2) fun x hx ↦ .pure ?_
    simp [he, hx]
  | .eq _ :: items, h => by
    simp only [Item.allIn, Item.isIn, Bool.and_eq_true] at h
    rw [arguments]
    refine .bind (arguments_isIn env items h.2) fun x hx ↦ .pure ?_
    simp [hx]

theorem redirects_isIn (env : Enclosing) : ∀ redirs : List Redir, Redir.allIn d redirs = true →
    Yields (redirects env redirs) (Redirect.allIn d · = true)
  | [], _ => by
    rw [redirects]
    exact .pure (by simp)
  | ⟨_, fd, .dup source, _⟩ :: redirs, h => by
    rw [Redir.allIn, Bool.and_eq_true] at h
    rw [redirects]
    refine .bind (redirects_isIn env redirs h.2) fun rs hrs ↦ .pure ?_
    simpa using hrs
  | ⟨span, _, .write, none⟩ :: _, _ => by
    rw [redirects]
    · exact .fail
    · rintro _ ⟨⟩
  | ⟨span, _, .append, none⟩ :: _, _ => by
    rw [redirects]
    · exact .fail
    · rintro _ ⟨⟩
  | ⟨_, fd, .write, some word⟩ :: redirs, h => by
    simp only [Redir.allIn, Redir.isIn, Bool.and_eq_true] at h
    rw [redirects]
    · refine .bind (compound_isIn env word h.1) fun path hpath ↦ ?_
      refine .bind (redirects_isIn env redirs h.2) fun rs hrs ↦ .pure ?_
      simp [hpath, hrs]
    · rintro _ ⟨⟩
  | ⟨_, fd, .append, some word⟩ :: redirs, h => by
    simp only [Redir.allIn, Redir.isIn, Bool.and_eq_true] at h
    rw [redirects]
    · refine .bind (compound_isIn env word h.1) fun path hpath ↦ ?_
      refine .bind (redirects_isIn env redirs h.2) fun rs hrs ↦ .pure ?_
      simp [hpath, hrs]
    · rintro _ ⟨⟩

theorem compound_isIn (env : Enclosing) : ∀ w : Compound, w.isIn d = true →
    Yields (compound env w) (Expr.isIn d · = true)
  | ⟨_, parts⟩, h => by
    rw [Compound.isIn] at h
    rw [compound]
    exact .bind (indexedList_isIn env parts h) fun es hes ↦ .pure (isIn_joinParts hes)

theorem indexedList_isIn (env : Enclosing) : ∀ parts : List Indexed, Indexed.allIn d parts = true →
    Yields (indexedList env parts) (Expr.allIn d · = true)
  | [], _ => by
    rw [indexedList]
    exact .pure (by simp)
  | part :: parts, h => by
    rw [Indexed.allIn, Bool.and_eq_true] at h
    rw [indexedList]
    refine .bind (indexed_isIn env part h.1) fun e he ↦ ?_
    refine .bind (indexedList_isIn env parts h.2) fun es hes ↦ .pure ?_
    simp [he, hes]

theorem indexed_isIn (env : Enclosing) : ∀ part : Indexed, part.isIn d = true →
    Yields (indexed env part) (Expr.isIn d · = true)
  | ⟨span, head, []⟩, h => by
    rw [Indexed.isIn, Bool.and_eq_true] at h
    rw [indexed]
    exact primary_isIn env span head h.1
  | ⟨span, head, index :: indices⟩, h => by
    rw [Indexed.isIn, Bool.and_eq_true] at h
    simp only [indexed]
    refine .bind (primary_isIn env span head h.1) fun e he ↦ ?_
    refine .bind (wordLists_isIn env (index :: indices) h.2) fun is his ↦ .pure ?_
    simp [he, his]

theorem wordLists_isIn (env : Enclosing) :
    ∀ indices : List (List Compound), Compound.listsIn d indices = true →
      Yields (wordLists env indices) (Expr.listsIn d · = true)
  | [], _ => by
    rw [wordLists]
    exact .pure (by simp)
  | ws :: rest, h => by
    rw [Compound.listsIn, Bool.and_eq_true] at h
    rw [wordLists]
    refine .bind (compoundList_isIn env ws h.1) fun es hes ↦ ?_
    refine .bind (wordLists_isIn env rest h.2) fun is his ↦ .pure ?_
    simp [hes, his]

theorem compoundList_isIn (env : Enclosing) : ∀ ws : List Compound, Compound.allIn d ws = true →
    Yields (compoundList env ws) (Expr.allIn d · = true)
  | [], _ => by
    rw [compoundList]
    exact .pure (by simp)
  | w :: ws, h => by
    rw [Compound.allIn, Bool.and_eq_true] at h
    rw [compoundList]
    refine .bind (compound_isIn env w h.1) fun e he ↦ ?_
    refine .bind (compoundList_isIn env ws h.2) fun es hes ↦ .pure ?_
    simp [he, hes]

theorem primary_isIn (env : Enclosing) (span : Span) : ∀ p : Primary, p.isIn d = true →
    Yields (primary env span p) (Expr.isIn d · = true)
  | .bareword text, _ => by
    rw [primary]
    exact .pure (by simp)
  | .quoted text, _ => by
    rw [primary]
    exact .pure (by simp)
  | .variable name explode, _ => by
    rw [primary]
    exact .after fun _ ↦ .pure (by simp)
  | .capture inside, h => by
    rw [Primary.isIn] at h
    rw [primary]
    refine .bind (chunk_isIn env inside h) fun op hop ↦ .pure ?_
    simpa using hop
  | .list ws, h => by
    rw [Primary.isIn] at h
    rw [primary]
    refine .bind (compoundList_isIn env ws h) fun es hes ↦ .pure ?_
    simpa using hes
  | .map ps, h => by
    rw [Primary.isIn] at h
    rw [primary]
    refine .bind (pairList_isIn env ps h) fun es hes ↦ .pure ?_
    simpa using hes
  | .lambda l, h => by
    rw [Primary.isIn] at h
    rw [primary]
    refine .bind (lambda_isIn env false l h) fun e he ↦ .pure ?_
    simpa using he

theorem pairList_isIn (env : Enclosing) :
    ∀ ps : List (Compound × Compound), Compound.pairsIn d ps = true →
      Yields (pairList env ps) (Expr.pairsIn d · = true)
  | [], _ => by
    rw [pairList]
    exact .pure (by simp)
  | (k, v) :: ps, h => by
    simp only [Compound.pairsIn, Bool.and_eq_true] at h
    rw [pairList]
    refine .bind (compound_isIn env k h.1.1) fun key hkey ↦ ?_
    refine .bind (compound_isIn env v h.1.2) fun value hvalue ↦ ?_
    refine .bind (pairList_isIn env ps h.2) fun others hothers ↦ .pure ?_
    simp [hkey, hvalue, hothers]

theorem lambda_isIn (env : Enclosing) (isFn : Bool) : ∀ l : Lambda, l.isIn d = true →
    Yields (lambda env isFn l) (LambdaDef.isIn d · = true)
  | ⟨span, params, options, restOptions, body⟩, h => by
    rw [Lambda.isIn, Bool.and_eq_true] at h
    rw [lambda]
    refine .bind (defaultList_isIn env options h.1) fun defaults hdefaults ↦ ?_
    dsimp only
    split
    · exact .fail
    · refine .after fun outside ↦ .after fun _ ↦ .bind (chunk_isIn _ body h.2) fun inside hinside ↦ ?_
      refine .after fun _ ↦ .pure ?_
      have hbody : (if isFn = true then Op.fnBody inside else inside).isIn d = true := by
        split
        · simpa using hinside
        · exact hinside
      simp only [LambdaDef.isIn, hdefaults, hbody, Bool.and_true]

theorem defaultList_isIn (env : Enclosing) :
    ∀ options : List (String × Compound), Compound.defaultsIn d options = true →
      Yields (defaultList env options) (Expr.defaultsIn d · = true)
  | [], _ => by
    rw [defaultList]
    exact .pure (by simp)
  | (name, w) :: options, h => by
    rw [Compound.defaultsIn, Bool.and_eq_true] at h
    rw [defaultList]
    refine .bind (compound_isIn env w h.1) fun e he ↦ ?_
    refine .bind (defaultList_isIn env options h.2) fun others hothers ↦ .pure ?_
    simp [he, hothers]

theorem written_isIn (env : Enclosing) (isFn : Bool) : ∀ w : Compound, w.isIn d = true →
    Yields (written env isFn w) (LambdaDef.isIn d · = true)
  | ⟨_, [⟨_, .lambda l, []⟩]⟩, h => by
    simp only [Compound.isIn, Indexed.allIn, Indexed.isIn, Primary.isIn, Bool.and_eq_true] at h
    rw [written]
    exact lambda_isIn env isFn l h.1.1
  | ⟨_, []⟩, _ | ⟨_, _ :: _ :: _⟩, _ | ⟨_, [⟨_, .lambda _, _ :: _⟩]⟩, _
  | ⟨_, [⟨_, .bareword _, _⟩]⟩, _ | ⟨_, [⟨_, .quoted _, _⟩]⟩, _ | ⟨_, [⟨_, .variable _ _, _⟩]⟩, _
  | ⟨_, [⟨_, .capture _, _⟩]⟩, _ | ⟨_, [⟨_, .list _, _⟩]⟩, _ | ⟨_, [⟨_, .map _, _⟩]⟩, _ => by
    rw [written]
    · exact .fail
    · rintro _ _ _ ⟨⟩

theorem words_isIn (env : Enclosing) : ∀ items : List Item, Item.allIn d items = true →
    Yields (words env items) (Expr.allIn d · = true)
  | [], _ => by
    rw [words]
    exact .pure (by simp)
  | .arg w :: items, h => by
    simp only [Item.allIn, Item.isIn, Bool.and_eq_true] at h
    rw [words]
    refine .bind (compound_isIn env w h.1) fun e he ↦ ?_
    refine .bind (words_isIn env items h.2) fun es hes ↦ .pure ?_
    simp [he, hes]
  | .opt _ _ _ :: items, h => by
    rw [Item.allIn, Bool.and_eq_true] at h
    exact words_isIn env items h.2
  | .eq _ :: items, h => by
    rw [Item.allIn, Bool.and_eq_true] at h
    exact words_isIn env items h.2

theorem wordsBehindEq_isIn (env : Enclosing) : ∀ items : List Item, Item.allIn d items = true →
    Yields (wordsBehindEq env items) (Expr.allIn d · = true)
  | [], _ => by
    rw [wordsBehindEq]
    exact .pure (by simp)
  | .eq _ :: items, h => by
    rw [Item.allIn, Bool.and_eq_true] at h
    exact words_isIn env items h.2
  | .arg _ :: items, h => by
    rw [Item.allIn, Bool.and_eq_true] at h
    exact wordsBehindEq_isIn env items h.2
  | .opt _ _ _ :: items, h => by
    rw [Item.allIn, Bool.and_eq_true] at h
    exact wordsBehindEq_isIn env items h.2

theorem places_isIn (env : Enclosing) : ∀ items : List Item, Item.allIn d items = true →
    Yields (places env items) (Place.allIn d · = true)
  | [], _ => by
    rw [places]
    exact .pure (by simp)
  | .eq _ :: _, _ => by
    rw [places]
    exact .pure (by simp)
  | .arg w :: items, h => by
    simp only [Item.allIn, Item.isIn, Bool.and_eq_true] at h
    rw [places]
    refine .bind (place_isIn env w h.1) fun p hp ↦ ?_
    refine .bind (places_isIn env items h.2) fun ps hps ↦ .pure ?_
    simp [hp, hps]
  | .opt _ _ _ :: items, h => by
    rw [Item.allIn, Bool.and_eq_true] at h
    exact places_isIn env items h.2

theorem place_isIn (env : Enclosing) : ∀ w : Compound, w.isIn d = true →
    Yields (place env w) (Place.isIn d · = true)
  | ⟨span, [⟨_, .bareword word, indices⟩]⟩, h => by
    simp only [Compound.isIn, Indexed.allIn, Indexed.isIn, Bool.and_eq_true] at h
    rw [place]
    refine .after fun _ ↦ .bind (placeKeys_isIn env span indices h.1.2) fun es hes ↦ .pure ?_
    simpa using hes
  | ⟨_, []⟩, _ | ⟨_, _ :: _ :: _⟩, _ | ⟨_, [⟨_, .lambda _, _⟩]⟩, _ | ⟨_, [⟨_, .quoted _, _⟩]⟩, _
  | ⟨_, [⟨_, .variable _ _, _⟩]⟩, _ | ⟨_, [⟨_, .capture _, _⟩]⟩, _ | ⟨_, [⟨_, .list _, _⟩]⟩, _
  | ⟨_, [⟨_, .map _, _⟩]⟩, _ => by
    rw [place]
    · exact .fail
    · rintro _ _ _ _ ⟨⟩

theorem placeKeys_isIn (env : Enclosing) (span : Span) :
    ∀ indices : List (List Compound), Compound.listsIn d indices = true →
      Yields (placeKeys env span indices) (Expr.allIn d · = true)
  | [], _ => by
    rw [placeKeys]
    exact .pure (by simp)
  | [key] :: rest, h => by
    simp only [Compound.listsIn, Compound.allIn, Bool.and_eq_true] at h
    rw [placeKeys]
    refine .bind (compound_isIn env key h.1.1) fun e he ↦ ?_
    refine .bind (placeKeys_isIn env span rest h.2) fun es hes ↦ .pure ?_
    simp [he, hes]
  | [] :: _, _ | (_ :: _ :: _) :: _, _ => by
    rw [placeKeys]
    · exact .fail
    · rintro _ ⟨⟩

theorem deletions_isIn (env : Enclosing) : ∀ items : List Item, Item.allIn d items = true →
    Yields (deletions env items) (Op.allIn d · = true)
  | [], _ => by
    rw [deletions]
    exact .pure (by simp)
  | .arg w :: items, h => by
    simp only [Item.allIn, Item.isIn, Bool.and_eq_true] at h
    have hrest (p : Place) (hp : p.isIn d = true) :
        Yields (do let others ← deletions env items; return Op.del (site env w.span) p :: others)
          (Op.allIn d · = true) := by
      refine .bind (deletions_isIn env items h.2) fun ops hops ↦ .pure ?_
      simp [hp, hops]
    rw [deletions]
    refine .bind (place_isIn env w h.1) fun p hp ↦ ?_
    match p with
    | .mk name [] =>
      refine .after fun declared ↦ .after fun _ ↦ ?_
      split
      · exact hrest _ hp
      · exact .after fun _ ↦ hrest _ hp
    | .mk name (index :: indices) => exact hrest _ hp
  | .opt _ _ _ :: items, h => by
    rw [Item.allIn, Bool.and_eq_true] at h
    exact deletions_isIn env items h.2
  | .eq _ :: items, h => by
    rw [Item.allIn, Bool.and_eq_true] at h
    exact deletions_isIn env items h.2

theorem fnForm_isIn (env : Enclosing) (span : Span) : ∀ items : List Item, Item.allIn d items = true →
    Yields (fnForm env span items) (Op.isIn d · = true)
  | [.arg name, .arg word], h => by
    simp only [Item.allIn, Item.isIn, Bool.and_eq_true] at h
    rw [fnForm]
    refine .after fun var ↦ .after fun _ ↦ .bind (written_isIn env true word h.2.1) fun l hl ↦ .pure ?_
    simpa using hl
  | [], _ | .opt _ _ _ :: _, _ | .eq _ :: _, _ | [.arg _], _ | .arg _ :: .opt _ _ _ :: _, _
  | .arg _ :: .eq _ :: _, _ | .arg _ :: .arg _ :: _ :: _, _ => by
    rw [fnForm]
    · exact .fail
    · rintro _ _ ⟨⟩

theorem branchList_isIn (env : Enclosing) (span : Span) :
    ∀ items : List Item, Item.allIn d items = true →
      Yields (branchList env span items) fun x ↦ Expr.pairsIn d x.1 = true ∧ Expr.bodyIn d x.2 = true
  | .arg c :: .arg b :: items, h => by
    simp only [Item.allIn, Item.isIn, Bool.and_eq_true] at h
    rw [branchList]
    refine .bind (compound_isIn env c h.1) fun cond hcond ↦ ?_
    refine .bind (written_isIn env false b h.2.1) fun inside hinside ↦ ?_
    refine .bind (moreBranches_isIn env span items h.2.2) fun x hx ↦ .pure ?_
    simp [hcond, hinside, hx]
  | [], _ | .opt _ _ _ :: _, _ | .eq _ :: _, _ | [.arg _], _ | .arg _ :: .opt _ _ _ :: _, _
  | .arg _ :: .eq _ :: _, _ => by
    rw [branchList]
    · exact .fail
    · rintro _ _ _ ⟨⟩

theorem moreBranches_isIn (env : Enclosing) (span : Span) :
    ∀ items : List Item, Item.allIn d items = true →
      Yields (moreBranches env span items) fun x ↦ Expr.pairsIn d x.1 = true ∧ Expr.bodyIn d x.2 = true
  | .arg keyword :: items, h => by
    rw [Item.allIn, Bool.and_eq_true] at h
    rw [moreBranches]
    generalize keyword.bareword? = name
    split
    · exact branchList_isIn env span items h.2
    · refine .bind (elseBody_isIn env keyword.span .noElifOrElse items h.2) fun e he ↦ .pure ?_
      simp [he]
    · exact .fail
  | [], _ | .opt _ _ _ :: _, _ | .eq _ :: _, _ => by
    rw [moreBranches]
    · exact .pure ⟨by simp, by simp⟩
    · rintro _ _ ⟨⟩

theorem elseBody_isIn (env : Enclosing) (span : Span) (fault : CompileFault) :
    ∀ items : List Item, Item.allIn d items = true →
      Yields (elseBody env span fault items) (Expr.isIn d · = true)
  | [.arg b], h => by
    simp only [Item.allIn, Item.isIn, Bool.and_eq_true] at h
    rw [elseBody]
    exact .bind (written_isIn env false b h.1) fun inside hinside ↦ .pure (by simpa using hinside)
  | [], _ | .opt _ _ _ :: _, _ | .eq _ :: _, _ | .arg _ :: _ :: _, _ => by
    rw [elseBody]
    · exact .fail
    · rintro _ ⟨⟩

theorem elseClause_isIn (env : Enclosing) : ∀ items : List Item, Item.allIn d items = true →
    Yields (elseClause env items) (Expr.bodyIn d · = true)
  | .arg keyword :: items, h => by
    rw [Item.allIn, Bool.and_eq_true] at h
    rw [elseClause]
    split
    · refine .bind (elseBody_isIn env keyword.span .noElse items h.2) fun e he ↦ .pure ?_
      simpa using he
    · exact .fail
  | [], _ | .opt _ _ _ :: _, _ | .eq _ :: _, _ => by
    rw [elseClause]
    · exact .pure (by simp)
    · rintro _ _ ⟨⟩

theorem whileForm_isIn (env : Enclosing) (span : Span) :
    ∀ items : List Item, d.loops = true → Item.allIn d items = true →
      Yields (whileForm env span items) (Op.isIn d · = true)
  | .arg c :: .arg b :: items, hd, h => by
    simp only [Item.allIn, Item.isIn, Bool.and_eq_true] at h
    rw [whileForm]
    refine .bind (compound_isIn env c h.1) fun cond hcond ↦ ?_
    refine .bind (written_isIn env false b h.2.1) fun inside hinside ↦ ?_
    refine .bind (elseClause_isIn env items h.2.2) fun otherwise hotherwise ↦ .pure ?_
    simp [hd, hcond, hinside, hotherwise]
  | [], _, _ | .opt _ _ _ :: _, _, _ | .eq _ :: _, _, _ | [.arg _], _, _ | .arg _ :: .opt _ _ _ :: _, _, _
  | .arg _ :: .eq _ :: _, _, _ => by
    rw [whileForm]
    · exact .fail
    · rintro _ _ _ ⟨⟩

theorem forForm_isIn (env : Enclosing) (span : Span) :
    ∀ items : List Item, Item.allIn d items = true →
      Yields (forForm env span items) (Op.isIn d · = true)
  | .arg v :: .arg i :: .arg b :: items, h => by
    simp only [Item.allIn, Item.isIn, Bool.and_eq_true] at h
    rw [forForm]
    refine .after fun var ↦ .bind (compound_isIn env i h.2.1) fun iterable hiterable ↦ ?_
    refine .after fun _ ↦ .bind (written_isIn env false b h.2.2.1) fun inside hinside ↦ ?_
    refine .bind (elseClause_isIn env items h.2.2.2) fun otherwise hotherwise ↦ .pure ?_
    simp [hiterable, hinside, hotherwise]
  | [], _ | .opt _ _ _ :: _, _ | .eq _ :: _, _ | [.arg _], _ | .arg _ :: .opt _ _ _ :: _, _
  | .arg _ :: .eq _ :: _, _ | [.arg _, .arg _], _ | .arg _ :: .arg _ :: .opt _ _ _ :: _, _
  | .arg _ :: .arg _ :: .eq _ :: _, _ => by
    rw [forForm]
    · exact .fail
    · rintro _ _ _ _ ⟨⟩

theorem tryForm_isIn (env : Enclosing) (span : Span) :
    ∀ items : List Item, Item.allIn d items = true →
      Yields (tryForm env span items) (Op.isIn d · = true)
  | .arg b :: items, h => by
    simp only [Item.allIn, Item.isIn, Bool.and_eq_true] at h
    rw [tryForm]
    refine .bind (written_isIn env false b h.1) fun inside hinside ↦ ?_
    refine .bind (tryClauses_isIn env items h.2) fun x hx ↦ .pure ?_
    simp [hinside, hx]
  | [], _ | .opt _ _ _ :: _, _ | .eq _ :: _, _ => by
    rw [tryForm]
    · exact .fail
    · rintro _ _ ⟨⟩

theorem tryClauses_isIn (env : Enclosing) : ∀ items : List Item, Item.allIn d items = true →
    Yields (tryClauses env items) fun x ↦ Expr.handlerIn d x.1 = true ∧ Expr.bodyIn d x.2.1 = true ∧
      Expr.bodyIn d x.2.2 = true
  | [.arg keyword], _ => by
    rw [tryClauses]
    split
    · exact .fail
    · exact .fail
  | .arg keyword :: .arg w :: items, h => by
    simp only [Item.allIn, Item.isIn, Bool.and_eq_true] at h
    obtain ⟨-, hw, hitems⟩ := h
    rw [tryClauses]
    generalize keyword.bareword? = name
    split
    · split
      · refine .bind (written_isIn env false w hw) fun inside hinside ↦ ?_
        refine .bind (afterCatch_isIn env items hitems) fun x hx ↦ .pure ⟨?_, hx⟩
        simpa using hinside
      · exact .bind (namedCatch_isIn env keyword.span w items hitems) fun x hx ↦ .pure hx
    · refine .bind (written_isIn env false w hw) fun inside hinside ↦ ?_
      refine .bind (afterElse_isIn env items hitems) fun last hlast ↦ .pure ?_
      exact ⟨by simp, by simpa using hinside, hlast⟩
    · refine .bind (written_isIn env false w hw) fun inside hinside ↦ .after fun _ ↦ .pure ?_
      exact ⟨by simp, by simp, by simpa using hinside⟩
    · exact .fail
  | [], _ | .opt _ _ _ :: _, _ | .eq _ :: _, _ | .arg _ :: .opt _ _ _ :: _, _
  | .arg _ :: .eq _ :: _, _ => by
    rw [tryClauses]
    · exact .pure ⟨by simp, by simp, by simp⟩
    · rintro _ ⟨⟩
    · rintro _ _ _ ⟨⟩

theorem namedCatch_isIn (env : Enclosing) (span : Span) (name : Compound) :
    ∀ items : List Item, Item.allIn d items = true →
      Yields (namedCatch env span name items) fun x ↦ Expr.handlerIn d (some x.1) = true ∧
        Expr.bodyIn d x.2.1 = true ∧ Expr.bodyIn d x.2.2 = true
  | .arg b :: items, h => by
    simp only [Item.allIn, Item.isIn, Bool.and_eq_true] at h
    rw [namedCatch]
    refine .after fun var ↦ .after fun _ ↦ .bind (written_isIn env false b h.1) fun inside hinside ↦ ?_
    refine .bind (afterCatch_isIn env items h.2) fun x hx ↦ .pure ⟨?_, hx⟩
    simpa using hinside
  | [], _ | .opt _ _ _ :: _, _ | .eq _ :: _, _ => by
    rw [namedCatch]
    · exact .fail
    · rintro _ _ ⟨⟩

theorem afterCatch_isIn (env : Enclosing) : ∀ items : List Item, Item.allIn d items = true →
    Yields (afterCatch env items) fun x ↦ Expr.bodyIn d x.1 = true ∧ Expr.bodyIn d x.2 = true
  | [.arg keyword], _ => by
    rw [afterCatch]
    exact .fail
  | .arg keyword :: .arg w :: items, h => by
    simp only [Item.allIn, Item.isIn, Bool.and_eq_true] at h
    obtain ⟨-, hw, hitems⟩ := h
    rw [afterCatch]
    generalize keyword.bareword? = name
    split
    · refine .bind (written_isIn env false w hw) fun inside hinside ↦ ?_
      refine .bind (afterElse_isIn env items hitems) fun last hlast ↦ .pure ?_
      exact ⟨by simpa using hinside, hlast⟩
    · refine .bind (written_isIn env false w hw) fun inside hinside ↦ .after fun _ ↦ .pure ?_
      exact ⟨by simp, by simpa using hinside⟩
    · exact .fail
  | [], _ | .opt _ _ _ :: _, _ | .eq _ :: _, _ | .arg _ :: .opt _ _ _ :: _, _
  | .arg _ :: .eq _ :: _, _ => by
    rw [afterCatch]
    · exact .pure ⟨by simp, by simp⟩
    · rintro _ ⟨⟩
    · rintro _ _ _ ⟨⟩

theorem afterElse_isIn (env : Enclosing) : ∀ items : List Item, Item.allIn d items = true →
    Yields (afterElse env items) (Expr.bodyIn d · = true)
  | [.arg keyword], _ => by
    rw [afterElse]
    exact .fail
  | .arg keyword :: .arg w :: items, h => by
    simp only [Item.allIn, Item.isIn, Bool.and_eq_true] at h
    rw [afterElse]
    split
    · refine .bind (written_isIn env false w h.2.1) fun inside hinside ↦ .after fun _ ↦ .pure ?_
      simpa using hinside
    · exact .fail
  | [], _ | .opt _ _ _ :: _, _ | .eq _ :: _, _ | .arg _ :: .opt _ _ _ :: _, _
  | .arg _ :: .eq _ :: _, _ => by
    rw [afterElse]
    · exact .pure (by simp)
    · rintro _ ⟨⟩
    · rintro _ _ _ ⟨⟩

end

end Lowering

/-! ## Scripts -/

variable {d : Dialect} {source : Source} {scope : Scope} {op : Op}

theorem Chunk.lower_isIn {tree : Chunk} (hd : tree.isIn d = true) (h : tree.lower source scope = .ok op) :
    op.isIn d = true := by
  rw [Chunk.lower] at h
  split at h
  · rename_i op' D hop
    cases h
    exact Lowering.chunk_isIn _ tree hd [] op D hop
  · cases h

/-- **What a text in a dialect is compiled to is in the dialect.** -/
theorem compile_isIn (hd : d.has source.code = true) (h : compile source scope = .ok op) :
    op.isIn d = true := by
  rw [compile] at h
  rw [Dialect.has] at hd
  split at h
  · cases h
  · rename_i tree htree
    rw [htree] at hd
    split at h
    · cases h
    · rename_i hop
      cases h
      exact tree.lower_isIn hd hop

end ValueShell
