import ValueShell.Eval.Engine
import ValueShell.Proofs.Accounting

/-!
# All code that passes the check is accounted for

The walk of `Operation.Lowering` again, with what it gives at each place set against the outline.  Guarded
names are plain, so that what is checked of a variable is what it is looked up by.  The statements about single
functions serve the last one, `lower_accounted`: code that the check accepts is accounted for from the start,
when nothing is declared.
-/

set_option autoImplicit false

namespace ValueShell

namespace Lowering

variable {guarded : String → Prop} {env : Enclosing} {D D' : List String}

/-! ## Pieces -/

/-- Joining parts does not change what they do to names. -/
theorem Accounted.joinParts {es : List Expr}
    (h : Accounted guarded env D (Expr.outlines es) D') :
    Accounted guarded env D (Lowering.joinParts es).outline D' := by
  unfold Lowering.joinParts
  split
  · rw [Expr.outlines, Expr.outlines] at h
    exact h.of_seq_nothing
  · rw [Expr.outline]
    exact h

theorem checkVar_accounts {span : Span} {name : String}
    (plain : guarded name → Name.isQualified name = false) :
    Accounts guarded env D (checkVar env span name D) fun _ ↦ .refers name := by
  refine .bind fun found D₁ h ↦ ?_
  split
  · rename_i hf
    cases leaves_has D found D₁ h
    refine .pure (.refers fun hg ↦ ?_)
    rw [Name.root_of_plain (plain hg)] at h
    exact visible_of_has h hf
  · exact .fail

/-- What a command word refers to is visible, or qualified. -/
theorem command_accounts {name : String} {command : Name.Command}
    (plain : ∀ {x}, guarded x → Name.isQualified x = false)
    (h : Name.command name (has env) D = .ok (command, D')) :
    D' = D ∧ ∀ var, command = .function var → guarded var → Visible env D var := by
  generalize hm : Name.command name (has env) = m at h
  unfold Name.command at hm
  split at hm
  · subst hm
    cases h
    exact ⟨rfl, by rintro _ ⟨⟩⟩
  · split at hm
    · rename_i hq
      subst hm
      obtain ⟨found, D₁, hf, h⟩ := of_bind h
      cases leaves_has D found D₁ hf
      cases h
      refine ⟨rfl, fun var hvar hg ↦ ?_⟩
      split at hvar <;> cases hvar
      exact absurd (plain hg) (by rw [Name.isQualified_function hq]; decide)
    · subst hm
      obtain ⟨found, D₁, hf, h⟩ := of_bind h
      cases leaves_has D found D₁ hf
      cases h
      refine ⟨rfl, fun var hvar _ ↦ ?_⟩
      split at hvar
      · rename_i hfound
        cases hvar
        exact visible_of_has hf hfound
      · cases hvar

theorem defaultList_names {options : List (String × Compound)} {ds : List (String × Expr)}
    (h : defaultList env options D = .ok (ds, D')) : ds.map (·.1) = options.map (·.1) := by
  induction options generalizing ds D with
  | nil =>
    rw [defaultList] at h
    cases h
    rfl
  | cons o options ih =>
    obtain ⟨name, w⟩ := o
    rw [defaultList] at h
    obtain ⟨e, D₁, -, h⟩ := of_bind h
    obtain ⟨es, D₂, hes, h⟩ := of_bind h
    cases h
    rw [List.map_cons, List.map_cons, ih hes]

/-- Without an equals sign there are no words behind it. -/
theorem wordsBehindEq_of_splitEq {items : List Item} (h : (splitEq items).2 = none) :
    wordsBehindEq env items = pure [] := by
  have hdrop : items.dropWhile (!isEq ·) = [] := by
    unfold splitEq at h
    split at h
    · assumption
    · cases h
  clear h
  induction items with
  | nil => rw [wordsBehindEq]
  | cons item items ih =>
    cases item with
    | eq span => cases hdrop
    | arg word => exact ih hdrop
    | opt span name value => exact ih hdrop

/-- The names of targets are declared, one after another. -/
theorem declareNames_accounts {names : List (Option String)} :
    Accounts guarded env D
      ((names.forM fun name ↦ (name.forM declare : Lower Unit) : Lower Unit) D)
      fun _ ↦ .all (names.map fun
        | some name => .declares name
        | none => .nothing) := by
  induction names generalizing D with
  | nil => exact .pure .nothing
  | cons name names ih =>
    refine .bind fun _ D₁ h u D₂ h' ↦ .seq ?_ (ih u D₂ h')
    cases name with
    | none =>
      cases h
      exact .nothing
    | some name =>
      cases h
      exact .declares

theorem leaves_useAlias {span : Span} {items : List Item} : Leaves (useAlias span items) := by
  unfold useAlias
  split
  · exact .pure
  · exact .pure
  · exact .fail

theorem leaves_useName {spec : String} {given : Option Compound} : Leaves (useName spec given) := by
  cases given with
  | none => exact .pure
  | some word => exact leaves_bareword

theorem useForm_accounts {span : Span} {items : List Item} :
    Accounts guarded env D (useForm env span items D) Op.outline := by
  unfold useForm
  split
  · rename_i word items
    refine .bindLeaves leaves_useAlias fun given ↦ ?_
    cases word.literal? with
    | none => exact .fail
    | some spec =>
      refine .bindLeaves leaves_useName fun name ↦ .bind fun _ D₁ h ↦ .pure ?_
      cases h
      rw [Op.outline]
      exact Accounted.declares.form
  · exact .fail

/-- The values of a declaration come first, and then its names are there. -/
theorem varForm_accounts {span : Span} {items : List Item} {values : Lower (List Expr)}
    (hv : Accounts guarded env D (values D) Expr.outlines)
    (hnone : (splitEq items).2 = none → values = pure []) :
    Accounts guarded env D (varForm env span items values D) Op.outline := by
  unfold varForm
  generalize splitEq items = parts at hnone
  obtain ⟨left, right⟩ := parts
  refine .bindLeaves leaves_argsOnly fun _ ↦ ?_
  split
  · exact .fail
  · refine .bindLeaves leaves_targets fun x ↦ ?_
    refine .bindLeaves leaves_noneIndexed fun _ ↦ ?_
    refine .bindLeaves leaves_argsOnly fun _ ↦ ?_
    refine .bind fun es D₁ h₁ ↦ .bind fun u D₂ h₂ ↦ .pure ?_
    rw [Op.outline]
    refine (Accounted.seq ?_ (declareNames_accounts _ _ h₂)).form
    cases right with
    | none =>
      rw [hnone rfl] at h₁
      cases h₁
      rw [Option.map_none, Op.outlineOfValues]
      exact .nothing
    | some right =>
      rw [Option.map_some, Op.outlineOfValues]
      exact hv _ _ h₁

/-- The places of an assignment are found after its values. -/
theorem setForm_accounts {span : Span} {items : List Item} {values : Lower (List Expr)}
    {places : Lower (List Place)} (hv : Accounts guarded env D (values D) Expr.outlines)
    (hp : ∀ D, Accounts guarded env D (places D) Place.outlines) :
    Accounts guarded env D (setForm env span items values places D) Op.outline := by
  unfold setForm
  generalize splitEq items = parts
  obtain ⟨left, right⟩ := parts
  cases right with
  | none => exact .fail
  | some right =>
    refine .bindLeaves leaves_argsOnly fun _ ↦ ?_
    split
    · exact .fail
    · refine .bindLeaves leaves_argsOnly fun _ ↦ ?_
      refine .bind fun es D₁ h₁ ↦ .bindLeaves leaves_targets fun x ↦ ?_
      refine .bind fun ps D₂ h₂ ↦ .pure ?_
      rw [Op.outline]
      exact ((hv _ _ h₁).seq (hp D₁ _ _ h₂)).form

theorem delForm_accounts {span : Span} {items : List Item} {removals : Lower (List Op)}
    (hr : Accounts guarded env D (removals D) Op.outlines) :
    Accounts guarded env D (delForm span items removals D) Op.outline := by
  refine .bindLeaves leaves_targets fun x ↦ ?_
  dsimp only
  split
  · exact .fail
  · refine .bind fun ops D₁ h ↦ .pure ?_
    rw [Op.outline]
    exact hr _ _ h

/-! ## The walk -/

variable (plain : ∀ {x}, guarded x → Name.isQualified x = false)

include plain

set_option linter.unusedSectionVars false

mutual

theorem chunk_accounts (env : Enclosing) : ∀ (c : Chunk) (D : List String),
    Accounts guarded env D (chunk env c D) Op.outline
  | ⟨pipelines⟩, D => by
    rw [chunk]
    refine .bind fun ops D₁ h ↦ .pure ?_
    rw [Op.outline]
    exact pipelineList_accounts env pipelines D _ _ h

theorem pipelineList_accounts (env : Enclosing) : ∀ (ps : List Pipeline) (D : List String),
    Accounts guarded env D (pipelineList env ps D) Op.outlines
  | [], D => by
    rw [pipelineList]
    refine .pure ?_
    rw [Op.outlines]
    exact .nothing
  | p :: ps, D => by
    rw [pipelineList]
    refine .bind fun op D₁ h₁ ↦ .bind fun ops D₂ h₂ ↦ .pure ?_
    rw [Op.outlines]
    exact (pipeline_accounts env p D _ _ h₁).seq (pipelineList_accounts env ps D₁ _ _ h₂)

theorem pipeline_accounts (env : Enclosing) : ∀ (p : Pipeline) (D : List String),
    Accounts guarded env D (pipeline env p D) Op.outline
  | ⟨_, [f]⟩, D => by
    rw [pipeline]
    exact form_accounts env f D
  | ⟨span, []⟩, D => by
    simp only [pipeline]
    refine .bind fun ops D₁ h ↦ .pure ?_
    rw [Op.outline]
    exact (formList_accounts env [] D _ _ h).form
  | ⟨span, f :: g :: fs⟩, D => by
    simp only [pipeline]
    refine .bind fun ops D₁ h ↦ .pure ?_
    rw [Op.outline]
    exact (formList_accounts env (f :: g :: fs) D _ _ h).form

theorem formList_accounts (env : Enclosing) : ∀ (fs : List Form) (D : List String),
    Accounts guarded env D (formList env fs D) Op.outlinesOfStages
  | [], D => by
    rw [formList]
    refine .pure ?_
    rw [Op.outlinesOfStages]
    exact .nothing
  | f :: fs, D => by
    rw [formList]
    refine .bind fun op D₁ h₁ ↦ .bind fun ops D₂ h₂ ↦ .pure ?_
    rw [Op.outlinesOfStages]
    exact (form_accounts env f D _ _ h₁).loose.seq (formList_accounts env fs D₁ _ _ h₂)

theorem form_accounts (env : Enclosing) : ∀ (f : Form) (D : List String),
    Accounts guarded env D (form env f D) Op.outline
  | ⟨span, head, items, redirs⟩, D => by
    unfold form
    generalize head.bareword?.filter Name.isSpecial = special
    split
    · exact .fail
    · exact varForm_accounts (wordsBehindEq_accounts env items D) wordsBehindEq_of_splitEq
    · exact setForm_accounts (wordsBehindEq_accounts env items D) (places_accounts env items)
    · refine .bindLeaves leaves_argsOnly fun _ ↦ ?_
      split
      · exact delForm_accounts (deletions_accounts env items D)
      · exact fnForm_accounts env span items D
      · exact useForm_accounts
      · refine .bind fun x D₁ h ↦ .pure ?_
        rw [Op.outline]
        exact (branchList_accounts env span items D _ _ h).form
      · exact whileForm_accounts env span items D
      · exact forForm_accounts env span items D
      · exact tryForm_accounts env span items D
      · refine .bind fun args D₁ h ↦ .pure ?_
        rw [Op.outline]
        exact (words_accounts_logic env items D _ _ h).form
      · refine .bind fun args D₁ h ↦ .pure ?_
        rw [Op.outline]
        exact (words_accounts_logic env items D _ _ h).form
    · refine .bind fun h D₁ h₁ ↦ .bind fun x D₂ h₂ ↦ .bind fun rs D₃ h₃ ↦ .pure ?_
      rw [Op.outline]
      refine Accounted.form ?_
      refine (commandHead_accounts env head D _ _ h₁).seq ?_
      refine Accounted.assoc ?_
      exact (arguments_accounts env items D₁ _ _ h₂).seq (redirects_accounts env redirs D₂ _ _ h₃)

theorem commandHead_accounts (env : Enclosing) : ∀ (w : Compound) (D : List String),
    Accounts guarded env D (commandHead env w D) Head.outline
  | ⟨span, parts⟩, D => by
    rw [commandHead]
    generalize Compound.literal? ⟨span, parts⟩ = literal
    cases literal with
    | none =>
      refine .bind fun es D₁ h ↦ .pure ?_
      rw [Head.outline]
      exact (indexedList_accounts env parts D _ _ h).joinParts
    | some name =>
      refine .bind fun command D₁ h ↦ ?_
      obtain ⟨rfl, hvar⟩ := command_accounts plain h
      split
      · refine .pure ?_
        rw [Head.outline]
        exact .refers fun hg ↦ hvar _ rfl hg
      · refine .pure ?_
        rw [Head.outline]
        exact .nothing
      · exact .fail

theorem arguments_accounts (env : Enclosing) : ∀ (items : List Item) (D : List String),
    Accounts guarded env D (arguments env items D) fun x ↦
      .seq (Expr.outlines x.1) (.loose (Expr.outlinesOfOptions x.2))
  | [], D => by
    rw [arguments]
    refine .pure ?_
    dsimp only
    rw [Expr.outlines, Expr.outlinesOfOptions]
    exact .seq .nothing (.loose .nothing)
  | .arg word :: items, D => by
    rw [arguments]
    refine .bind fun e D₁ h₁ ↦ .bind fun x D₂ h₂ ↦ .pure ?_
    dsimp only
    rw [Expr.outlines]
    exact ((compound_accounts env word D _ _ h₁).seq
      (arguments_accounts env items D₁ _ _ h₂)).assoc_symm
  | .opt _ name none :: items, D => by
    rw [arguments]
    refine .bind fun x D₁ h ↦ .pure ?_
    dsimp only
    rw [Expr.outlinesOfOptions]
    exact arguments_accounts env items D _ _ h
  | .opt _ name (some word) :: items, D => by
    rw [arguments]
    refine .bind fun e D₁ h₁ ↦ .bind fun x D₂ h₂ ↦ .pure ?_
    dsimp only
    rw [Expr.outlinesOfOptions]
    exact (compound_accounts env word D _ _ h₁).later (arguments_accounts env items D₁ _ _ h₂)
  | .eq _ :: items, D => by
    rw [arguments]
    refine .bind fun x D₁ h ↦ .pure ?_
    dsimp only
    rw [Expr.outlines, Expr.outline]
    exact (arguments_accounts env items D _ _ h).nothing_seq.assoc_symm

theorem redirects_accounts (env : Enclosing) : ∀ (redirs : List Redir) (D : List String),
    Accounts guarded env D (redirects env redirs D) Redirect.outlines
  | [], D => by
    rw [redirects]
    refine .pure ?_
    rw [Redirect.outlines]
    exact .nothing
  | ⟨_, fd, .dup source, _⟩ :: redirs, D => by
    rw [redirects]
    refine .bind fun rs D₁ h ↦ .pure ?_
    rw [Redirect.outlines]
    exact redirects_accounts env redirs D _ _ h
  | ⟨span, _, .write, none⟩ :: _, D => by
    rw [redirects]
    · exact .fail
    · rintro _ ⟨⟩
  | ⟨span, _, .append, none⟩ :: _, D => by
    rw [redirects]
    · exact .fail
    · rintro _ ⟨⟩
  | ⟨_, fd, .write, some word⟩ :: redirs, D => by
    rw [redirects]
    · refine .bind fun path D₁ h₁ ↦ .bind fun rs D₂ h₂ ↦ .pure ?_
      rw [Redirect.outlines]
      exact (compound_accounts env word D _ _ h₁).seq (redirects_accounts env redirs D₁ _ _ h₂)
    · rintro _ ⟨⟩
  | ⟨_, fd, .append, some word⟩ :: redirs, D => by
    rw [redirects]
    · refine .bind fun path D₁ h₁ ↦ .bind fun rs D₂ h₂ ↦ .pure ?_
      rw [Redirect.outlines]
      exact (compound_accounts env word D _ _ h₁).seq (redirects_accounts env redirs D₁ _ _ h₂)
    · rintro _ ⟨⟩

theorem compound_accounts (env : Enclosing) : ∀ (w : Compound) (D : List String),
    Accounts guarded env D (compound env w D) Expr.outline
  | ⟨_, parts⟩, D => by
    rw [compound]
    refine .bind fun es D₁ h ↦ .pure ?_
    exact (indexedList_accounts env parts D _ _ h).joinParts

theorem indexedList_accounts (env : Enclosing) : ∀ (parts : List Indexed) (D : List String),
    Accounts guarded env D (indexedList env parts D) Expr.outlines
  | [], D => by
    rw [indexedList]
    refine .pure ?_
    rw [Expr.outlines]
    exact .nothing
  | part :: parts, D => by
    rw [indexedList]
    refine .bind fun e D₁ h₁ ↦ .bind fun es D₂ h₂ ↦ .pure ?_
    rw [Expr.outlines]
    exact (indexed_accounts env part D _ _ h₁).seq (indexedList_accounts env parts D₁ _ _ h₂)

theorem indexed_accounts (env : Enclosing) : ∀ (part : Indexed) (D : List String),
    Accounts guarded env D (indexed env part D) Expr.outline
  | ⟨span, head, []⟩, D => by
    rw [indexed]
    exact primary_accounts env span head D
  | ⟨span, head, index :: indices⟩, D => by
    simp only [indexed]
    refine .bind fun h D₁ h₁ ↦ .bind fun is D₂ h₂ ↦ .pure ?_
    rw [Expr.outline]
    exact (primary_accounts env span head D _ _ h₁).seq
      (wordLists_accounts env (index :: indices) D₁ _ _ h₂)

theorem wordLists_accounts (env : Enclosing) : ∀ (indices : List (List Compound)) (D : List String),
    Accounts guarded env D (wordLists env indices D) Expr.outlinesOfIndices
  | [], D => by
    rw [wordLists]
    refine .pure ?_
    rw [Expr.outlinesOfIndices]
    exact .nothing
  | ws :: rest, D => by
    rw [wordLists]
    refine .bind fun es D₁ h₁ ↦ .bind fun is D₂ h₂ ↦ .pure ?_
    rw [Expr.outlinesOfIndices]
    exact (compoundList_accounts env ws D _ _ h₁).seq (wordLists_accounts env rest D₁ _ _ h₂)

theorem compoundList_accounts (env : Enclosing) : ∀ (ws : List Compound) (D : List String),
    Accounts guarded env D (compoundList env ws D) Expr.outlines
  | [], D => by
    rw [compoundList]
    refine .pure ?_
    rw [Expr.outlines]
    exact .nothing
  | w :: ws, D => by
    rw [compoundList]
    refine .bind fun e D₁ h₁ ↦ .bind fun es D₂ h₂ ↦ .pure ?_
    rw [Expr.outlines]
    exact (compound_accounts env w D _ _ h₁).seq (compoundList_accounts env ws D₁ _ _ h₂)

theorem primary_accounts (env : Enclosing) (span : Span) : ∀ (p : Primary) (D : List String),
    Accounts guarded env D (primary env span p D) Expr.outline
  | .bareword text, D => by
    rw [primary]
    refine .pure ?_
    rw [Expr.outline]
    exact .nothing
  | .quoted text, D => by
    rw [primary]
    refine .pure ?_
    rw [Expr.outline]
    exact .nothing
  | .variable name explode, D => by
    rw [primary]
    refine .bind fun _ D₁ h ↦ .pure ?_
    rw [Expr.outline]
    exact checkVar_accounts plain _ _ h
  | .capture inside, D => by
    rw [primary]
    refine .bind fun op D₁ h ↦ .pure ?_
    rw [Expr.outline]
    exact chunk_accounts env inside D _ _ h
  | .list ws, D => by
    rw [primary]
    refine .bind fun es D₁ h ↦ .pure ?_
    rw [Expr.outline]
    exact compoundList_accounts env ws D _ _ h
  | .map ps, D => by
    rw [primary]
    refine .bind fun es D₁ h ↦ .pure ?_
    rw [Expr.outline]
    exact pairList_accounts env ps D _ _ h
  | .lambda l, D => by
    rw [primary]
    refine .bind fun d D₁ h ↦ .pure ?_
    rw [Expr.outline]
    exact lambda_accounts env false l D _ _ h

theorem pairList_accounts (env : Enclosing) : ∀ (ps : List (Compound × Compound)) (D : List String),
    Accounts guarded env D (pairList env ps D) Expr.outlinesOfPairs
  | [], D => by
    rw [pairList]
    refine .pure ?_
    rw [Expr.outlinesOfPairs]
    exact .nothing
  | (k, v) :: ps, D => by
    rw [pairList]
    refine .bind fun key D₁ h₁ ↦ .bind fun value D₂ h₂ ↦ .bind fun others D₃ h₃ ↦ .pure ?_
    rw [Expr.outlinesOfPairs]
    exact ((compound_accounts env k D _ _ h₁).seq (compound_accounts env v D₁ _ _ h₂)).seq
      (pairList_accounts env ps D₂ _ _ h₃)

theorem lambda_accounts (env : Enclosing) (isFn : Bool) : ∀ (l : Lambda) (D : List String),
    Accounts guarded env D (lambda env isFn l D) LambdaDef.outline
  | ⟨span, params, options, restOptions, body⟩, D => by
    rw [lambda]
    refine .bind fun defaults D₁ h₁ ↦ ?_
    dsimp only
    split
    · exact .fail
    · refine .bind fun outside D₂ h₂ ↦ .bind fun _ D₃ h₃ ↦ .bind fun inside D₄ h₄ ↦
        .bind fun _ D₅ h₅ ↦ .pure ?_
      cases h₂
      cases h₃
      cases h₅
      have hinside := chunk_accounts _ body _ _ _ h₄
      have hbody : Accounted guarded { env with lambdas := D₁ :: env.lambdas }
          (params.map (·.name) ++ options.map (·.1) ++ restOptions.toList)
          (if isFn = true then Op.fnBody inside else inside).outline D₄ := by
        split
        · rw [Op.outline]
          exact hinside.loose
        · exact hinside
      rw [LambdaDef.outline, defaultList_names h₁]
      exact (defaultList_accounts env options D _ _ h₁).seq hbody.own

theorem defaultList_accounts (env : Enclosing) :
    ∀ (options : List (String × Compound)) (D : List String),
      Accounts guarded env D (defaultList env options D) Expr.outlinesOfDefaults
  | [], D => by
    rw [defaultList]
    refine .pure ?_
    rw [Expr.outlinesOfDefaults]
    exact .nothing
  | (name, w) :: options, D => by
    rw [defaultList]
    refine .bind fun e D₁ h₁ ↦ .bind fun others D₂ h₂ ↦ .pure ?_
    rw [Expr.outlinesOfDefaults]
    exact (compound_accounts env w D _ _ h₁).seq (defaultList_accounts env options D₁ _ _ h₂)

theorem written_accounts (env : Enclosing) (isFn : Bool) : ∀ (w : Compound) (D : List String),
    Accounts guarded env D (written env isFn w D) LambdaDef.outline
  | ⟨_, [⟨_, .lambda l, []⟩]⟩, D => lambda_accounts env isFn l D
  | ⟨_, []⟩, D | ⟨_, _ :: _ :: _⟩, D | ⟨_, [⟨_, .lambda _, _ :: _⟩]⟩, D
  | ⟨_, [⟨_, .bareword _, _⟩]⟩, D | ⟨_, [⟨_, .quoted _, _⟩]⟩, D | ⟨_, [⟨_, .variable _ _, _⟩]⟩, D
  | ⟨_, [⟨_, .capture _, _⟩]⟩, D | ⟨_, [⟨_, .list _, _⟩]⟩, D | ⟨_, [⟨_, .map _, _⟩]⟩, D => by
    rw [written]
    · exact .fail
    · rintro _ _ _ ⟨⟩

theorem words_accounts (env : Enclosing) : ∀ (items : List Item) (D : List String),
    Accounts guarded env D (words env items D) Expr.outlines
  | [], D => by
    rw [words]
    refine .pure ?_
    rw [Expr.outlines]
    exact .nothing
  | .arg w :: items, D => by
    rw [words]
    refine .bind fun e D₁ h₁ ↦ .bind fun es D₂ h₂ ↦ .pure ?_
    rw [Expr.outlines]
    exact (compound_accounts env w D _ _ h₁).seq (words_accounts env items D₁ _ _ h₂)
  | .opt _ _ _ :: items, D => words_accounts env items D
  | .eq _ :: items, D => words_accounts env items D

theorem words_accounts_logic (env : Enclosing) : ∀ (items : List Item) (D : List String),
    Accounts guarded env D (words env items D) Expr.outlinesOfLogic
  | [], D => by
    rw [words]
    refine .pure ?_
    rw [Expr.outlinesOfLogic]
    exact .nothing
  | .arg w :: items, D => by
    rw [words]
    refine .bind fun e D₁ h₁ ↦ .bind fun es D₂ h₂ ↦ .pure ?_
    rw [Expr.outlinesOfLogic]
    exact (compound_accounts env w D _ _ h₁).seq (words_accounts_logic env items D₁ _ _ h₂).loose
  | .opt _ _ _ :: items, D => words_accounts_logic env items D
  | .eq _ :: items, D => words_accounts_logic env items D

theorem wordsBehindEq_accounts (env : Enclosing) : ∀ (items : List Item) (D : List String),
    Accounts guarded env D (wordsBehindEq env items D) Expr.outlines
  | [], D => by
    rw [wordsBehindEq]
    refine .pure ?_
    rw [Expr.outlines]
    exact .nothing
  | .eq _ :: items, D => words_accounts env items D
  | .arg _ :: items, D => wordsBehindEq_accounts env items D
  | .opt _ _ _ :: items, D => wordsBehindEq_accounts env items D

theorem places_accounts (env : Enclosing) : ∀ (items : List Item) (D : List String),
    Accounts guarded env D (places env items D) Place.outlines
  | [], D => by
    rw [places]
    refine .pure ?_
    rw [Place.outlines]
    exact .nothing
  | .eq _ :: _, D => by
    rw [places]
    refine .pure ?_
    rw [Place.outlines]
    exact .nothing
  | .arg w :: items, D => by
    rw [places]
    refine .bind fun p D₁ h₁ ↦ .bind fun ps D₂ h₂ ↦ .pure ?_
    rw [Place.outlines]
    exact (place_accounts env w D _ _ h₁).seq (places_accounts env items D₁ _ _ h₂)
  | .opt _ _ _ :: items, D => places_accounts env items D

theorem place_accounts (env : Enclosing) : ∀ (w : Compound) (D : List String),
    Accounts guarded env D (place env w D) Place.outline
  | ⟨span, [⟨_, .bareword word, indices⟩]⟩, D => by
    rw [place]
    refine .bind fun _ D₁ h₁ ↦ .bind fun es D₂ h₂ ↦ .pure ?_
    rw [Place.outline]
    exact (checkVar_accounts plain _ _ h₁).seq (placeKeys_accounts env span indices D₁ _ _ h₂)
  | ⟨_, []⟩, D | ⟨_, _ :: _ :: _⟩, D | ⟨_, [⟨_, .lambda _, _⟩]⟩, D | ⟨_, [⟨_, .quoted _, _⟩]⟩, D
  | ⟨_, [⟨_, .variable _ _, _⟩]⟩, D | ⟨_, [⟨_, .capture _, _⟩]⟩, D | ⟨_, [⟨_, .list _, _⟩]⟩, D
  | ⟨_, [⟨_, .map _, _⟩]⟩, D => by
    rw [place]
    · exact .fail
    · rintro _ _ _ _ ⟨⟩

theorem placeKeys_accounts (env : Enclosing) (span : Span) :
    ∀ (indices : List (List Compound)) (D : List String),
      Accounts guarded env D (placeKeys env span indices D) Expr.outlines
  | [], D => by
    rw [placeKeys]
    refine .pure ?_
    rw [Expr.outlines]
    exact .nothing
  | [key] :: rest, D => by
    rw [placeKeys]
    refine .bind fun e D₁ h₁ ↦ .bind fun es D₂ h₂ ↦ .pure ?_
    rw [Expr.outlines]
    exact (compound_accounts env key D _ _ h₁).seq (placeKeys_accounts env span rest D₁ _ _ h₂)
  | [] :: _, D | (_ :: _ :: _) :: _, D => by
    rw [placeKeys]
    · exact .fail
    · rintro _ ⟨⟩

theorem deletions_accounts (env : Enclosing) : ∀ (items : List Item) (D : List String),
    Accounts guarded env D (deletions env items D) Op.outlines
  | [], D => by
    rw [deletions]
    refine .pure ?_
    rw [Op.outlines]
    exact .nothing
  | .arg w :: items, D => by
    rw [deletions]
    refine .bind fun p D₁ h₁ ↦ ?_
    have hp := place_accounts env w D _ _ h₁
    match p with
    | .mk name [] =>
      refine .bind fun declared D₂ h₂ ↦ .bind fun _ D₃ h₃ ↦ ?_
      cases h₂
      cases h₃
      split
      · refine .bind fun ops D₄ h₄ ↦ .pure ?_
        rw [Op.outlines, Op.outline, Place.removal]
        exact (hp.seq .forgets).form.seq (deletions_accounts env items _ _ _ h₄)
      · exact .bind fun _ D₄ h₄ ↦ by cases h₄
    | .mk name (index :: indices) =>
      refine .bind fun ops D₄ h₄ ↦ .pure ?_
      rw [Op.outlines, Op.outline]
      exact (hp.seq .nothing).form.seq (deletions_accounts env items _ _ _ h₄)
  | .opt _ _ _ :: items, D => deletions_accounts env items D
  | .eq _ :: items, D => deletions_accounts env items D

theorem fnForm_accounts (env : Enclosing) (span : Span) : ∀ (items : List Item) (D : List String),
    Accounts guarded env D (fnForm env span items D) Op.outline
  | [.arg name, .arg word], D => by
    rw [fnForm]
    refine .bindLeaves leaves_bareword fun var ↦ .bind fun _ D₁ h₁ ↦ .bind fun l D₂ h₂ ↦ .pure ?_
    cases h₁
    rw [Op.outline]
    exact (Accounted.declares.seq (written_accounts env true word _ _ _ h₂)).form
  | [], D | .opt _ _ _ :: _, D | .eq _ :: _, D | [.arg _], D | .arg _ :: .opt _ _ _ :: _, D
  | .arg _ :: .eq _ :: _, D | .arg _ :: .arg _ :: _ :: _, D => by
    rw [fnForm]
    · exact .fail
    · rintro _ _ ⟨⟩

theorem branchList_accounts (env : Enclosing) (span : Span) :
    ∀ (items : List Item) (D : List String),
      Accounts guarded env D (branchList env span items D) fun x ↦
        .seq (Expr.outlinesOfBranches x.1) (Expr.outlineOfOptional x.2)
  | .arg c :: .arg b :: items, D => by
    rw [branchList]
    refine .bind fun cond D₁ h₁ ↦ .bind fun inside D₂ h₂ ↦ .bind fun x D₃ h₃ ↦ .pure ?_
    dsimp only
    rw [Expr.outlinesOfBranches, Expr.outline]
    refine ((compound_accounts env c D _ _ h₁).seq ?_).assoc_symm
    refine ((written_accounts env false b D₁ _ _ h₂).loose.seq ?_).assoc_symm
    exact (moreBranches_accounts env span items D₂ _ _ h₃).loose_left
  | [], D | .opt _ _ _ :: _, D | .eq _ :: _, D | [.arg _], D | .arg _ :: .opt _ _ _ :: _, D
  | .arg _ :: .eq _ :: _, D => by
    rw [branchList]
    · exact .fail
    · rintro _ _ _ ⟨⟩

theorem moreBranches_accounts (env : Enclosing) (span : Span) :
    ∀ (items : List Item) (D : List String),
      Accounts guarded env D (moreBranches env span items D) fun x ↦
        .seq (Expr.outlinesOfBranches x.1) (Expr.outlineOfOptional x.2)
  | .arg keyword :: items, D => by
    rw [moreBranches]
    generalize keyword.bareword? = name
    split
    · exact branchList_accounts env span items D
    · refine .bind fun e D₁ h ↦ .pure ?_
      dsimp only
      rw [Expr.outlinesOfBranches, Expr.outlineOfOptional]
      exact (elseBody_accounts env keyword.span .noElifOrElse items D _ _ h).loose.nothing_seq
    · exact .fail
  | [], D | .opt _ _ _ :: _, D | .eq _ :: _, D => by
    rw [moreBranches]
    · refine .pure ?_
      dsimp only
      rw [Expr.outlinesOfBranches, Expr.outlineOfOptional]
      exact .seq .nothing .nothing
    · rintro _ _ ⟨⟩

theorem elseBody_accounts (env : Enclosing) (span : Span) (fault : CompileFault) :
    ∀ (items : List Item) (D : List String),
      Accounts guarded env D (elseBody env span fault items D) Expr.outline
  | [.arg b], D => by
    rw [elseBody]
    refine .bind fun inside D₁ h ↦ .pure ?_
    rw [Expr.outline]
    exact written_accounts env false b D _ _ h
  | [], D | .opt _ _ _ :: _, D | .eq _ :: _, D | .arg _ :: _ :: _, D => by
    rw [elseBody]
    · exact .fail
    · rintro _ ⟨⟩

theorem elseClause_accounts (env : Enclosing) : ∀ (items : List Item) (D : List String),
    Accounts guarded env D (elseClause env items D) Expr.outlineOfOptional
  | .arg keyword :: items, D => by
    rw [elseClause]
    split
    · refine .bind fun e D₁ h ↦ .pure ?_
      rw [Expr.outlineOfOptional]
      exact (elseBody_accounts env keyword.span .noElse items D _ _ h).loose
    · exact .fail
  | [], D | .opt _ _ _ :: _, D | .eq _ :: _, D => by
    rw [elseClause]
    · refine .pure ?_
      rw [Expr.outlineOfOptional]
      exact .nothing
    · rintro _ _ ⟨⟩

theorem whileForm_accounts (env : Enclosing) (span : Span) :
    ∀ (items : List Item) (D : List String),
      Accounts guarded env D (whileForm env span items D) Op.outline
  | .arg c :: .arg b :: items, D => by
    rw [whileForm]
    refine .bind fun cond D₁ h₁ ↦ .bind fun inside D₂ h₂ ↦ .bind fun otherwise D₃ h₃ ↦ .pure ?_
    rw [Op.outline, Expr.outline]
    -- the body runs before the condition is known to be evaluated again
    have hswap := (compound_accounts env c D _ _ h₁).swap (written_accounts env false b D₁ _ _ h₂)
    exact (hswap.seq (elseClause_accounts env items D₂ _ _ h₃)).assoc.form
  | [], D | .opt _ _ _ :: _, D | .eq _ :: _, D | [.arg _], D | .arg _ :: .opt _ _ _ :: _, D
  | .arg _ :: .eq _ :: _, D => by
    rw [whileForm]
    · exact .fail
    · rintro _ _ _ ⟨⟩

theorem forForm_accounts (env : Enclosing) (span : Span) :
    ∀ (items : List Item) (D : List String),
      Accounts guarded env D (forForm env span items D) Op.outline
  | .arg v :: .arg i :: .arg b :: items, D => by
    rw [forForm]
    refine .bindLeaves leaves_bareword fun var ↦ .bind fun iterable D₁ h₁ ↦ ?_
    refine .bind fun _ D₂ h₂ ↦ .bind fun inside D₃ h₃ ↦ .bind fun otherwise D₄ h₄ ↦ .pure ?_
    cases h₂
    rw [Op.outline, Expr.outline]
    refine Accounted.form ?_
    refine (compound_accounts env i D _ _ h₁).seq (Accounted.declares.seq ?_)
    exact (written_accounts env false b _ _ _ h₃).seq (elseClause_accounts env items D₃ _ _ h₄)
  | [], D | .opt _ _ _ :: _, D | .eq _ :: _, D | [.arg _], D | .arg _ :: .opt _ _ _ :: _, D
  | .arg _ :: .eq _ :: _, D | [.arg _, .arg _], D | .arg _ :: .arg _ :: .opt _ _ _ :: _, D
  | .arg _ :: .arg _ :: .eq _ :: _, D => by
    rw [forForm]
    · exact .fail
    · rintro _ _ _ _ ⟨⟩

theorem tryForm_accounts (env : Enclosing) (span : Span) :
    ∀ (items : List Item) (D : List String),
      Accounts guarded env D (tryForm env span items D) Op.outline
  | .arg b :: items, D => by
    rw [tryForm]
    refine .bind fun inside D₁ h₁ ↦ .bind fun x D₂ h₂ ↦ .pure ?_
    rw [Op.outline, Expr.outline]
    exact ((written_accounts env false b D _ _ h₁).loose.seq
      (tryClauses_accounts env items D₁ _ _ h₂)).form
  | [], D | .opt _ _ _ :: _, D | .eq _ :: _, D => by
    rw [tryForm]
    · exact .fail
    · rintro _ _ ⟨⟩

theorem tryClauses_accounts (env : Enclosing) : ∀ (items : List Item) (D : List String),
    Accounts guarded env D (tryClauses env items D) fun x ↦
      .seq (Expr.outlineOfHandler x.1)
        (.seq (Expr.outlineOfOptional x.2.1) (Op.outlineOfLast x.2.2))
  | [.arg keyword], D => by
    rw [tryClauses]
    split
    · exact .fail
    · exact .fail
  | .arg keyword :: .arg w :: items, D => by
    rw [tryClauses]
    generalize keyword.bareword? = name
    split
    · split
      · refine .bind fun inside D₁ h₁ ↦ .bind fun x D₂ h₂ ↦ .pure ?_
        dsimp only
        rw [Expr.outlineOfHandler, Expr.outline]
        exact (written_accounts env false w D _ _ h₁).loose.seq
          (afterCatch_accounts env items D₁ _ _ h₂)
      · exact .bind fun x D₁ h ↦ .pure (namedCatch_accounts env keyword.span w items D _ _ h)
    · refine .bind fun inside D₁ h₁ ↦ .bind fun last D₂ h₂ ↦ .pure ?_
      dsimp only
      rw [Expr.outlineOfHandler, Expr.outlineOfOptional, Expr.outline]
      exact ((written_accounts env false w D _ _ h₁).loose.seq
        (afterElse_accounts env items D₁ _ _ h₂)).nothing_seq
    · refine .bind fun inside D₁ h₁ ↦ .bindLeaves leaves_endTry fun _ ↦ .pure ?_
      dsimp only
      rw [Expr.outlineOfHandler, Expr.outlineOfOptional, Op.outlineOfLast, Expr.outline]
      exact (written_accounts env false w D _ _ h₁).nothing_seq.nothing_seq
    · exact .fail
  | [], D | .opt _ _ _ :: _, D | .eq _ :: _, D | .arg _ :: .opt _ _ _ :: _, D
  | .arg _ :: .eq _ :: _, D => by
    rw [tryClauses]
    · refine .pure ?_
      dsimp only
      rw [Expr.outlineOfHandler, Expr.outlineOfOptional, Op.outlineOfLast]
      exact Accounted.nothing.nothing_seq.nothing_seq
    · rintro _ ⟨⟩
    · rintro _ _ _ ⟨⟩

theorem namedCatch_accounts (env : Enclosing) (span : Span) (name : Compound) :
    ∀ (items : List Item) (D : List String),
      Accounts guarded env D (namedCatch env span name items D) fun x ↦
        .seq (Expr.outlineOfHandler (some x.1))
          (.seq (Expr.outlineOfOptional x.2.1) (Op.outlineOfLast x.2.2))
  | .arg b :: items, D => by
    rw [namedCatch]
    refine .bindLeaves leaves_bareword fun var ↦ .bind fun _ D₁ h₁ ↦ ?_
    refine .bind fun inside D₂ h₂ ↦ .bind fun x D₃ h₃ ↦ .pure ?_
    cases h₁
    dsimp only
    rw [Expr.outlineOfHandler, Expr.outline]
    exact (Accounted.declares.seq (written_accounts env false b _ _ _ h₂)).loose.seq
      (afterCatch_accounts env items D₂ _ _ h₃)
  | [], D | .opt _ _ _ :: _, D | .eq _ :: _, D => by
    rw [namedCatch]
    · exact .fail
    · rintro _ _ ⟨⟩

theorem afterCatch_accounts (env : Enclosing) : ∀ (items : List Item) (D : List String),
    Accounts guarded env D (afterCatch env items D) fun x ↦
      .seq (Expr.outlineOfOptional x.1) (Op.outlineOfLast x.2)
  | [.arg keyword], D => by
    rw [afterCatch]
    exact .fail
  | .arg keyword :: .arg w :: items, D => by
    rw [afterCatch]
    generalize keyword.bareword? = name
    split
    · refine .bind fun inside D₁ h₁ ↦ .bind fun last D₂ h₂ ↦ .pure ?_
      dsimp only
      rw [Expr.outlineOfOptional, Expr.outline]
      exact (written_accounts env false w D _ _ h₁).loose.seq (afterElse_accounts env items D₁ _ _ h₂)
    · refine .bind fun inside D₁ h₁ ↦ .bindLeaves leaves_endTry fun _ ↦ .pure ?_
      dsimp only
      rw [Expr.outlineOfOptional, Op.outlineOfLast, Expr.outline]
      exact (written_accounts env false w D _ _ h₁).nothing_seq
    · exact .fail
  | [], D | .opt _ _ _ :: _, D | .eq _ :: _, D | .arg _ :: .opt _ _ _ :: _, D
  | .arg _ :: .eq _ :: _, D => by
    rw [afterCatch]
    · refine .pure ?_
      dsimp only
      rw [Expr.outlineOfOptional, Op.outlineOfLast]
      exact Accounted.nothing.nothing_seq
    · rintro _ ⟨⟩
    · rintro _ _ _ ⟨⟩

theorem afterElse_accounts (env : Enclosing) : ∀ (items : List Item) (D : List String),
    Accounts guarded env D (afterElse env items D) Op.outlineOfLast
  | [.arg keyword], D => by
    rw [afterElse]
    exact .fail
  | .arg keyword :: .arg w :: items, D => by
    rw [afterElse]
    split
    · refine .bind fun inside D₁ h₁ ↦ .bindLeaves leaves_endTry fun _ ↦ .pure ?_
      rw [Op.outlineOfLast, Expr.outline]
      exact written_accounts env false w D _ _ h₁
    · exact .fail
  | [], D | .opt _ _ _ :: _, D | .eq _ :: _, D | .arg _ :: .opt _ _ _ :: _, D
  | .arg _ :: .eq _ :: _, D => by
    rw [afterElse]
    · refine .pure ?_
      rw [Op.outlineOfLast]
      exact .nothing
    · rintro _ ⟨⟩
    · rintro _ _ _ ⟨⟩

end

end Lowering

/-! ## Scripts -/

/-- **Code that the check accepts is accounted for** from the start, when nothing is declared. -/
theorem Chunk.lower_accounted {guarded : String → Prop} {source : Source} {scope : Scope} {tree : Chunk}
    {op : Op} (plain : ∀ {x}, guarded x → Name.isQualified x = false)
    (h : tree.lower source scope = .ok op) :
    ∃ D, Lowering.Accounted guarded ⟨source, scope, []⟩ [] op.outline D := by
  rw [Chunk.lower] at h
  split at h
  · rename_i op' D hop
    cases h
    exact ⟨D, Lowering.chunk_accounts plain _ tree [] _ _ hop⟩
  · cases h

variable {source : Source} {scope : Scope} {op : Op}

theorem compile_accounted {guarded : String → Prop}
    (plain : ∀ {x}, guarded x → Name.isQualified x = false) (h : compile source scope = .ok op) :
    ∃ D, Lowering.Accounted guarded ⟨source, scope, []⟩ [] op.outline D := by
  rw [compile] at h
  split at h
  · cases h
  · rename_i tree _
    split at h
    · cases h
    · rename_i hop
      cases h
      exact tree.lower_accounted plain hop

/-- All forms of a script stand in its source. -/
theorem compile_sites (h : compile source scope = .ok op) :
    ∀ site ∈ op.outline.sites, site.source = source := by
  obtain ⟨D, hop⟩ := @compile_accounted source scope op (fun _ ↦ False) False.elim h
  exact hop.sites

/-- Where all names of the scope are there, so are all names that a script refers to and that are not
doubtful. -/
theorem compile_clear (h : compile source scope = .ok op) {visible : List String}
    (hv : ∀ x, scope.has x = true → x ∈ visible) :
    op.outline.Clear (fun x ↦ Name.isQualified x = false ∧ x ∉ op.outline.doubtful) visible := by
  obtain ⟨D, hop⟩ := @compile_accounted source scope op
    (fun x ↦ Name.isQualified x = false ∧ x ∉ op.outline.doubtful) And.left h
  refine hop.clear (fun x hx hg ↦ hg.2 hx) visible fun x _ hx ↦ ?_
  rcases hx with hx | ⟨names, hnames, -⟩ | hx
  · cases hx
  · cases hnames
  · exact hv x hx

end ValueShell
