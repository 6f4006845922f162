import ValueShell.Proofs.Widening

/-!
# More names never make code fail the static check

The walk of the compiler for two scopes at once, one of which holds all names of the other.  The names declared
so far are the same in both runs, also where a form takes some away again, so what can be seen in the first is
seen in the second.  That is all the check asks: no check succeeds because a name is missing.  There is one
lemma for each function of the walk, and `Chunk.lower_widens` is what they are for.
-/

set_option autoImplicit false

namespace ValueShell

namespace Lowering

variable {source : Source} {A B : Scope} (lambdas : List (List String)) {span : Span} {items : List Item}

/-! ## Pieces -/

theorem widensTo_joinParts {es es' : List Expr} (h : Expr.AllWiden source es es') :
    (joinParts es).WidensTo source (joinParts es') := by
  match es, es', h with
  | [], [], _ => simp [joinParts]
  | [e], [e'], h => simpa [joinParts] using h
  | e₁ :: e₂ :: es, e₁' :: e₂' :: es', h => simpa [joinParts] using h
  | [], _ :: _, h | _ :: _, [], h | [_], _ :: _ :: _, h | _ :: _ :: _, [_], h => simp at h

/-- What a command word refers to in two scopes. -/
def CommandWidens : Name.Command → Name.Command → Prop
  | .function var, command => command = .function var
  | .external program, command => command = .external program ∨ command = .function (Name.function program)
  | .unbound _, _ => True

theorem useForm_widens : Simulates (useForm ⟨source, A, lambdas⟩ span items)
    (useForm ⟨source, B, lambdas⟩ span items) (Op.WidensTo source) := by
  unfold useForm
  split
  · rename_i word items
    refine .after fun given ↦ ?_
    cases word.literal? with
    | none => exact .fail
    | some spec => exact .after fun name ↦ .after fun _ ↦ .pure (by simp [site])
  · exact .fail

theorem varForm_widens {values values' : Lower (List Expr)}
    (h : Simulates values values' (Expr.AllWiden source)) :
    Simulates (varForm ⟨source, A, lambdas⟩ span items values)
      (varForm ⟨source, B, lambdas⟩ span items values') (Op.WidensTo source) := by
  unfold varForm
  generalize splitEq items = parts
  obtain ⟨left, right⟩ := parts
  refine .after fun _ ↦ ?_
  split
  · exact .fail
  · refine .after fun targets ↦ .after fun _ ↦ .after fun _ ↦ .bind h fun values values' hvalues ↦ ?_
    refine .after fun _ ↦ .pure ?_
    cases right <;> simp [site, hvalues]

theorem setForm_widens {values values' : Lower (List Expr)} {places places' : Lower (List Place)}
    (hvalues : Simulates values values' (Expr.AllWiden source))
    (hplaces : Simulates places places' (Place.AllWiden source)) :
    Simulates (setForm ⟨source, A, lambdas⟩ span items values places)
      (setForm ⟨source, B, lambdas⟩ span items values' places') (Op.WidensTo source) := by
  unfold setForm
  generalize splitEq items = parts
  obtain ⟨left, right⟩ := parts
  cases right with
  | none => exact .fail
  | some right =>
    refine .after fun _ ↦ ?_
    split
    · exact .fail
    · refine .after fun _ ↦ .bind hvalues fun vs vs' hvs ↦ .after fun targets ↦ ?_
      refine .bind hplaces fun ps ps' hps ↦ .pure ?_
      simp [site, hps, hvs]

theorem delForm_widens {removals removals' : Lower (List Op)}
    (h : Simulates removals removals' (Op.AllWiden source)) :
    Simulates (delForm span items removals) (delForm span items removals') (Op.WidensTo source) := by
  refine .after fun x ↦ ?_
  dsimp only
  split
  · exact .fail
  · refine .bind h fun ops ops' hops ↦ .pure ?_
    simpa using hops

variable (hAB : A.Within B)

include hAB in
/-- What can be seen in the smaller scope can be seen in the larger one. -/
theorem has_widens (name : String) : Simulates (has ⟨source, A, lambdas⟩ name)
    (has ⟨source, B, lambdas⟩ name) fun found found' ↦ found = true → found' = true := by
  refine .after fun declared ↦ .pure fun hfound ↦ ?_
  rw [Bool.or_eq_true] at hfound ⊢
  exact hfound.imp_right hAB.has

include hAB in
theorem checkVar_widens (span : Span) (name : String) : Simulates (checkVar ⟨source, A, lambdas⟩ span name)
    (checkVar ⟨source, B, lambdas⟩ span name) Eq :=
  .bind (has_widens lambdas hAB (Name.root name)) fun _ _ hfound ↦ .guard hfound .same fun _ ↦ .fail

include hAB in
theorem command_widens (name : String) : Simulates (Name.command name (has ⟨source, A, lambdas⟩))
    (Name.command name (has ⟨source, B, lambdas⟩)) CommandWidens := by
  unfold Name.command
  split
  · exact .pure (.inl rfl)
  · split
    · refine .bind (has_widens lambdas hAB _) fun found found' hfound ↦ .pure ?_
      cases found with
      | false => exact trivial
      | true => rw [hfound rfl]; rfl
    · refine .bind (has_widens lambdas hAB _) fun found found' hfound ↦ .pure ?_
      cases found with
      | false => cases found' <;> simp [CommandWidens]
      | true => rw [hfound rfl]; rfl

/-! ## The walk -/

mutual

theorem chunk_widens (h : A.Within B) (ls : List (List String)) : ∀ c : Chunk,
    Simulates (chunk ⟨source, A, ls⟩ c) (chunk ⟨source, B, ls⟩ c) (Op.WidensTo source)
  | ⟨pipelines⟩ => by
    rw [chunk, chunk]
    refine .bind (pipelineList_widens h ls pipelines) fun ops ops' hops ↦ .pure ?_
    simpa using hops

theorem pipelineList_widens (h : A.Within B) (ls : List (List String)) : ∀ ps : List Pipeline,
    Simulates (pipelineList ⟨source, A, ls⟩ ps) (pipelineList ⟨source, B, ls⟩ ps)
      (Op.AllWiden source)
  | [] => by
    rw [pipelineList, pipelineList]
    exact .pure (by simp)
  | p :: ps => by
    rw [pipelineList, pipelineList]
    refine .bind (pipeline_widens h ls p) fun op op' hop ↦ ?_
    refine .bind (pipelineList_widens h ls ps) fun ops ops' hops ↦ .pure ?_
    simp [hop, hops]

theorem pipeline_widens (h : A.Within B) (ls : List (List String)) : ∀ p : Pipeline,
    Simulates (pipeline ⟨source, A, ls⟩ p) (pipeline ⟨source, B, ls⟩ p) (Op.WidensTo source)
  | ⟨_, [f]⟩ => by
    rw [pipeline, pipeline]
    exact form_widens h ls f
  | ⟨span, []⟩ => by
    simp only [pipeline]
    refine .bind (formList_widens h ls []) fun ops ops' hops ↦ .pure ?_
    simp [site, hops]
  | ⟨span, f :: g :: fs⟩ => by
    simp only [pipeline]
    refine .bind (formList_widens h ls (f :: g :: fs)) fun ops ops' hops ↦ .pure ?_
    simp [site, hops]

theorem formList_widens (h : A.Within B) (ls : List (List String)) : ∀ fs : List Form,
    Simulates (formList ⟨source, A, ls⟩ fs) (formList ⟨source, B, ls⟩ fs) (Op.AllWiden source)
  | [] => by
    rw [formList, formList]
    exact .pure (by simp)
  | f :: fs => by
    rw [formList, formList]
    refine .bind (form_widens h ls f) fun op op' hop ↦ ?_
    refine .bind (formList_widens h ls fs) fun ops ops' hops ↦ .pure ?_
    simp [hop, hops]

theorem form_widens (h : A.Within B) (ls : List (List String)) : ∀ f : Form,
    Simulates (form ⟨source, A, ls⟩ f) (form ⟨source, B, ls⟩ f) (Op.WidensTo source)
  | ⟨span, head, items, redirs⟩ => by
    unfold form
    generalize head.bareword?.filter Name.isSpecial = special
    split
    · exact .fail
    · exact varForm_widens ls (wordsBehindEq_widens h ls items)
    · exact setForm_widens ls (wordsBehindEq_widens h ls items) (places_widens h ls items)
    · refine .after fun _ ↦ ?_
      split
      · exact delForm_widens (deletions_widens h ls items)
      · exact fnForm_widens h ls span items
      · exact useForm_widens ls
      · refine .bind (branchList_widens h ls span items) fun x x' hx ↦ .pure ?_
        simp [site, hx]
      · exact whileForm_widens h ls span items
      · exact forForm_widens h ls span items
      · exact tryForm_widens h ls span items
      · refine .bind (words_widens h ls items) fun args args' hargs ↦ .pure ?_
        simp [site, hargs]
      · refine .bind (words_widens h ls items) fun args args' hargs ↦ .pure ?_
        simp [site, hargs]
    · refine .bind (commandHead_widens h ls head) fun hd hd' hhd ↦ ?_
      refine .bind (arguments_widens h ls items) fun x x' hx ↦ ?_
      refine .bind (redirects_widens h ls redirs) fun rs rs' hrs ↦ .pure ?_
      simp [site, hhd, hx, hrs]

theorem commandHead_widens (h : A.Within B) (ls : List (List String)) : ∀ w : Compound,
    Simulates (commandHead ⟨source, A, ls⟩ w) (commandHead ⟨source, B, ls⟩ w)
      (Head.WidensTo source)
  | ⟨span, parts⟩ => by
    rw [commandHead, commandHead]
    generalize Compound.literal? ⟨span, parts⟩ = literal
    cases literal with
    | none =>
      refine .bind (indexedList_widens h ls parts) fun es es' hes ↦ .pure ?_
      rw [Head.WidensTo]
      exact widensTo_joinParts hes
    | some name =>
      refine .bind (command_widens ls h name) fun command command' hcommand ↦ ?_
      cases command with
      | function var =>
        obtain rfl := hcommand
        exact .pure (by simp)
      | external program =>
        rcases hcommand with rfl | rfl
        · exact .pure (by simp)
        · exact .pure (by simp)
      | unbound var => exact .fail

theorem arguments_widens (h : A.Within B) (ls : List (List String)) : ∀ items : List Item,
    Simulates (arguments ⟨source, A, ls⟩ items) (arguments ⟨source, B, ls⟩ items) fun x x' ↦
      Expr.AllWiden source x.1 x'.1 ∧ Expr.OptionsWiden source x.2 x'.2
  | [] => by
    rw [arguments, arguments]
    exact .pure ⟨by simp, by simp⟩
  | .arg word :: items => by
    rw [arguments, arguments]
    refine .bind (compound_widens h ls word) fun e e' he ↦ ?_
    refine .bind (arguments_widens h ls items) fun x x' hx ↦ .pure ?_
    simp [he, hx]
  | .opt _ name none :: items => by
    rw [arguments, arguments]
    refine .bind (arguments_widens h ls items) fun x x' hx ↦ .pure ?_
    simp [hx]
  | .opt _ name (some word) :: items => by
    rw [arguments, arguments]
    refine .bind (compound_widens h ls word) fun e e' he ↦ ?_
    refine .bind (arguments_widens h ls items) fun x x' hx ↦ .pure ?_
    simp [he, hx]
  | .eq _ :: items => by
    rw [arguments, arguments]
    refine .bind (arguments_widens h ls items) fun x x' hx ↦ .pure ?_
    simp [hx]

theorem redirects_widens (h : A.Within B) (ls : List (List String)) : ∀ redirs : List Redir,
    Simulates (redirects ⟨source, A, ls⟩ redirs) (redirects ⟨source, B, ls⟩ redirs) (Redirect.AllWiden source)
  | [] => by
    rw [redirects, redirects]
    exact .pure (by simp)
  | ⟨_, fd, .dup target, _⟩ :: redirs => by
    rw [redirects, redirects]
    refine .bind (redirects_widens h ls redirs) fun rs rs' hrs ↦ .pure ?_
    simpa using hrs
  | ⟨span, _, .write, none⟩ :: _ | ⟨span, _, .append, none⟩ :: _ => by
    rw [redirects]
    · exact .fail
    · rintro _ ⟨⟩
  | ⟨_, fd, .write, some word⟩ :: redirs | ⟨_, fd, .append, some word⟩ :: redirs => by
    rw [redirects, redirects]
    · refine .bind (compound_widens h ls word) fun path path' hpath ↦ ?_
      refine .bind (redirects_widens h ls redirs) fun rs rs' hrs ↦ .pure ?_
      simp [hpath, hrs]
    · rintro _ ⟨⟩
    · rintro _ ⟨⟩

theorem compound_widens (h : A.Within B) (ls : List (List String)) : ∀ w : Compound,
    Simulates (compound ⟨source, A, ls⟩ w) (compound ⟨source, B, ls⟩ w) (Expr.WidensTo source)
  | ⟨_, parts⟩ => by
    rw [compound, compound]
    exact .bind (indexedList_widens h ls parts) fun es es' hes ↦ .pure (widensTo_joinParts hes)

theorem indexedList_widens (h : A.Within B) (ls : List (List String)) : ∀ parts : List Indexed,
    Simulates (indexedList ⟨source, A, ls⟩ parts) (indexedList ⟨source, B, ls⟩ parts) (Expr.AllWiden source)
  | [] => by
    rw [indexedList, indexedList]
    exact .pure (by simp)
  | part :: parts => by
    rw [indexedList, indexedList]
    refine .bind (indexed_widens h ls part) fun e e' he ↦ ?_
    refine .bind (indexedList_widens h ls parts) fun es es' hes ↦ .pure ?_
    simp [he, hes]

theorem indexed_widens (h : A.Within B) (ls : List (List String)) : ∀ part : Indexed,
    Simulates (indexed ⟨source, A, ls⟩ part) (indexed ⟨source, B, ls⟩ part) (Expr.WidensTo source)
  | ⟨span, head, []⟩ => by
    rw [indexed, indexed]
    exact primary_widens h ls span head
  | ⟨span, head, index :: indices⟩ => by
    simp only [indexed]
    refine .bind (primary_widens h ls span head) fun e e' he ↦ ?_
    refine .bind (wordLists_widens h ls (index :: indices)) fun is is' his ↦ .pure ?_
    simp [he, his]

theorem wordLists_widens (h : A.Within B) (ls : List (List String)) : ∀ indices : List (List Compound),
    Simulates (wordLists ⟨source, A, ls⟩ indices) (wordLists ⟨source, B, ls⟩ indices) (Expr.ListsWiden source)
  | [] => by
    rw [wordLists, wordLists]
    exact .pure (by simp)
  | ws :: rest => by
    rw [wordLists, wordLists]
    refine .bind (compoundList_widens h ls ws) fun es es' hes ↦ ?_
    refine .bind (wordLists_widens h ls rest) fun is is' his ↦ .pure ?_
    simp [hes, his]

theorem compoundList_widens (h : A.Within B) (ls : List (List String)) : ∀ ws : List Compound,
    Simulates (compoundList ⟨source, A, ls⟩ ws) (compoundList ⟨source, B, ls⟩ ws) (Expr.AllWiden source)
  | [] => by
    rw [compoundList, compoundList]
    exact .pure (by simp)
  | w :: ws => by
    rw [compoundList, compoundList]
    refine .bind (compound_widens h ls w) fun e e' he ↦ ?_
    refine .bind (compoundList_widens h ls ws) fun es es' hes ↦ .pure ?_
    simp [he, hes]

theorem primary_widens (h : A.Within B) (ls : List (List String)) (span : Span) : ∀ p : Primary,
    Simulates (primary ⟨source, A, ls⟩ span p) (primary ⟨source, B, ls⟩ span p) (Expr.WidensTo source)
  | .bareword text | .quoted text => by
    rw [primary, primary]
    exact .pure (by simp)
  | .variable name explode => by
    rw [primary, primary]
    exact .bind (checkVar_widens ls h span name) fun _ _ _ ↦ .pure (by simp)
  | .capture inside => by
    rw [primary, primary]
    refine .bind (chunk_widens h ls inside) fun op op' hop ↦ .pure ?_
    simpa using hop
  | .list ws => by
    rw [primary, primary]
    refine .bind (compoundList_widens h ls ws) fun es es' hes ↦ .pure ?_
    simpa using hes
  | .map ps => by
    rw [primary, primary]
    refine .bind (pairList_widens h ls ps) fun es es' hes ↦ .pure ?_
    simpa using hes
  | .lambda l => by
    rw [primary, primary]
    refine .bind (lambda_widens h ls false l) fun e e' he ↦ .pure ?_
    simpa using he

theorem pairList_widens (h : A.Within B) (ls : List (List String)) : ∀ ps : List (Compound × Compound),
    Simulates (pairList ⟨source, A, ls⟩ ps) (pairList ⟨source, B, ls⟩ ps) (Expr.PairsWiden source)
  | [] => by
    rw [pairList, pairList]
    exact .pure (by simp)
  | (k, v) :: ps => by
    rw [pairList, pairList]
    refine .bind (compound_widens h ls k) fun key key' hkey ↦ ?_
    refine .bind (compound_widens h ls v) fun value value' hvalue ↦ ?_
    refine .bind (pairList_widens h ls ps) fun others others' hothers ↦ .pure ?_
    simp [hkey, hvalue, hothers]

theorem lambda_widens (h : A.Within B) (ls : List (List String)) (isFn : Bool) : ∀ l : Lambda,
    Simulates (lambda ⟨source, A, ls⟩ isFn l) (lambda ⟨source, B, ls⟩ isFn l) (LambdaDef.WidensTo source)
  | ⟨span, params, options, restOptions, body⟩ => by
    rw [lambda, lambda]
    refine .bind (defaultList_widens h ls options) fun defaults defaults' hdefaults ↦ ?_
    dsimp only
    split
    · exact .fail
    · -- both lambdas start with the same names, inside of the same names
      refine .after fun outside ↦ .after fun _ ↦ ?_
      refine .bind (chunk_widens h (outside :: ls) body) fun inside inside' hinside ↦ ?_
      refine .after fun _ ↦ .pure ?_
      cases isFn <;> simp [hdefaults, hinside]

theorem defaultList_widens (h : A.Within B) (ls : List (List String)) : ∀ options : List (String × Compound),
    Simulates (defaultList ⟨source, A, ls⟩ options) (defaultList ⟨source, B, ls⟩ options)
      (Expr.DefaultsWiden source)
  | [] => by
    rw [defaultList, defaultList]
    exact .pure (by simp)
  | (name, w) :: options => by
    rw [defaultList, defaultList]
    refine .bind (compound_widens h ls w) fun e e' he ↦ ?_
    refine .bind (defaultList_widens h ls options) fun others others' hothers ↦ .pure ?_
    simp [he, hothers]

theorem written_widens (h : A.Within B) (ls : List (List String)) (isFn : Bool) : ∀ w : Compound,
    Simulates (written ⟨source, A, ls⟩ isFn w) (written ⟨source, B, ls⟩ isFn w) (LambdaDef.WidensTo source)
  | ⟨_, [⟨_, .lambda l, []⟩]⟩ => by
    rw [written, written]
    exact lambda_widens h ls isFn l
  | ⟨_, []⟩ | ⟨_, _ :: _ :: _⟩ | ⟨_, [⟨_, .lambda _, _ :: _⟩]⟩ | ⟨_, [⟨_, .bareword _, _⟩]⟩
  | ⟨_, [⟨_, .quoted _, _⟩]⟩ | ⟨_, [⟨_, .variable _ _, _⟩]⟩ | ⟨_, [⟨_, .capture _, _⟩]⟩
  | ⟨_, [⟨_, .list _, _⟩]⟩ | ⟨_, [⟨_, .map _, _⟩]⟩ => by
    rw [written]
    · exact .fail
    · rintro _ _ _ ⟨⟩

theorem words_widens (h : A.Within B) (ls : List (List String)) : ∀ items : List Item,
    Simulates (words ⟨source, A, ls⟩ items) (words ⟨source, B, ls⟩ items) (Expr.AllWiden source)
  | [] => by
    rw [words, words]
    exact .pure (by simp)
  | .arg w :: items => by
    rw [words, words]
    refine .bind (compound_widens h ls w) fun e e' he ↦ ?_
    refine .bind (words_widens h ls items) fun es es' hes ↦ .pure ?_
    simp [he, hes]
  | .opt _ _ _ :: items | .eq _ :: items => words_widens h ls items

theorem wordsBehindEq_widens (h : A.Within B) (ls : List (List String)) : ∀ items : List Item,
    Simulates (wordsBehindEq ⟨source, A, ls⟩ items) (wordsBehindEq ⟨source, B, ls⟩ items) (Expr.AllWiden source)
  | [] => by
    rw [wordsBehindEq, wordsBehindEq]
    exact .pure (by simp)
  | .eq _ :: items => words_widens h ls items
  | .arg _ :: items | .opt _ _ _ :: items => wordsBehindEq_widens h ls items

theorem places_widens (h : A.Within B) (ls : List (List String)) : ∀ items : List Item,
    Simulates (places ⟨source, A, ls⟩ items) (places ⟨source, B, ls⟩ items) (Place.AllWiden source)
  | [] | .eq _ :: _ => by
    rw [places, places]
    exact .pure (by simp)
  | .arg w :: items => by
    rw [places, places]
    refine .bind (place_widens h ls w) fun p p' hp ↦ ?_
    refine .bind (places_widens h ls items) fun ps ps' hps ↦ .pure ?_
    simp [hp, hps]
  | .opt _ _ _ :: items => places_widens h ls items

theorem place_widens (h : A.Within B) (ls : List (List String)) : ∀ w : Compound,
    Simulates (place ⟨source, A, ls⟩ w) (place ⟨source, B, ls⟩ w) (Place.WidensTo source)
  | ⟨span, [⟨_, .bareword word, indices⟩]⟩ => by
    rw [place, place]
    refine .bind (checkVar_widens ls h span _) fun _ _ _ ↦ ?_
    refine .bind (placeKeys_widens h ls span indices) fun es es' hes ↦ .pure ?_
    simpa using hes
  | ⟨_, []⟩ | ⟨_, _ :: _ :: _⟩ | ⟨_, [⟨_, .lambda _, _⟩]⟩ | ⟨_, [⟨_, .quoted _, _⟩]⟩
  | ⟨_, [⟨_, .variable _ _, _⟩]⟩ | ⟨_, [⟨_, .capture _, _⟩]⟩ | ⟨_, [⟨_, .list _, _⟩]⟩
  | ⟨_, [⟨_, .map _, _⟩]⟩ => by
    rw [place]
    · exact .fail
    · rintro _ _ _ _ ⟨⟩

theorem placeKeys_widens (h : A.Within B) (ls : List (List String)) (span : Span) :
    ∀ indices : List (List Compound), Simulates (placeKeys ⟨source, A, ls⟩ span indices)
      (placeKeys ⟨source, B, ls⟩ span indices) (Expr.AllWiden source)
  | [] => by
    rw [placeKeys, placeKeys]
    exact .pure (by simp)
  | [key] :: rest => by
    rw [placeKeys, placeKeys]
    refine .bind (compound_widens h ls key) fun e e' he ↦ ?_
    refine .bind (placeKeys_widens h ls span rest) fun es es' hes ↦ .pure ?_
    simp [he, hes]
  | [] :: _ | (_ :: _ :: _) :: _ => by
    rw [placeKeys]
    · exact .fail
    · rintro _ ⟨⟩

theorem deletions_widens (h : A.Within B) (ls : List (List String)) : ∀ items : List Item,
    Simulates (deletions ⟨source, A, ls⟩ items) (deletions ⟨source, B, ls⟩ items) (Op.AllWiden source)
  | [] => by
    rw [deletions, deletions]
    exact .pure (by simp)
  | .arg w :: items => by
    have hrest (p p' : Place) (hp : p.WidensTo source p') :
        Simulates
          (do let others ← deletions ⟨source, A, ls⟩ items; return Op.del ⟨source, w.span⟩ p :: others)
          (do let others ← deletions ⟨source, B, ls⟩ items; return Op.del ⟨source, w.span⟩ p' :: others)
          (Op.AllWiden source) := by
      refine .bind (deletions_widens h ls items) fun ops ops' hops ↦ .pure ?_
      simp [hp, hops]
    rw [deletions, deletions]
    refine .bind (place_widens h ls w) fun p p' hp ↦ ?_
    match p, p', hp with
    | .mk name [], .mk name' [], hp =>
      rw [Place.WidensTo] at hp
      obtain ⟨rfl, -⟩ := hp
      refine .after fun declared ↦ .after fun _ ↦ ?_
      refine .guard (fun hlocal ↦ ?_) (hrest _ _ (by simp)) fun _ ↦ .failing
      -- what belongs to the innermost scope belongs to that of the larger one
      simp only [Bool.or_eq_true, Bool.and_eq_true, List.contains_iff_mem] at hlocal ⊢
      exact hlocal.imp_left fun ⟨houtermost, hmem⟩ ↦ ⟨houtermost, h.inner _ hmem⟩
    | .mk name (_ :: _), .mk name' (_ :: _), hp => exact hrest _ _ hp
    | .mk _ [], .mk _ (_ :: _), hp | .mk _ (_ :: _), .mk _ [], hp => simp at hp
  | .opt _ _ _ :: items | .eq _ :: items => deletions_widens h ls items

theorem fnForm_widens (h : A.Within B) (ls : List (List String)) (span : Span) : ∀ items : List Item,
    Simulates (fnForm ⟨source, A, ls⟩ span items) (fnForm ⟨source, B, ls⟩ span items) (Op.WidensTo source)
  | [.arg name, .arg word] => by
    rw [fnForm, fnForm]
    refine .after fun var ↦ .after fun _ ↦ .bind (written_widens h ls true word) fun l l' hl ↦ .pure ?_
    simpa [site] using hl
  | [] | .opt _ _ _ :: _ | .eq _ :: _ | [.arg _] | .arg _ :: .opt _ _ _ :: _ | .arg _ :: .eq _ :: _
  | .arg _ :: .arg _ :: _ :: _ => by
    rw [fnForm]
    · exact .fail
    · rintro _ _ ⟨⟩

theorem branchList_widens (h : A.Within B) (ls : List (List String)) (span : Span) : ∀ items : List Item,
    Simulates (branchList ⟨source, A, ls⟩ span items) (branchList ⟨source, B, ls⟩ span items) fun x x' ↦
      Expr.PairsWiden source x.1 x'.1 ∧ Expr.BodyWidens source x.2 x'.2
  | .arg c :: .arg b :: items => by
    rw [branchList, branchList]
    refine .bind (compound_widens h ls c) fun cond cond' hcond ↦ ?_
    refine .bind (written_widens h ls false b) fun inside inside' hinside ↦ ?_
    refine .bind (moreBranches_widens h ls span items) fun x x' hx ↦ .pure ?_
    simp [hcond, hinside, hx]
  | [] | .opt _ _ _ :: _ | .eq _ :: _ | [.arg _] | .arg _ :: .opt _ _ _ :: _ | .arg _ :: .eq _ :: _ => by
    rw [branchList]
    · exact .fail
    · rintro _ _ _ ⟨⟩

theorem moreBranches_widens (h : A.Within B) (ls : List (List String)) (span : Span) : ∀ items : List Item,
    Simulates (moreBranches ⟨source, A, ls⟩ span items) (moreBranches ⟨source, B, ls⟩ span items) fun x x' ↦
      Expr.PairsWiden source x.1 x'.1 ∧ Expr.BodyWidens source x.2 x'.2
  | .arg keyword :: items => by
    rw [moreBranches, moreBranches]
    generalize keyword.bareword? = name
    split
    · exact branchList_widens h ls span items
    · refine .bind (elseBody_widens h ls keyword.span .noElifOrElse items) fun e e' he ↦ .pure ?_
      simp [he]
    · exact .fail
  | [] | .opt _ _ _ :: _ | .eq _ :: _ => by
    rw [moreBranches, moreBranches]
    · exact .pure ⟨by simp, by simp⟩
    · rintro _ _ ⟨⟩
    · rintro _ _ ⟨⟩

theorem elseBody_widens (h : A.Within B) (ls : List (List String)) (span : Span) (fault : CompileFault) :
    ∀ items : List Item, Simulates (elseBody ⟨source, A, ls⟩ span fault items)
      (elseBody ⟨source, B, ls⟩ span fault items) (Expr.WidensTo source)
  | [.arg b] => by
    rw [elseBody, elseBody]
    exact .bind (written_widens h ls false b) fun inside inside' hinside ↦ .pure (by simpa using hinside)
  | [] | .opt _ _ _ :: _ | .eq _ :: _ | .arg _ :: _ :: _ => by
    rw [elseBody]
    · exact .fail
    · rintro _ ⟨⟩

theorem elseClause_widens (h : A.Within B) (ls : List (List String)) : ∀ items : List Item,
    Simulates (elseClause ⟨source, A, ls⟩ items) (elseClause ⟨source, B, ls⟩ items) (Expr.BodyWidens source)
  | .arg keyword :: items => by
    rw [elseClause, elseClause]
    split
    · refine .bind (elseBody_widens h ls keyword.span .noElse items) fun e e' he ↦ .pure ?_
      simpa using he
    · exact .fail
  | [] | .opt _ _ _ :: _ | .eq _ :: _ => by
    rw [elseClause, elseClause]
    · exact .pure (by simp)
    · rintro _ _ ⟨⟩
    · rintro _ _ ⟨⟩

theorem whileForm_widens (h : A.Within B) (ls : List (List String)) (span : Span) : ∀ items : List Item,
    Simulates (whileForm ⟨source, A, ls⟩ span items) (whileForm ⟨source, B, ls⟩ span items) (Op.WidensTo source)
  | .arg c :: .arg b :: items => by
    rw [whileForm, whileForm]
    refine .bind (compound_widens h ls c) fun cond cond' hcond ↦ ?_
    refine .bind (written_widens h ls false b) fun inside inside' hinside ↦ ?_
    refine .bind (elseClause_widens h ls items) fun otherwise otherwise' hotherwise ↦ .pure ?_
    simp [site, hcond, hinside, hotherwise]
  | [] | .opt _ _ _ :: _ | .eq _ :: _ | [.arg _] | .arg _ :: .opt _ _ _ :: _ | .arg _ :: .eq _ :: _ => by
    rw [whileForm]
    · exact .fail
    · rintro _ _ _ ⟨⟩

theorem forForm_widens (h : A.Within B) (ls : List (List String)) (span : Span) : ∀ items : List Item,
    Simulates (forForm ⟨source, A, ls⟩ span items) (forForm ⟨source, B, ls⟩ span items) (Op.WidensTo source)
  | .arg v :: .arg i :: .arg b :: items => by
    rw [forForm, forForm]
    refine .after fun var ↦ .bind (compound_widens h ls i) fun iterable iterable' hiterable ↦ ?_
    refine .after fun _ ↦ .bind (written_widens h ls false b) fun inside inside' hinside ↦ ?_
    refine .bind (elseClause_widens h ls items) fun otherwise otherwise' hotherwise ↦ .pure ?_
    simp [site, hiterable, hinside, hotherwise]
  | [] | .opt _ _ _ :: _ | .eq _ :: _ | [.arg _] | .arg _ :: .opt _ _ _ :: _ | .arg _ :: .eq _ :: _
  | [.arg _, .arg _] | .arg _ :: .arg _ :: .opt _ _ _ :: _ | .arg _ :: .arg _ :: .eq _ :: _ => by
    rw [forForm]
    · exact .fail
    · rintro _ _ _ _ ⟨⟩

theorem tryForm_widens (h : A.Within B) (ls : List (List String)) (span : Span) : ∀ items : List Item,
    Simulates (tryForm ⟨source, A, ls⟩ span items) (tryForm ⟨source, B, ls⟩ span items) (Op.WidensTo source)
  | .arg b :: items => by
    rw [tryForm, tryForm]
    refine .bind (written_widens h ls false b) fun inside inside' hinside ↦ ?_
    refine .bind (tryClauses_widens h ls items) fun x x' hx ↦ .pure ?_
    simp [site, hinside, hx]
  | [] | .opt _ _ _ :: _ | .eq _ :: _ => by
    rw [tryForm]
    · exact .fail
    · rintro _ _ ⟨⟩

theorem tryClauses_widens (h : A.Within B) (ls : List (List String)) : ∀ items : List Item,
    Simulates (tryClauses ⟨source, A, ls⟩ items) (tryClauses ⟨source, B, ls⟩ items) fun x x' ↦
      Expr.HandlerWidens source x.1 x'.1 ∧ Expr.BodyWidens source x.2.1 x'.2.1 ∧
        Expr.BodyWidens source x.2.2 x'.2.2
  | [.arg keyword] => by
    rw [tryClauses, tryClauses]
    split
    · exact .fail
    · exact .fail
  | .arg keyword :: .arg w :: items => by
    rw [tryClauses, tryClauses]
    generalize keyword.bareword? = name
    split
    · split
      · refine .bind (written_widens h ls false w) fun inside inside' hinside ↦ ?_
        refine .bind (afterCatch_widens h ls items) fun x x' hx ↦ .pure ⟨?_, hx⟩
        simpa using hinside
      · exact .bind (namedCatch_widens h ls keyword.span w items) fun x x' hx ↦ .pure hx
    · refine .bind (written_widens h ls false w) fun inside inside' hinside ↦ ?_
      refine .bind (afterElse_widens h ls items) fun last last' hlast ↦ .pure ?_
      exact ⟨by simp, by simpa using hinside, hlast⟩
    · refine .bind (written_widens h ls false w) fun inside inside' hinside ↦ .after fun _ ↦ .pure ?_
      exact ⟨by simp, by simp, by simpa using hinside⟩
    · exact .fail
  | [] | .opt _ _ _ :: _ | .eq _ :: _ | .arg _ :: .opt _ _ _ :: _ | .arg _ :: .eq _ :: _ => by
    rw [tryClauses, tryClauses]
    · exact .pure ⟨by simp, by simp, by simp⟩
    · rintro _ ⟨⟩
    · rintro _ _ _ ⟨⟩
    · rintro _ ⟨⟩
    · rintro _ _ _ ⟨⟩

theorem namedCatch_widens (h : A.Within B) (ls : List (List String)) (span : Span) (name : Compound) :
    ∀ items : List Item, Simulates (namedCatch ⟨source, A, ls⟩ span name items)
      (namedCatch ⟨source, B, ls⟩ span name items) fun x x' ↦
        Expr.HandlerWidens source (some x.1) (some x'.1) ∧ Expr.BodyWidens source x.2.1 x'.2.1 ∧
          Expr.BodyWidens source x.2.2 x'.2.2
  | .arg b :: items => by
    rw [namedCatch, namedCatch]
    refine .after fun var ↦ .after fun _ ↦ ?_
    refine .bind (written_widens h ls false b) fun inside inside' hinside ↦ ?_
    refine .bind (afterCatch_widens h ls items) fun x x' hx ↦ .pure ⟨?_, hx⟩
    simpa using hinside
  | [] | .opt _ _ _ :: _ | .eq _ :: _ => by
    rw [namedCatch]
    · exact .fail
    · rintro _ _ ⟨⟩

theorem afterCatch_widens (h : A.Within B) (ls : List (List String)) : ∀ items : List Item,
    Simulates (afterCatch ⟨source, A, ls⟩ items) (afterCatch ⟨source, B, ls⟩ items) fun x x' ↦
      Expr.BodyWidens source x.1 x'.1 ∧ Expr.BodyWidens source x.2 x'.2
  | [.arg keyword] => by
    rw [afterCatch]
    exact .fail
  | .arg keyword :: .arg w :: items => by
    rw [afterCatch, afterCatch]
    generalize keyword.bareword? = name
    split
    · refine .bind (written_widens h ls false w) fun inside inside' hinside ↦ ?_
      refine .bind (afterElse_widens h ls items) fun last last' hlast ↦ .pure ?_
      exact ⟨by simpa using hinside, hlast⟩
    · refine .bind (written_widens h ls false w) fun inside inside' hinside ↦ .after fun _ ↦ .pure ?_
      exact ⟨by simp, by simpa using hinside⟩
    · exact .fail
  | [] | .opt _ _ _ :: _ | .eq _ :: _ | .arg _ :: .opt _ _ _ :: _ | .arg _ :: .eq _ :: _ => by
    rw [afterCatch, afterCatch]
    · exact .pure ⟨by simp, by simp⟩
    · rintro _ ⟨⟩
    · rintro _ _ _ ⟨⟩
    · rintro _ ⟨⟩
    · rintro _ _ _ ⟨⟩

theorem afterElse_widens (h : A.Within B) (ls : List (List String)) : ∀ items : List Item,
    Simulates (afterElse ⟨source, A, ls⟩ items) (afterElse ⟨source, B, ls⟩ items) (Expr.BodyWidens source)
  | [.arg keyword] => by
    rw [afterElse]
    exact .fail
  | .arg keyword :: .arg w :: items => by
    rw [afterElse, afterElse]
    split
    · refine .bind (written_widens h ls false w) fun inside inside' hinside ↦ .after fun _ ↦ .pure ?_
      simpa using hinside
    · exact .fail
  | [] | .opt _ _ _ :: _ | .eq _ :: _ | .arg _ :: .opt _ _ _ :: _ | .arg _ :: .eq _ :: _ => by
    rw [afterElse, afterElse]
    · exact .pure (by simp)
    · rintro _ ⟨⟩
    · rintro _ _ _ ⟨⟩
    · rintro _ ⟨⟩
    · rintro _ _ _ ⟨⟩

end

end Lowering

/-! ## Scripts -/

/-- **The static check is monotone in the scope.**  A tree that is accepted for a scope is accepted for every
scope that holds all its names in the same parts.  The operations are the same but for command words that stood
for an external program and now stand for the function of that name. -/
theorem Chunk.lower_widens (tree : Chunk) (source : Source) {A B : Scope} (hAB : A.Within B) {op : Op}
    (h : tree.lower source A = .ok op) :
    ∃ op', tree.lower source B = .ok op' ∧ op.WidensTo source op' := by
  rw [Chunk.lower] at h
  split at h
  next hop =>
    cases h
    obtain ⟨op', hop', hwidens⟩ := Lowering.chunk_widens hAB [] tree [] _ _ hop
    refine ⟨op', ?_, hwidens⟩
    rw [Chunk.lower, hop']
  next => cases h

/-- The command `f` is a program where no function has its name, and `f~` where one is in a scope around. -/
theorem Chunk.lower_widens_function :
    let source : Source := ⟨0, "[tty]", "f", none⟩
    let span : Span := ⟨0, 1⟩
    let tree : Chunk := ⟨[⟨span, [⟨span, ⟨span, [⟨span, .bareword "f", []⟩]⟩, [], []⟩]⟩]⟩
    Scope.Within ⟨[], [], []⟩ ⟨[], [["f~"]], []⟩ ∧
    tree.lower source ⟨[], [], []⟩ = .ok (.chunk [.form ⟨source, span⟩ (.external "f") [] [] []]) ∧
    tree.lower source ⟨[], [["f~"]], []⟩ = .ok (.chunk [.form ⟨source, span⟩ (.function "f~") [] [] []]) ∧
    ∃ op', tree.lower source ⟨[], [["f~"]], []⟩ = .ok op' ∧
      Op.WidensTo source (.chunk [.form ⟨source, span⟩ (.external "f") [] [] []]) op' := by
  intro source span tree
  have hwithin : Scope.Within ⟨[], [], []⟩ ⟨[], [["f~"]], []⟩ := ⟨nofun, nofun, nofun⟩
  have hlower : tree.lower source ⟨[], [], []⟩ =
      .ok (.chunk [.form ⟨source, span⟩ (.external "f") [] [] []]) := rfl
  exact ⟨hwithin, hlower, rfl, tree.lower_widens source hwithin hlower⟩

end ValueShell
