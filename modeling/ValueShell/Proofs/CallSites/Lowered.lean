import ValueShell.Proofs.CallSites.Counting
import ValueShell.Proofs.Dialect.Lowered

/-!
# Lowering makes each site once

The sites of an operation are those of its text, in some order (`Chunk.sites_lower`).  They are counted, since options
run behind all arguments, and values before the places they go to.

Nothing with a site in it is left out.  What lowering drops are words that are names: those of special forms and of what
they declare, and words such as `else`.  That there is nothing but arguments behind a special form is checked first, and
every function of the walk behind that check is told so (`Item.allArgs`).

There is one lemma for each function of the walk.
-/

set_option autoImplicit false

namespace ValueShell

open Region

variable {s : Span}

namespace Lowering

variable {env : Enclosing}

theorem Yields.mono {α : Type} {m : Lower α} {P Q : α → Prop} (h : Yields m P) (hPQ : ∀ x, P x → Q x) : Yields m Q :=
  fun D x D' hx ↦ hPQ x (h D x D' hx)

/-! ## What has been checked -/

theorem argsOnly_allArgs (name : String) (items : List Item) :
    Yields (argsOnly name items) fun _ ↦ Item.allArgs items = true := by
  induction items with
  | nil => exact .pure rfl
  | cons item items ih =>
    cases item with
    | arg word => exact ih
    | opt | eq => exact .fail

theorem bareword_hits {fault : CompileFault} {w : Compound} :
    Yields (bareword fault w) fun _ ↦ w.region.hits s = 0 := by
  unfold bareword
  split
  next name hname => exact .pure (Compound.hits_of_bareword? hname)
  next => exact .fail

theorem endTry_nil (items : List Item) : Yields (endTry items) fun _ ↦ items = [] := by
  cases items with
  | nil => exact .pure rfl
  | cons item items => exact .fail

/-- A target that is no element is a name. -/
theorem target_hits (w : Compound) : Yields (target w) fun x ↦ x.1.indexed = false → w.region.hits s = 0 := by
  unfold target
  split
  next span span' word indices =>
    refine .pure fun hindexed ↦ ?_
    dsimp only at hindexed
    cases indices with
    | nil => exact Compound.hits_of_literal? rfl
    | cons index indices => cases hindexed
  next => exact .fail

theorem targets_hits (i : Nat) (rest : Option Nat) (items : List Item) (h : Item.allArgs items = true) :
    Yields (targets i rest items) fun x ↦ (∀ t ∈ x.1, t.indexed = false) → hitsOf s (Item.regions false items) = 0 := by
  induction items generalizing i rest with
  | nil => exact .pure fun _ ↦ rfl
  | cons item items ih =>
    cases item with
    | opt | eq => cases h
    | arg w =>
      rw [targets]
      refine .bind (target_hits (s := s) w) fun x hx ↦ ?_
      dsimp only
      split
      · exact .fail
      split
      · exact .fail
      refine .bind (ih _ _ h) fun y hy ↦ .pure fun hindexed ↦ ?_
      rw [Item.regions, hitsOf_cons, Item.hits_arg, hx (hindexed _ List.mem_cons_self),
        hy fun t ht ↦ hindexed t (List.mem_cons_of_mem _ ht)]

theorem noneIndexed_indexed (ts : List Target) : Yields (noneIndexed ts) fun _ ↦ ∀ t ∈ ts, t.indexed = false := by
  induction ts with
  | nil => exact .pure nofun
  | cons t ts ih =>
    rw [noneIndexed]
    split
    · exact .fail
    next ht => exact ih.mono fun _ hts ↦ List.forall_mem_cons.2 ⟨Bool.eq_false_iff.2 ht, hts⟩

theorem useAlias_hits (span : Span) (items : List Item) : Yields (useAlias span items) fun given ↦
    hitsOf s (Item.regions false items) = hitsOf s (Compound.regionOfOptional given) := by
  unfold useAlias
  split
  · exact .pure rfl
  · exact .pure rfl
  · exact .fail

theorem useName_hits (spec : String) (given : Option Compound) :
    Yields (useName spec given) fun _ ↦ hitsOf s (Compound.regionOfOptional given) = 0 := by
  cases given with
  | none => exact .pure rfl
  | some w =>
    refine (bareword_hits (s := s)).mono fun _ hw ↦ ?_
    rw [Compound.regionOfOptional, hitsOf_cons, hw, hitsOf_nil]

theorem splitEq_eq (span : Span) (items : List Item) : splitEq (.eq span :: items) = ([], some items) :=
  rfl

theorem splitEq_cons {item : Item} (h : isEq item = false) (items : List Item) :
    splitEq (item :: items) = (item :: (splitEq items).1, (splitEq items).2) := by
  unfold splitEq
  cases item with
  | eq => cases h
  | arg | opt =>
    rw [List.dropWhile_cons_of_pos rfl, List.takeWhile_cons_of_pos rfl]
    split <;> rfl

/-- Where items are split, there is no site. -/
theorem hitsOf_splitEq (items : List Item) : hitsOf s (Item.regions false items) =
    hitsOf s (Item.regions false (splitEq items).1) + hitsOf s (Item.regions false ((splitEq items).2.getD [])) := by
  induction items with
  | nil => rfl
  | cons item items ih =>
    rw [Item.regions_cons, hitsOf_cons, ih]
    cases item with
    | eq span =>
      rw [splitEq_eq, Item.hits_eq, ← ih, Nat.zero_add]
      exact (Nat.zero_add _).symm
    | arg | opt =>
      rw [splitEq_cons rfl]
      dsimp only
      rw [Item.regions_cons, hitsOf_cons, Nat.add_assoc]

/-! ## Pieces -/

/-- Words that may be skipped have the sites they would have otherwise. -/
theorem hits_outlinesOfLogic (es : List Expr) : (Expr.outlinesOfLogic es).hits s = (Expr.outlines es).hits s := by
  induction es with
  | nil => rfl
  | cons e es ih =>
    rw [Expr.outlinesOfLogic, Expr.outlines, Outline.hits_seq, Outline.hits_seq, Outline.hits_loose, ih]

theorem hits_joinParts (es : List Expr) : (joinParts es).outline.hits s = (Expr.outlines es).hits s := by
  unfold joinParts
  split
  · rw [Expr.outlines, Expr.outlines, Outline.hits_seq, Outline.hits_nothing, Nat.add_zero]
  · rw [Expr.outline]

theorem hits_site {span : Span} {o : Outline} : (Outline.form (site env span) o).hits s = [span].count s + o.hits s :=
  Outline.hits_form

theorem useForm_hits {span : Span} {items : List Item} : Yields (useForm env span items) fun op ↦
    op.outline.hits s = [span].count s + hitsOf s (Item.regions false items) := by
  unfold useForm
  split
  · next word items =>
    refine .bind (useAlias_hits (s := s) span items) fun given hgiven ↦ ?_
    cases hword : word.literal? with
    | none => exact .fail
    | some spec =>
      refine .bind (useName_hits (s := s) spec given) fun name hname ↦ .after fun _ ↦ .pure ?_
      rw [Op.outline, hits_site, Outline.hits_declares, Item.regions, hitsOf_cons, Item.hits_arg,
        Compound.hits_of_literal? hword, hgiven, hname]
  · exact .fail

theorem varForm_hits {span : Span} {items : List Item} {values : Lower (List Expr)}
    (h : ∀ right, (splitEq items).2 = some right → Item.allArgs right = true →
      Yields values fun es ↦ (Expr.outlines es).hits s = hitsOf s (Item.regions false right)) :
    Yields (varForm env span items values) fun op ↦
      op.outline.hits s = [span].count s + hitsOf s (Item.regions false items) := by
  rw [hitsOf_splitEq items]
  unfold varForm
  generalize splitEq items = parts at h
  obtain ⟨left, right⟩ := parts
  dsimp only at h ⊢
  refine .bind (argsOnly_allArgs _ _) fun _ hleft ↦ ?_
  split
  · exact .fail
  refine .bind (targets_hits (s := s) 0 none left hleft) fun x hnames ↦ ?_
  refine .bind (noneIndexed_indexed x.1) fun _ hindexed ↦ ?_
  refine .bind (argsOnly_allArgs _ _) fun _ hright ↦ ?_
  cases right with
  | none =>
    refine .after fun values ↦ .after fun _ ↦ .pure ?_
    rw [Op.outline, hits_site, Outline.hits_seq, Outline.hits_all_map (by rintro (_ | name) <;> rfl), hnames hindexed]
    rfl
  | some right =>
    refine .bind (h right rfl hright) fun values hvalues ↦ .after fun _ ↦ .pure ?_
    rw [Op.outline, hits_site, Outline.hits_seq, Outline.hits_all_map (by rintro (_ | name) <;> rfl), hnames hindexed,
      Nat.zero_add]
    exact congrArg _ hvalues

theorem setForm_hits {span : Span} {items : List Item} {values : Lower (List Expr)} {places : Lower (List Place)}
    (hvalues : ∀ right, (splitEq items).2 = some right → Item.allArgs right = true →
      Yields values fun es ↦ (Expr.outlines es).hits s = hitsOf s (Item.regions false right))
    (hplaces : Item.allArgs (splitEq items).1 = true →
      Yields places fun ps ↦ (Place.outlines ps).hits s = hitsOf s (Item.regions false (splitEq items).1)) :
    Yields (setForm env span items values places) fun op ↦
      op.outline.hits s = [span].count s + hitsOf s (Item.regions false items) := by
  rw [hitsOf_splitEq items]
  unfold setForm
  generalize splitEq items = parts at hvalues hplaces
  obtain ⟨left, right⟩ := parts
  cases right with
  | none => exact .fail
  | some right =>
    refine .bind (argsOnly_allArgs _ _) fun _ hleft ↦ ?_
    split
    · exact .fail
    refine .bind (argsOnly_allArgs _ _) fun _ hright ↦ .bind (hvalues right rfl hright) fun vs hvs ↦ ?_
    refine .after fun targets ↦ .bind (hplaces hleft) fun ps hps ↦ .pure ?_
    rw [Op.outline, hits_site, Outline.hits_seq, hvs, hps, Option.getD_some]
    omega

theorem delForm_hits {span : Span} {items : List Item} {removals : Lower (List Op)} {n : Nat}
    (h : Yields removals fun ops ↦ (Op.outlines ops).hits s = n) :
    Yields (delForm span items removals) fun op ↦ op.outline.hits s = n := by
  refine .after fun x ↦ ?_
  dsimp only
  split
  · exact .fail
  · refine .bind h fun ops hops ↦ .pure ?_
    rw [Op.outline]
    exact hops

/-! ## The walk -/

mutual

theorem chunk_hits (env : Enclosing) : ∀ c : Chunk,
    Yields (chunk env c) fun op ↦ op.outline.hits s = hitsOf s c.regions
  | ⟨pipelines⟩ => by
    rw [chunk]
    refine .bind (pipelineList_hits env pipelines) fun ops hops ↦ .pure ?_
    rw [Op.outline, Chunk.hits_regions]
    exact hops

theorem pipelineList_hits (env : Enclosing) : ∀ ps : List Pipeline,
    Yields (pipelineList env ps) fun ops ↦ (Op.outlines ops).hits s = hitsOf s (Pipeline.regions ps)
  | [] => by
    rw [pipelineList]
    exact .pure rfl
  | p :: ps => by
    rw [pipelineList]
    refine .bind (pipeline_hits env p) fun op hop ↦ .bind (pipelineList_hits env ps) fun ops hops ↦ .pure ?_
    rw [Op.outlines, Pipeline.regions, Outline.hits_seq, hitsOf_cons, hop, hops]

theorem pipeline_hits (env : Enclosing) : ∀ p : Pipeline,
    Yields (pipeline env p) fun op ↦ op.outline.hits s = p.region.hits s
  | ⟨span, [f]⟩ => by
    have hforms : hitsOf s (Form.regions [f]) = f.region.hits s := by
      rw [Form.regions, hitsOf_cons]
      rfl
    rw [pipeline, Pipeline.region_eq, hits_node, hitsOf_nil, hforms]
    exact (form_hits env f).mono fun op hop ↦ hop.trans (Nat.zero_add _).symm
  | ⟨span, []⟩ => by
    simp only [pipeline]
    refine .bind (formList_hits env []) fun ops hops ↦ .pure ?_
    rw [Op.outline, hits_site, Pipeline.region_eq, hits_node, hitsOf_nil, hops]
    rfl
  | ⟨span, f :: g :: fs⟩ => by
    simp only [pipeline]
    refine .bind (formList_hits env (f :: g :: fs)) fun ops hops ↦ .pure ?_
    have hsite : Kind.pipeline.sites span (Form.regions (f :: g :: fs)).length = [span] := by
      rw [Form.regions, Form.regions]
      rfl
    rw [Op.outline, hits_site, Pipeline.region_eq, hits_node, hitsOf_nil, hops, hsite]
    rfl

theorem formList_hits (env : Enclosing) : ∀ fs : List Form,
    Yields (formList env fs) fun ops ↦ (Op.outlinesOfStages ops).hits s = hitsOf s (Form.regions fs)
  | [] => by
    rw [formList]
    exact .pure rfl
  | f :: fs => by
    rw [formList]
    refine .bind (form_hits env f) fun op hop ↦ .bind (formList_hits env fs) fun ops hops ↦ .pure ?_
    rw [Op.outlinesOfStages, Form.regions, Outline.hits_seq, Outline.hits_loose, hitsOf_cons, hop, hops]

theorem form_hits (env : Enclosing) : ∀ f : Form, Yields (form env f) fun op ↦ op.outline.hits s = f.region.hits s
  | ⟨span, head, items, redirs⟩ => by
    rw [Form.hits_region]
    dsimp only
    have hname {name : String} (h : head.bareword?.filter Name.isSpecial = some name) : head.bareword? = some name :=
      (Option.filter_eq_some_iff.1 h).1
    have hspecial {name : String} (h : head.bareword?.filter Name.isSpecial = some name) (hne : name ≠ "del") {op : Op}
        (hop : op.outline.hits s = [span].count s + hitsOf s (Item.regions false items)) :
        op.outline.hits s = (if head.deletes then 0 else [span].count s) +
          (head.region.hits s + hitsOf s (Item.regions head.deletes items) + hitsOf s (Redir.regions [])) := by
      have hhead := Compound.hits_of_bareword? (s := s) (hname h)
      rw [Compound.deletes_eq (hname h), beq_eq_false_iff_ne.2 hne, if_neg Bool.false_ne_true, hhead, Nat.zero_add]
      exact hop
    unfold form
    generalize hfilter : head.bareword?.filter Name.isSpecial = special at hname hspecial
    split
    · exact .fail
    · exact (varForm_hits (wordsBehindEq_hits env items)).mono fun op hop ↦ hspecial rfl (by decide) hop
    · refine (setForm_hits (wordsBehindEq_hits env items) (places_hits env items)).mono fun op hop ↦ ?_
      exact hspecial rfl (by decide) hop
    · refine .bind (argsOnly_allArgs _ _) fun _ hargs ↦ ?_
      split
      · rw [Compound.deletes_eq (hname rfl), Compound.hits_of_bareword? (hname rfl), Nat.zero_add]
        exact (delForm_hits (deletions_hits env items hargs)).mono fun op hop ↦ hop.trans (Nat.zero_add _).symm
      · exact (fnForm_hits env span items).mono fun op hop ↦ hspecial rfl (by decide) hop
      · exact useForm_hits.mono fun op hop ↦ hspecial rfl (by decide) hop
      · refine .bind (branchList_hits env span items hargs) fun x hx ↦ .pure ?_
        refine hspecial rfl (by decide) ?_
        rw [Op.outline, hits_site, Outline.hits_seq, hx]
      · exact (whileForm_hits env span items hargs).mono fun op hop ↦ hspecial rfl (by decide) hop
      · exact (forForm_hits env span items hargs).mono fun op hop ↦ hspecial rfl (by decide) hop
      · exact (tryForm_hits env span items hargs).mono fun op hop ↦ hspecial rfl (by decide) hop
      · refine .bind (words_hits env items hargs) fun args hwords ↦ .pure ?_
        refine hspecial rfl (by decide) ?_
        rw [Op.outline, hits_site, hits_outlinesOfLogic, hwords]
      · refine .bind (words_hits env items hargs) fun args hwords ↦ .pure ?_
        refine hspecial rfl (by assumption) ?_
        rw [Op.outline, hits_site, hits_outlinesOfLogic, hwords]
    · have hdeletes : head.deletes = false := by
        rw [Compound.deletes, beq_eq_false_iff_ne]
        intro hdel
        rw [hdel] at hfilter
        cases hfilter
      rw [hdeletes, if_neg Bool.false_ne_true]
      refine .bind (commandHead_hits env head) fun h hh ↦ ?_
      refine .bind (arguments_hits env items) fun x hx ↦ .bind (redirects_hits env redirs) fun rs hrs ↦ .pure ?_
      rw [Op.outline, hits_site, Outline.hits_seq, Outline.hits_seq, Outline.hits_seq, Outline.hits_loose]
      omega

theorem commandHead_hits (env : Enclosing) : ∀ w : Compound,
    Yields (commandHead env w) fun h ↦ h.outline.hits s = w.region.hits s
  | ⟨span, parts⟩ => by
    rw [commandHead]
    cases hliteral : Compound.literal? ⟨span, parts⟩ with
    | none =>
      refine .bind (indexedList_hits env parts) fun es hes ↦ .pure ?_
      rw [Head.outline, hits_joinParts, Compound.hits_region]
      exact hes
    | some name =>
      rw [Compound.hits_of_literal? hliteral]
      refine .after fun command ↦ ?_
      split
      · exact .pure rfl
      · exact .pure rfl
      · exact .fail

theorem arguments_hits (env : Enclosing) : ∀ items : List Item, Yields (arguments env items) fun x ↦
    (Expr.outlines x.1).hits s + (Expr.outlinesOfOptions x.2).hits s = hitsOf s (Item.regions false items)
  | [] => by
    rw [arguments]
    exact .pure rfl
  | .arg word :: items => by
    rw [arguments, Item.regions, hitsOf_cons, Item.hits_arg]
    refine .bind (compound_hits env word) fun e he ↦ .bind (arguments_hits env items) fun x hx ↦ .pure ?_
    dsimp only
    rw [Expr.outlines, Outline.hits_seq, he, Nat.add_assoc, hx]
  | .opt span name none :: items => by
    rw [arguments, Item.regions, hitsOf_cons, Item.hits_opt]
    refine .bind (arguments_hits env items) fun x hx ↦ .pure ?_
    dsimp only
    rw [Expr.outlinesOfOptions, hx]
    exact (Nat.zero_add _).symm
  | .opt span name (some word) :: items => by
    rw [arguments, Item.regions, hitsOf_cons, Item.hits_opt, Compound.regionOfOptional, hitsOf_cons, hitsOf_nil]
    refine .bind (compound_hits env word) fun e he ↦ .bind (arguments_hits env items) fun x hx ↦ .pure ?_
    dsimp only
    rw [Expr.outlinesOfOptions, Outline.hits_seq]
    omega
  | .eq span :: items => by
    rw [arguments, Item.regions, hitsOf_cons, Item.hits_eq, Nat.zero_add]
    refine .bind (arguments_hits env items) fun x hx ↦ .pure ?_
    dsimp only
    rw [Expr.outlines, Outline.hits_seq, Expr.outline, Outline.hits_nothing, Nat.zero_add, hx]

theorem redirects_hits (env : Enclosing) : ∀ redirs : List Redir,
    Yields (redirects env redirs) fun rs ↦ (Redirect.outlines rs).hits s = hitsOf s (Redir.regions redirs)
  | [] => by
    rw [redirects]
    exact .pure rfl
  | ⟨span, fd, .dup source, target⟩ :: redirs => by
    rw [redirects, Redir.regions, hitsOf_cons]
    refine .bind (redirects_hits env redirs) fun rs hrs ↦ .pure ?_
    rw [Redirect.outlines, hrs, Redir.region, hits_node]
    exact (Nat.zero_add _).symm
  | ⟨span, _, .write, none⟩ :: _ | ⟨span, _, .append, none⟩ :: _ => by
    rw [redirects]
    · exact .fail
    · rintro _ ⟨⟩
  | ⟨_, fd, .write, some word⟩ :: redirs | ⟨_, fd, .append, some word⟩ :: redirs => by
    rw [redirects, Redir.regions, hitsOf_cons, Redir.hits_region_file (by simp)]
    · refine .bind (compound_hits env word) fun path hpath ↦ .bind (redirects_hits env redirs) fun rs hrs ↦ .pure ?_
      rw [Redirect.outlines, Outline.hits_seq, hpath, hrs]
    · rintro _ ⟨⟩

theorem compound_hits (env : Enclosing) : ∀ w : Compound,
    Yields (compound env w) fun e ↦ e.outline.hits s = w.region.hits s
  | ⟨span, parts⟩ => by
    rw [compound, Compound.hits_region]
    refine .bind (indexedList_hits env parts) fun es hes ↦ .pure ?_
    rw [hits_joinParts]
    exact hes

theorem indexedList_hits (env : Enclosing) : ∀ parts : List Indexed,
    Yields (indexedList env parts) fun es ↦ (Expr.outlines es).hits s = hitsOf s (Indexed.regions parts)
  | [] => by
    rw [indexedList]
    exact .pure rfl
  | part :: parts => by
    rw [indexedList, Indexed.regions, hitsOf_cons]
    refine .bind (indexed_hits env part) fun e he ↦ .bind (indexedList_hits env parts) fun es hes ↦ .pure ?_
    rw [Expr.outlines, Outline.hits_seq, he, hes]

theorem indexed_hits (env : Enclosing) : ∀ part : Indexed,
    Yields (indexed env part) fun e ↦ e.outline.hits s = part.region.hits s
  | ⟨span, head, []⟩ => by
    rw [indexed, Indexed.hits_region]
    exact primary_hits env span head
  | ⟨span, head, index :: indices⟩ => by
    rw [Indexed.hits_region]
    simp only [indexed]
    refine .bind (primary_hits env span head) fun e he ↦ ?_
    refine .bind (wordLists_hits env (index :: indices)) fun is his ↦ .pure ?_
    rw [Expr.outline, Outline.hits_seq, he, his]

theorem wordLists_hits (env : Enclosing) : ∀ indices : List (List Compound),
    Yields (wordLists env indices) fun is ↦
      (Expr.outlinesOfIndices is).hits s = hitsOf s (Compound.regionsOfLists indices)
  | [] => by
    rw [wordLists]
    exact .pure rfl
  | ws :: rest => by
    rw [wordLists, Compound.regionsOfLists, hitsOf_append]
    refine .bind (compoundList_hits env ws) fun es hes ↦ .bind (wordLists_hits env rest) fun is his ↦ .pure ?_
    rw [Expr.outlinesOfIndices, Outline.hits_seq, hes, his]

theorem compoundList_hits (env : Enclosing) : ∀ ws : List Compound,
    Yields (compoundList env ws) fun es ↦ (Expr.outlines es).hits s = hitsOf s (Compound.regions ws)
  | [] => by
    rw [compoundList]
    exact .pure rfl
  | w :: ws => by
    rw [compoundList, Compound.regions, hitsOf_cons]
    refine .bind (compound_hits env w) fun e he ↦ .bind (compoundList_hits env ws) fun es hes ↦ .pure ?_
    rw [Expr.outlines, Outline.hits_seq, he, hes]

theorem primary_hits (env : Enclosing) (span : Span) : ∀ p : Primary,
    Yields (primary env span p) fun e ↦ e.outline.hits s = hitsOf s p.regions
  | .bareword text | .quoted text => by
    rw [primary]
    exact .pure rfl
  | .variable name explode => by
    rw [primary]
    exact .after fun _ ↦ .pure rfl
  | .capture inside => by
    rw [primary, Primary.regions]
    refine .bind (chunk_hits env inside) fun op hop ↦ .pure ?_
    rw [Expr.outline]
    exact hop
  | .list ws => by
    rw [primary, Primary.regions]
    refine .bind (compoundList_hits env ws) fun es hes ↦ .pure ?_
    rw [Expr.outline]
    exact hes
  | .map ps => by
    rw [primary, Primary.regions]
    refine .bind (pairList_hits env ps) fun es hes ↦ .pure ?_
    rw [Expr.outline]
    exact hes
  | .lambda l => by
    rw [primary, Primary.regions, hitsOf_cons]
    refine .bind (lambda_hits env false l) fun e he ↦ .pure ?_
    rw [Expr.outline]
    exact he

theorem pairList_hits (env : Enclosing) : ∀ ps : List (Compound × Compound),
    Yields (pairList env ps) fun es ↦ (Expr.outlinesOfPairs es).hits s = hitsOf s (Compound.regionsOfPairs ps)
  | [] => by
    rw [pairList]
    exact .pure rfl
  | (k, v) :: ps => by
    rw [pairList, Compound.regionsOfPairs, hitsOf_cons, hitsOf_cons]
    refine .bind (compound_hits env k) fun key hkey ↦ .bind (compound_hits env v) fun value hvalue ↦ ?_
    refine .bind (pairList_hits env ps) fun others hothers ↦ .pure ?_
    rw [Expr.outlinesOfPairs, Outline.hits_seq, Outline.hits_seq, hkey, hvalue, hothers, Nat.add_assoc]

theorem lambda_hits (env : Enclosing) (isFn : Bool) : ∀ l : Lambda,
    Yields (lambda env isFn l) fun e ↦ e.outline.hits s = l.region.hits s
  | ⟨span, params, options, restOptions, body⟩ => by
    rw [lambda, Lambda.hits_region]
    refine .bind (defaultList_hits env options) fun defaults hdefaults ↦ ?_
    dsimp only
    split
    · exact .fail
    · refine .after fun outside ↦ .after fun _ ↦ .bind (chunk_hits _ body) fun inside hinside ↦ .after fun _ ↦ .pure ?_
      have hbody : (if isFn = true then Op.fnBody inside else inside).outline.hits s = inside.outline.hits s := by
        split
        · rw [Op.outline, Outline.hits_loose]
        · rfl
      rw [LambdaDef.outline, Outline.hits_seq, Outline.hits_own, hbody, hdefaults, hinside]

theorem defaultList_hits (env : Enclosing) : ∀ options : List (String × Compound),
    Yields (defaultList env options) fun es ↦
      (Expr.outlinesOfDefaults es).hits s = hitsOf s (Compound.regionsOfDefaults options)
  | [] => by
    rw [defaultList]
    exact .pure rfl
  | (name, w) :: options => by
    rw [defaultList, Compound.regionsOfDefaults, hitsOf_cons]
    refine .bind (compound_hits env w) fun e he ↦ .bind (defaultList_hits env options) fun others hothers ↦ .pure ?_
    rw [Expr.outlinesOfDefaults, Outline.hits_seq, he, hothers]

theorem written_hits (env : Enclosing) (isFn : Bool) : ∀ w : Compound,
    Yields (written env isFn w) fun e ↦ e.outline.hits s = w.region.hits s
  | ⟨_, [⟨_, .lambda l, []⟩]⟩ => by
    rw [written, Compound.hits_region, Indexed.regions, hitsOf_cons, Indexed.hits_region, Primary.regions, hitsOf_cons]
    exact lambda_hits env isFn l
  | ⟨_, []⟩ | ⟨_, _ :: _ :: _⟩ | ⟨_, [⟨_, .lambda _, _ :: _⟩]⟩ | ⟨_, [⟨_, .bareword _, _⟩]⟩ | ⟨_, [⟨_, .quoted _, _⟩]⟩
  | ⟨_, [⟨_, .variable _ _, _⟩]⟩ | ⟨_, [⟨_, .capture _, _⟩]⟩ | ⟨_, [⟨_, .list _, _⟩]⟩ | ⟨_, [⟨_, .map _, _⟩]⟩ => by
    rw [written]
    · exact .fail
    · rintro _ _ _ ⟨⟩

theorem words_hits (env : Enclosing) : ∀ items : List Item, Item.allArgs items = true →
    Yields (words env items) fun es ↦ (Expr.outlines es).hits s = hitsOf s (Item.regions false items)
  | [], _ => by
    rw [words]
    exact .pure rfl
  | .arg w :: items, h => by
    rw [words, Item.regions, hitsOf_cons, Item.hits_arg]
    refine .bind (compound_hits env w) fun e he ↦ .bind (words_hits env items h) fun es hes ↦ .pure ?_
    rw [Expr.outlines, Outline.hits_seq, he, hes]
  | .opt _ _ _ :: _, h | .eq _ :: _, h => nomatch h

theorem wordsBehindEq_hits (env : Enclosing) : ∀ items right : List Item, (splitEq items).2 = some right →
    Item.allArgs right = true →
    Yields (wordsBehindEq env items) fun es ↦ (Expr.outlines es).hits s = hitsOf s (Item.regions false right)
  | [], _, h, _ => nomatch h
  | .eq span :: items, right, h, hargs => by
    rw [splitEq_eq] at h
    cases h
    rw [wordsBehindEq]
    exact words_hits env items hargs
  | .arg _ :: items, right, h, hargs | .opt _ _ _ :: items, right, h, hargs => by
    rw [splitEq_cons rfl] at h
    exact wordsBehindEq_hits env items right h hargs

theorem places_hits (env : Enclosing) : ∀ items : List Item, Item.allArgs (splitEq items).1 = true →
    Yields (places env items) fun ps ↦
      (Place.outlines ps).hits s = hitsOf s (Item.regions false (splitEq items).1)
  | [], _ | .eq _ :: _, _ => by
    rw [places]
    exact .pure rfl
  | .arg w :: items, h => by
    rw [splitEq_cons rfl] at h ⊢
    dsimp only
    rw [places, Item.regions, hitsOf_cons, Item.hits_arg]
    refine .bind (place_hits env w) fun p hp ↦ .bind (places_hits env items h) fun ps hps ↦ .pure ?_
    rw [Place.outlines, Outline.hits_seq, hp, hps]
  | .opt _ _ _ :: items, h => by
    rw [splitEq_cons rfl] at h
    cases h

theorem place_hits (env : Enclosing) : ∀ w : Compound,
    Yields (place env w) fun p ↦ p.outline.hits s = w.region.hits s
  | ⟨span, [⟨_, .bareword word, indices⟩]⟩ => by
    rw [place, Compound.hits_region, Indexed.regions, hitsOf_cons, Indexed.hits_region]
    refine .after fun _ ↦ .bind (placeKeys_hits env span indices) fun es hes ↦ .pure ?_
    rw [Place.outline, Outline.hits_seq, Outline.hits_refers, hes]
    rfl
  | ⟨_, []⟩ | ⟨_, _ :: _ :: _⟩ | ⟨_, [⟨_, .lambda _, _⟩]⟩ | ⟨_, [⟨_, .quoted _, _⟩]⟩ | ⟨_, [⟨_, .variable _ _, _⟩]⟩
  | ⟨_, [⟨_, .capture _, _⟩]⟩ | ⟨_, [⟨_, .list _, _⟩]⟩ | ⟨_, [⟨_, .map _, _⟩]⟩ => by
    rw [place]
    · exact .fail
    · rintro _ _ _ _ ⟨⟩

theorem placeKeys_hits (env : Enclosing) (span : Span) : ∀ indices : List (List Compound),
    Yields (placeKeys env span indices) fun es ↦
      (Expr.outlines es).hits s = hitsOf s (Compound.regionsOfLists indices)
  | [] => by
    rw [placeKeys]
    exact .pure rfl
  | [key] :: rest => by
    rw [placeKeys, Compound.regionsOfLists, hitsOf_append, Compound.regions, hitsOf_cons]
    refine .bind (compound_hits env key) fun e he ↦ .bind (placeKeys_hits env span rest) fun es hes ↦ .pure ?_
    rw [Expr.outlines, Outline.hits_seq, he, hes]
    rfl
  | [] :: _ | (_ :: _ :: _) :: _ => by
    rw [placeKeys]
    · exact .fail
    · rintro _ ⟨⟩

theorem deletions_hits (env : Enclosing) : ∀ items : List Item, Item.allArgs items = true →
    Yields (deletions env items) fun ops ↦ (Op.outlines ops).hits s = hitsOf s (Item.regions true items)
  | [], _ => by
    rw [deletions]
    exact .pure rfl
  | .arg w :: items, h => by
    -- whether the word names a variable or an element, its deletion has the site of the word
    have hrest (p : Place) (hp : p.outline.hits s = w.region.hits s) :
        Yields (do let others ← deletions env items; return Op.del (site env w.span) p :: others) fun ops ↦
          (Op.outlines ops).hits s = hitsOf s (Item.regions true (.arg w :: items)) := by
      refine .bind (deletions_hits env items h) fun ops hops ↦ .pure ?_
      rw [Op.outlines, Outline.hits_seq, Op.outline, hits_site, Outline.hits_seq, Place.hits_removal, Item.regions,
        hitsOf_cons, Item.hits_arg_deletes, hp, hops, Nat.add_zero]
    rw [deletions]
    refine .bind (place_hits env w) fun p hp ↦ ?_
    match p with
    | .mk name [] =>
      refine .after fun declared ↦ .after fun _ ↦ ?_
      split
      · exact hrest _ hp
      · exact .after fun _ ↦ hrest _ hp
    | .mk name (index :: indices) => exact hrest _ hp
  | .opt _ _ _ :: _, h | .eq _ :: _, h => nomatch h

theorem fnForm_hits (env : Enclosing) (span : Span) : ∀ items : List Item,
    Yields (fnForm env span items) fun op ↦
      op.outline.hits s = [span].count s + hitsOf s (Item.regions false items)
  | [.arg name, .arg word] => by
    rw [fnForm, Item.regions, Item.regions, Item.regions, hitsOf_cons, hitsOf_cons, hitsOf_nil, Item.hits_arg,
      Item.hits_arg]
    refine .bind (bareword_hits (s := s)) fun var hname ↦ .after fun _ ↦ ?_
    refine .bind (written_hits env true word) fun l hl ↦ .pure ?_
    rw [Op.outline, hits_site, Outline.hits_seq, Outline.hits_declares, hl, hname, Nat.add_zero]
  | [] | .opt _ _ _ :: _ | .eq _ :: _ | [.arg _] | .arg _ :: .opt _ _ _ :: _ | .arg _ :: .eq _ :: _
  | .arg _ :: .arg _ :: _ :: _ => by
    rw [fnForm]
    · exact .fail
    · rintro _ _ ⟨⟩

theorem branchList_hits (env : Enclosing) (span : Span) : ∀ items : List Item, Item.allArgs items = true →
    Yields (branchList env span items) fun x ↦
      (Expr.outlinesOfBranches x.1).hits s + (Expr.outlineOfOptional x.2).hits s = hitsOf s (Item.regions false items)
  | .arg c :: .arg b :: items, h => by
    rw [branchList, Item.regions, Item.regions, hitsOf_cons, hitsOf_cons, Item.hits_arg, Item.hits_arg]
    refine .bind (compound_hits env c) fun cond hcond ↦ .bind (written_hits env false b) fun inside hinside ↦ ?_
    refine .bind (moreBranches_hits env span items h) fun x hx ↦ .pure ?_
    dsimp only
    rw [Expr.outlinesOfBranches, Outline.hits_seq, Outline.hits_seq, Outline.hits_loose, Outline.hits_loose,
      Expr.outline]
    omega
  | [], _ | .opt _ _ _ :: _, _ | .eq _ :: _, _ | [.arg _], _ | .arg _ :: .opt _ _ _ :: _, _
  | .arg _ :: .eq _ :: _, _ => by
    rw [branchList]
    · exact .fail
    · rintro _ _ _ ⟨⟩

theorem moreBranches_hits (env : Enclosing) (span : Span) : ∀ items : List Item, Item.allArgs items = true →
    Yields (moreBranches env span items) fun x ↦
      (Expr.outlinesOfBranches x.1).hits s + (Expr.outlineOfOptional x.2).hits s = hitsOf s (Item.regions false items)
  | .arg keyword :: items, h => by
    rw [moreBranches, Item.regions, hitsOf_cons, Item.hits_arg]
    split
    next hname =>
      rw [Compound.hits_of_bareword? hname, Nat.zero_add]
      exact branchList_hits env span items h
    next hname =>
      rw [Compound.hits_of_bareword? hname, Nat.zero_add]
      refine .bind (elseBody_hits env keyword.span .noElifOrElse items) fun e he ↦ .pure ?_
      dsimp only
      rw [Expr.outlinesOfBranches, Expr.outlineOfOptional, Outline.hits_nothing, Outline.hits_loose, he, Nat.zero_add]
    next => exact .fail
  | [], _ => by
    rw [moreBranches]
    · exact .pure rfl
    · rintro _ _ ⟨⟩
  | .opt _ _ _ :: _, h | .eq _ :: _, h => nomatch h

theorem elseBody_hits (env : Enclosing) (span : Span) (fault : CompileFault) : ∀ items : List Item,
    Yields (elseBody env span fault items) fun e ↦ e.outline.hits s = hitsOf s (Item.regions false items)
  | [.arg b] => by
    rw [elseBody, Item.regions, hitsOf_cons, Item.hits_arg]
    refine .bind (written_hits env false b) fun inside hinside ↦ .pure ?_
    rw [Expr.outline]
    exact hinside
  | [] | .opt _ _ _ :: _ | .eq _ :: _ | .arg _ :: _ :: _ => by
    rw [elseBody]
    · exact .fail
    · rintro _ ⟨⟩

theorem elseClause_hits (env : Enclosing) : ∀ items : List Item, Item.allArgs items = true →
    Yields (elseClause env items) fun e ↦ (Expr.outlineOfOptional e).hits s = hitsOf s (Item.regions false items)
  | .arg keyword :: items, _ => by
    rw [elseClause, Item.regions, hitsOf_cons, Item.hits_arg]
    split
    next hname =>
      rw [Compound.hits_of_bareword? hname, Nat.zero_add]
      refine .bind (elseBody_hits env keyword.span .noElse items) fun e he ↦ .pure ?_
      rw [Expr.outlineOfOptional, Outline.hits_loose]
      exact he
    next => exact .fail
  | [], _ => by
    rw [elseClause]
    · exact .pure rfl
    · rintro _ _ ⟨⟩
  | .opt _ _ _ :: _, h | .eq _ :: _, h => nomatch h

theorem whileForm_hits (env : Enclosing) (span : Span) : ∀ items : List Item, Item.allArgs items = true →
    Yields (whileForm env span items) fun op ↦
      op.outline.hits s = [span].count s + hitsOf s (Item.regions false items)
  | .arg c :: .arg b :: items, h => by
    rw [whileForm, Item.regions, Item.regions, hitsOf_cons, hitsOf_cons, Item.hits_arg, Item.hits_arg]
    refine .bind (compound_hits env c) fun cond hcond ↦ .bind (written_hits env false b) fun inside hinside ↦ ?_
    refine .bind (elseClause_hits env items h) fun otherwise hotherwise ↦ .pure ?_
    rw [Op.outline, hits_site, Outline.hits_seq, Outline.hits_seq, Outline.hits_loose, Expr.outline]
    omega
  | [], _ | .opt _ _ _ :: _, _ | .eq _ :: _, _ | [.arg _], _ | .arg _ :: .opt _ _ _ :: _, _
  | .arg _ :: .eq _ :: _, _ => by
    rw [whileForm]
    · exact .fail
    · rintro _ _ _ ⟨⟩

theorem forForm_hits (env : Enclosing) (span : Span) : ∀ items : List Item, Item.allArgs items = true →
    Yields (forForm env span items) fun op ↦
      op.outline.hits s = [span].count s + hitsOf s (Item.regions false items)
  | .arg v :: .arg i :: .arg b :: items, h => by
    rw [forForm, Item.regions, Item.regions, Item.regions, hitsOf_cons, hitsOf_cons, hitsOf_cons, Item.hits_arg,
      Item.hits_arg, Item.hits_arg]
    refine .bind (bareword_hits (s := s)) fun var hname ↦ .bind (compound_hits env i) fun iterable hiterable ↦ ?_
    refine .after fun _ ↦ .bind (written_hits env false b) fun inside hinside ↦ ?_
    refine .bind (elseClause_hits env items h) fun otherwise hotherwise ↦ .pure ?_
    rw [Op.outline, hits_site, Outline.hits_seq, Outline.hits_seq, Outline.hits_seq, Outline.hits_declares,
      Expr.outline]
    omega
  | [], _ | .opt _ _ _ :: _, _ | .eq _ :: _, _ | [.arg _], _ | .arg _ :: .opt _ _ _ :: _, _
  | .arg _ :: .eq _ :: _, _ | [.arg _, .arg _], _ | .arg _ :: .arg _ :: .opt _ _ _ :: _, _
  | .arg _ :: .arg _ :: .eq _ :: _, _ => by
    rw [forForm]
    · exact .fail
    · rintro _ _ _ _ ⟨⟩

theorem tryForm_hits (env : Enclosing) (span : Span) : ∀ items : List Item, Item.allArgs items = true →
    Yields (tryForm env span items) fun op ↦
      op.outline.hits s = [span].count s + hitsOf s (Item.regions false items)
  | .arg b :: items, h => by
    rw [tryForm, Item.regions, hitsOf_cons, Item.hits_arg]
    refine .bind (written_hits env false b) fun inside hinside ↦ ?_
    refine .bind (tryClauses_hits env items h) fun ⟨handler, otherwise, last⟩ hclauses ↦ .pure ?_
    dsimp only at hclauses
    rw [Op.outline, hits_site, Outline.hits_seq, Outline.hits_seq, Outline.hits_seq, Outline.hits_loose,
      Expr.outline]
    omega
  | [], _ | .opt _ _ _ :: _, _ | .eq _ :: _, _ => by
    rw [tryForm]
    · exact .fail
    · rintro _ _ ⟨⟩

theorem tryClauses_hits (env : Enclosing) : ∀ items : List Item, Item.allArgs items = true →
    Yields (tryClauses env items) fun x ↦
      (Expr.outlineOfHandler x.1).hits s + ((Expr.outlineOfOptional x.2.1).hits s + (Op.outlineOfLast x.2.2).hits s) =
        hitsOf s (Item.regions false items)
  | [.arg keyword], _ => by
    rw [tryClauses]
    split
    · exact .fail
    · exact .fail
  | .arg keyword :: .arg w :: items, h => by
    rw [tryClauses, Item.regions, Item.regions, hitsOf_cons, hitsOf_cons, Item.hits_arg, Item.hits_arg]
    split
    next hname =>
      rw [Compound.hits_of_bareword? hname, Nat.zero_add]
      split
      · refine .bind (written_hits env false w) fun inside hinside ↦ ?_
        refine .bind (afterCatch_hits env items h) fun x hx ↦ .pure ?_
        dsimp only
        rw [Expr.outlineOfHandler, Outline.hits_loose, Expr.outline]
        omega
      · refine .bind (namedCatch_hits env keyword.span w items h) fun ⟨handler, otherwise, last⟩ hclauses ↦ .pure ?_
        exact hclauses
    next hname =>
      rw [Compound.hits_of_bareword? hname, Nat.zero_add]
      refine .bind (written_hits env false w) fun inside hinside ↦ ?_
      refine .bind (afterElse_hits env items h) fun last hlast ↦ .pure ?_
      dsimp only
      rw [Expr.outlineOfHandler, Expr.outlineOfOptional, Outline.hits_nothing, Outline.hits_loose, Expr.outline]
      omega
    next hname =>
      rw [Compound.hits_of_bareword? hname, Nat.zero_add]
      refine .bind (written_hits env false w) fun inside hinside ↦ .bind (endTry_nil items) fun _ hitems ↦ .pure ?_
      dsimp only
      rw [Expr.outlineOfHandler, Expr.outlineOfOptional, Op.outlineOfLast, Outline.hits_nothing, Expr.outline, hitems,
        Item.regions, hitsOf_nil]
      omega
    next => exact .fail
  | [], _ => by
    rw [tryClauses]
    · exact .pure rfl
    · rintro _ ⟨⟩
    · rintro _ _ _ ⟨⟩
  | .opt _ _ _ :: _, h | .eq _ :: _, h | .arg _ :: .opt _ _ _ :: _, h | .arg _ :: .eq _ :: _, h => nomatch h

theorem namedCatch_hits (env : Enclosing) (span : Span) (name : Compound) : ∀ items : List Item,
    Item.allArgs items = true → Yields (namedCatch env span name items) fun x ↦
      (Expr.outlineOfHandler (some x.1)).hits s +
        ((Expr.outlineOfOptional x.2.1).hits s + (Op.outlineOfLast x.2.2).hits s) =
          name.region.hits s + hitsOf s (Item.regions false items)
  | .arg b :: items, h => by
    rw [namedCatch, Item.regions, hitsOf_cons, Item.hits_arg]
    refine .bind (bareword_hits (s := s)) fun var hname ↦ .after fun _ ↦ ?_
    refine .bind (written_hits env false b) fun inside hinside ↦ ?_
    refine .bind (afterCatch_hits env items h) fun x hx ↦ .pure ?_
    dsimp only
    rw [Expr.outlineOfHandler, Outline.hits_loose, Outline.hits_seq, Outline.hits_declares, Expr.outline]
    omega
  | [], _ | .opt _ _ _ :: _, _ | .eq _ :: _, _ => by
    rw [namedCatch]
    · exact .fail
    · rintro _ _ ⟨⟩

theorem afterCatch_hits (env : Enclosing) : ∀ items : List Item, Item.allArgs items = true →
    Yields (afterCatch env items) fun x ↦
      (Expr.outlineOfOptional x.1).hits s + (Op.outlineOfLast x.2).hits s = hitsOf s (Item.regions false items)
  | [.arg keyword], _ => by
    rw [afterCatch]
    exact .fail
  | .arg keyword :: .arg w :: items, h => by
    rw [afterCatch, Item.regions, Item.regions, hitsOf_cons, hitsOf_cons, Item.hits_arg, Item.hits_arg]
    split
    next hname =>
      rw [Compound.hits_of_bareword? hname, Nat.zero_add]
      refine .bind (written_hits env false w) fun inside hinside ↦ ?_
      refine .bind (afterElse_hits env items h) fun last hlast ↦ .pure ?_
      dsimp only
      rw [Expr.outlineOfOptional, Outline.hits_loose, Expr.outline, hinside, hlast]
    next hname =>
      rw [Compound.hits_of_bareword? hname, Nat.zero_add]
      refine .bind (written_hits env false w) fun inside hinside ↦ .bind (endTry_nil items) fun _ hitems ↦ .pure ?_
      dsimp only
      rw [Expr.outlineOfOptional, Op.outlineOfLast, Outline.hits_nothing, Expr.outline, hitems, Item.regions,
        hitsOf_nil]
      omega
    next => exact .fail
  | [], _ => by
    rw [afterCatch]
    · exact .pure rfl
    · rintro _ ⟨⟩
    · rintro _ _ _ ⟨⟩
  | .opt _ _ _ :: _, h | .eq _ :: _, h | .arg _ :: .opt _ _ _ :: _, h | .arg _ :: .eq _ :: _, h => nomatch h

theorem afterElse_hits (env : Enclosing) : ∀ items : List Item, Item.allArgs items = true →
    Yields (afterElse env items) fun last ↦ (Op.outlineOfLast last).hits s = hitsOf s (Item.regions false items)
  | [.arg keyword], _ => by
    rw [afterElse]
    exact .fail
  | .arg keyword :: .arg w :: items, h => by
    rw [afterElse, Item.regions, Item.regions, hitsOf_cons, hitsOf_cons, Item.hits_arg, Item.hits_arg]
    split
    next hname =>
      rw [Compound.hits_of_bareword? hname, Nat.zero_add]
      refine .bind (written_hits env false w) fun inside hinside ↦ .bind (endTry_nil items) fun _ hitems ↦ .pure ?_
      rw [Op.outlineOfLast, Expr.outline, hitems, Item.regions, hitsOf_nil]
      exact hinside
    next => exact .fail
  | [], _ => by
    rw [afterElse]
    · exact .pure rfl
    · rintro _ ⟨⟩
    · rintro _ _ _ ⟨⟩
  | .opt _ _ _ :: _, h | .eq _ :: _, h | .arg _ :: .opt _ _ _ :: _, h | .arg _ :: .eq _ :: _, h => nomatch h

end

end Lowering

/-- **Lowering makes each site once**: the sites of an operation are those of its text, in some order. -/
theorem Chunk.sites_lower {source : Source} {scope : Scope} {tree : Chunk} {op : Op}
    (h : tree.lower source scope = .ok op) : (op.outline.sites.map (·.span)).Perm (sitesOf tree.regions) := by
  rw [Chunk.lower] at h
  split at h
  · next op' D hop =>
    cases h
    exact List.perm_iff_count.2 fun s ↦ Lowering.chunk_hits _ tree [] op D hop
  · cases h

end ValueShell
