import Mathlib.Data.List.Nodup
import ValueShell.Syntax

/-!
# Regions

The places of the nodes of a syntax tree, with everything else left out.  A `Region` is the span of a node with the
regions of the nodes inside; `Chunk.regions` reads them off a tree.

* **Layout** (`Region.Laid`): a region lies on tokens, around the regions inside it, which come in order.
* **Sites** (`Region.sites`): the spans that become call sites, which are those of forms and of pipelines of two or more
  forms.  A `del` removes one thing after another, and has a site for each of its words instead.  In a region that is
  laid on tokens all sites differ (`Region.Laid.wellSited`).

What keeps sites apart where one lies in the other is that nothing but a pipeline starts with a form: the words of a
`del` stand behind it, and a pipeline that is not a part of the script itself behind a bracket.
-/

set_option autoImplicit false

namespace ValueShell

/-! ## Spans -/

namespace Span

/-- The first span ends before the second starts. -/
def Before (a b : Span) : Prop :=
  a.stop ≤ b.start

/-- One of the spans ends before the other starts. -/
def Apart (a b : Span) : Prop :=
  a.Before b ∨ b.Before a

/-- The first span lies inside the second. -/
def Within (a b : Span) : Prop :=
  b.start ≤ a.start ∧ a.stop ≤ b.stop

/-- The span is not empty, starts where a token starts and stops where one stops. -/
structure OnTokens (tokens : List Spanned) (span : Span) : Prop where
  start : ∃ t ∈ tokens, t.span.start = span.start
  stop : ∃ t ∈ tokens, t.span.stop = span.stop
  lt : span.start < span.stop

theorem OnTokens.mono {tokens tokens' : List Spanned} {span : Span} (h : span.OnTokens tokens)
    (hsub : tokens ⊆ tokens') : span.OnTokens tokens' where
  start := h.start.imp fun _ ht ↦ ⟨hsub ht.1, ht.2⟩
  stop := h.stop.imp fun _ ht ↦ ⟨hsub ht.1, ht.2⟩
  lt := h.lt

end Span

/-! ## Regions -/

/-- What sort of node a region is that of, as far as that matters for call sites. -/
inductive Region.Kind where
  | pipeline
  | form
  /-- A word of a `del` -/
  | deletion
  | other

/-- The span of a node, with the regions of the nodes inside in their order.  The redirections of a form stand between
its other parts, and are kept aside. -/
inductive Region where
  | node (kind : Region.Kind) (span : Span) (inside aside : List Region)

namespace Region

/-- Can a call site start with this sort of node? -/
def Kind.opens : Kind → Bool
  | pipeline | form | deletion => true
  | other => false

/-- The site of a node itself, if it is one, where so many nodes are inside.  A single form is no pipeline. -/
def Kind.sites (kind : Kind) (span : Span) (inside : Nat) : List Span :=
  match kind with
  | pipeline => if inside = 1 then [] else [span]
  | form | deletion => [span]
  | other => []

def kind : Region → Kind
  | node kind _ _ _ => kind

def span : Region → Span
  | node _ span _ _ => span

/-- The regions inside, those kept aside included. -/
def parts : Region → List Region
  | node _ _ inside aside => inside ++ aside

mutual

/-- The spans that become call sites. -/
def sites : Region → List Span
  | node kind span inside aside => kind.sites span inside.length ++ (sitesOf inside ++ sitesOf aside)

/-- The spans in regions that become call sites. -/
def sitesOf : List Region → List Span
  | [] => []
  | r :: rs => r.sites ++ sitesOf rs

end

/-- The region, and all regions in it, lie well on the tokens: a span is not empty, starts and stops with a token,
and has those of the parts inside it, in order and without overlap.  Only a pipeline starts with what can be a call
site. -/
inductive Laid (tokens : List Spanned) : Region → Prop where
  | node {kind : Kind} {span : Span} {inside aside : List Region}
      (hspan : span.OnTokens tokens)
      (hwithin : ∀ r ∈ inside ++ aside, r.span.Within span)
      (hinside : inside.Pairwise fun r r' ↦ r.span.Before r'.span)
      (haside : aside.Pairwise fun r r' ↦ r.span.Before r'.span)
      (hapart : ∀ r ∈ inside, ∀ r' ∈ aside, r.span.Apart r'.span)
      (hpipeline : kind = .pipeline → aside = [])
      (hopens : ∀ r ∈ inside ++ aside, r.kind.opens = true → kind = .pipeline ∨ span.start < r.span.start)
      (hparts : ∀ r ∈ inside ++ aside, r.Laid tokens) : Laid tokens (node kind span inside aside)

theorem Laid.onTokens {tokens : List Spanned} {r : Region} (h : r.Laid tokens) : r.span.OnTokens tokens := by
  cases h with
  | node hspan => exact hspan

theorem Laid.mono {tokens tokens' : List Spanned} {r : Region} (h : r.Laid tokens) (hsub : tokens ⊆ tokens') :
    r.Laid tokens' := by
  induction h with
  | node hspan hwithin hinside haside hapart hpipeline hopens _ ih =>
    exact .node (hspan.mono hsub) hwithin hinside haside hapart hpipeline hopens ih

/-! ## Sites -/

@[simp] theorem sitesOf_append (rs rs' : List Region) : sitesOf (rs ++ rs') = sitesOf rs ++ sitesOf rs' := by
  induction rs with
  | nil => rw [sitesOf, List.nil_append, List.nil_append]
  | cons r rs ih => rw [List.cons_append, sitesOf, sitesOf, ih, List.append_assoc]

theorem mem_sitesOf {s : Span} {rs : List Region} : s ∈ sitesOf rs ↔ ∃ r ∈ rs, s ∈ r.sites := by
  induction rs with
  | nil => simp [sitesOf]
  | cons r rs ih => simp [sitesOf, ih]

namespace Kind

variable {kind : Kind} {span s : Span} {n : Nat}

theorem eq_of_mem_sites (h : s ∈ kind.sites span n) : s = span := by
  cases kind with
  | pipeline =>
    rw [sites] at h
    split at h
    · cases h
    · exact List.mem_singleton.1 h
  | form | deletion => exact List.mem_singleton.1 h
  | other => cases h

theorem ne_one_of_mem_sites (h : s ∈ pipeline.sites span n) : n ≠ 1 := by
  rintro rfl
  cases h

theorem nodup_sites : (kind.sites span n).Nodup := by
  cases kind with
  | pipeline =>
    rw [sites]
    split
    · exact .nil
    · exact List.nodup_singleton _
  | form | deletion => exact List.nodup_singleton _
  | other => exact .nil

end Kind

theorem sites_node {kind : Kind} {span : Span} {inside aside : List Region} :
    (node kind span inside aside).sites = kind.sites span inside.length ++ sitesOf (inside ++ aside) := by
  rw [sites, sitesOf_append]

/-- What is known of the sites in a region. -/
structure WellSited (tokens : List Spanned) (r : Region) : Prop where
  onTokens : ∀ s ∈ r.sites, s.OnTokens tokens
  within : ∀ s ∈ r.sites, s.Within r.span
  /-- The sites of the parts stand behind the start of what is no pipeline. -/
  inner : r.kind = .pipeline ∨ ∀ s ∈ sitesOf r.parts, r.span.start < s.start
  nodup : r.sites.Nodup

variable {tokens : List Spanned} {kind : Kind} {span : Span} {inside aside : List Region}

/-- Regions that are apart have no site in common. -/
theorem WellSited.disjoint {r r' : Region} (h : r.WellSited tokens) (h' : r'.WellSited tokens)
    (hapart : r.span.Apart r'.span) {s : Span} (hs : s ∈ r.sites) : s ∉ r'.sites := by
  intro hs'
  have hpos := (h.onTokens s hs).lt
  have hwithin := h.within s hs
  have hwithin' := h'.within s hs'
  simp only [Span.Apart, Span.Before, Span.Within] at hapart hwithin hwithin'
  omega

theorem nodup_sitesOf {rs : List Region} (h : ∀ r ∈ rs, r.WellSited tokens)
    (hapart : rs.Pairwise fun r r' ↦ r.span.Apart r'.span) : (sitesOf rs).Nodup := by
  induction hapart with
  | nil => exact .nil
  | @cons r rs hr _ ih =>
    rw [sitesOf, List.nodup_append]
    refine ⟨(h r List.mem_cons_self).nodup, ih fun r' hr' ↦ h r' (List.mem_cons_of_mem _ hr'), ?_⟩
    rintro s hs s' hs' rfl
    obtain ⟨r', hr', hs'⟩ := mem_sitesOf.1 hs'
    exact (h r List.mem_cons_self).disjoint (h r' (List.mem_cons_of_mem _ hr')) (hr r' hr') hs hs'

/-- The parts are apart from each other, whether they are kept aside or not. -/
theorem pairwise_parts (hinside : inside.Pairwise fun r r' ↦ r.span.Before r'.span)
    (haside : aside.Pairwise fun r r' ↦ r.span.Before r'.span)
    (hapart : ∀ r ∈ inside, ∀ r' ∈ aside, r.span.Apart r'.span) :
    (inside ++ aside).Pairwise fun r r' ↦ r.span.Apart r'.span :=
  List.pairwise_append.2 ⟨hinside.imp .inl, haside.imp .inl, hapart⟩

/-- The sites of the parts of what is no pipeline stand behind its start: a part that is a site does, and in the others
the sites stand behind the start of the part. -/
theorem lt_start_of_mem_sitesOf {parts : List Region} (hparts : ∀ r ∈ parts, r.WellSited tokens)
    (hwithin : ∀ r ∈ parts, r.span.Within span)
    (hopens : ∀ r ∈ parts, r.kind.opens = true → span.start < r.span.start) :
    ∀ s ∈ sitesOf parts, span.start < s.start := by
  intro s hs
  obtain ⟨r, hr, hs⟩ := mem_sitesOf.1 hs
  by_cases hkind : r.kind.opens = true
  · exact Nat.lt_of_lt_of_le (hopens r hr hkind) ((hparts r hr).within s hs).1
  · obtain ⟨kind, place, inside, aside⟩ := r
    cases kind with
    | other =>
      have hinner := (hparts _ hr).inner.resolve_left nofun
      rw [sites_node, Kind.sites, List.nil_append] at hs
      exact Nat.lt_of_le_of_lt (hwithin _ hr).1 (hinner s hs)
    | pipeline | form | deletion => exact absurd rfl hkind

/-- The span of a pipeline that has not just one form is none of the sites inside it: one of the forms would fill it,
and leave no room for the others. -/
theorem not_mem_sitesOf {parts : List Region} (hparts : ∀ r ∈ parts, r.WellSited tokens)
    (htokens : ∀ r ∈ parts, r.span.start < r.span.stop) (hwithin : ∀ r ∈ parts, r.span.Within span)
    (hapart : parts.Pairwise fun r r' ↦ r.span.Apart r'.span) (hlength : parts.length ≠ 1) :
    span ∉ sitesOf parts := by
  intro hspan
  obtain ⟨r, hr, hsite⟩ := mem_sitesOf.1 hspan
  obtain ⟨before, after, rfl⟩ := List.append_of_mem hr
  obtain ⟨r', hr', hother⟩ : ∃ r' ∈ before ++ r :: after, r.span.Apart r'.span := by
    rw [List.pairwise_append, List.pairwise_cons] at hapart
    obtain ⟨-, ⟨hafter, -⟩, hbefore⟩ := hapart
    cases before with
    | cons r' before => exact ⟨r', by simp, (hbefore r' (by simp) r (by simp)).symm⟩
    | nil =>
      cases after with
      | cons r' after => exact ⟨r', by simp, hafter r' (by simp)⟩
      | nil => simp at hlength
  have hfills := (hparts r hr).within _ hsite
  have hpos := htokens r' hr'
  have hin := hwithin r' hr'
  simp only [Span.Apart, Span.Before, Span.Within] at hfills hin hother
  omega

/-- **Sites.**  In a region that lies well on tokens, the sites do so too, and differ. -/
theorem Laid.wellSited {r : Region} (h : r.Laid tokens) : r.WellSited tokens := by
  induction h with
  | @node kind span inside aside hspan hwithin hinside haside hapart hpipeline hopens hparts ih =>
    have hpairwise := pairwise_parts hinside haside hapart
    have hinner : kind = .pipeline ∨ ∀ s ∈ sitesOf (inside ++ aside), span.start < s.start := by
      by_cases hkind : kind = .pipeline
      · exact .inl hkind
      · exact .inr (lt_start_of_mem_sitesOf ih hwithin fun r hr ho ↦ (hopens r hr ho).resolve_left hkind)
    have hmem (s : Span) : s ∈ (Region.node kind span inside aside).sites ↔
        s ∈ kind.sites span inside.length ∨ ∃ r ∈ inside ++ aside, s ∈ r.sites := by
      rw [sites_node, List.mem_append, mem_sitesOf]
    constructor
    case onTokens =>
      intro s hs
      rcases (hmem s).1 hs with hown | ⟨r, hr, hs⟩
      · exact Kind.eq_of_mem_sites hown ▸ hspan
      · exact (ih r hr).onTokens s hs
    case within =>
      intro s hs
      rcases (hmem s).1 hs with hown | ⟨r, hr, hs⟩
      · exact Kind.eq_of_mem_sites hown ▸ ⟨Nat.le_refl _, Nat.le_refl _⟩
      · obtain ⟨hstart, hstop⟩ := (ih r hr).within s hs
        exact ⟨Nat.le_trans (hwithin r hr).1 hstart, Nat.le_trans hstop (hwithin r hr).2⟩
    case inner => exact hinner
    case nodup =>
      rw [sites_node, List.nodup_append]
      refine ⟨Kind.nodup_sites, nodup_sitesOf ih hpairwise, ?_⟩
      rintro s hown _ hs rfl
      obtain rfl := Kind.eq_of_mem_sites hown
      rcases hinner with rfl | hlt
      · -- a pipeline starts with its first form, so it is the number of forms that tells them apart
        have hlength := Kind.ne_one_of_mem_sites hown
        obtain rfl := hpipeline rfl
        rw [List.append_nil] at ih hwithin hpairwise hparts hs
        exact not_mem_sitesOf ih (fun r hr ↦ (hparts r hr).onTokens.lt) hwithin hpairwise hlength hs
      · exact Nat.lt_irrefl _ (hlt _ hs)

end Region

/-! ## The regions of a tree -/

/-- Is this the command word of a `del`? -/
def Compound.deletes (head : Compound) : Bool :=
  head.bareword? == some "del"

mutual

/-- The regions of the pipelines. -/
def Chunk.regions : Chunk → List Region
  | ⟨pipelines⟩ => Pipeline.regions pipelines

/-- The regions of pipelines one after another. -/
def Pipeline.regions : List Pipeline → List Region
  | [] => []
  | p :: ps => p.region :: Pipeline.regions ps

/-- A pipeline around its forms. -/
def Pipeline.region : Pipeline → Region
  | ⟨span, forms⟩ => .node .pipeline span (Form.regions forms) []

/-- The regions of the forms of a pipeline. -/
def Form.regions : List Form → List Region
  | [] => []
  | f :: fs => f.region :: Form.regions fs

/-- A form around its command word and its items, with the redirections aside. -/
def Form.region : Form → Region
  | ⟨span, head, items, redirs⟩ =>
    .node (if head.deletes then .other else .form) span (head.region :: Item.regions head.deletes items)
      (Redir.regions redirs)

/-- The regions of the items of a form, which may be a `del`. -/
def Item.regions (deletes : Bool) : List Item → List Region
  | [] => []
  | i :: is => i.region deletes :: Item.regions deletes is

/-- An argument, an option around its value, or an equals sign. -/
def Item.region (deletes : Bool) : Item → Region
  | .arg word => if deletes then .node .deletion word.span [word.region] [] else word.region
  | .opt span _ value => .node .other span (Compound.regionOfOptional value) []
  | .eq span => .node .other span [] []

/-- The regions of redirections. -/
def Redir.regions : List Redir → List Region
  | [] => []
  | r :: rs => r.region :: Redir.regions rs

/-- A redirection around its target.  A copy of another stream has none. -/
def Redir.region : Redir → Region
  | ⟨span, _, .dup _, _⟩ => .node .other span [] []
  | ⟨span, _, .write, target⟩ | ⟨span, _, .append, target⟩ =>
    .node .other span (Compound.regionOfOptional target) []

/-- A word around its parts. -/
def Compound.region : Compound → Region
  | ⟨span, parts⟩ => .node .other span (Indexed.regions parts) []

/-- The region of a word that may be missing. -/
def Compound.regionOfOptional : Option Compound → List Region
  | none => []
  | some word => [word.region]

/-- The regions of words. -/
def Compound.regions : List Compound → List Region
  | [] => []
  | w :: ws => w.region :: Compound.regions ws

/-- The regions of the words of indices. -/
def Compound.regionsOfLists : List (List Compound) → List Region
  | [] => []
  | ws :: rest => Compound.regions ws ++ Compound.regionsOfLists rest

/-- The regions of keys and values. -/
def Compound.regionsOfPairs : List (Compound × Compound) → List Region
  | [] => []
  | (k, v) :: ps => k.region :: v.region :: Compound.regionsOfPairs ps

/-- The regions of defaults. -/
def Compound.regionsOfDefaults : List (String × Compound) → List Region
  | [] => []
  | (_, w) :: options => w.region :: Compound.regionsOfDefaults options

/-- The regions of the parts of a word. -/
def Indexed.regions : List Indexed → List Region
  | [] => []
  | p :: ps => p.region :: Indexed.regions ps

/-- A primary and its indices. -/
def Indexed.region : Indexed → Region
  | ⟨span, head, indices⟩ => .node .other span (head.regions ++ Compound.regionsOfLists indices) []

/-- The regions of what stands in a primary. -/
def Primary.regions : Primary → List Region
  | .bareword _ | .quoted _ | .variable _ _ => []
  | .capture inside => inside.regions
  | .list words => Compound.regions words
  | .map pairs => Compound.regionsOfPairs pairs
  | .lambda l => [l.region]

/-- A lambda around its defaults and its body. -/
def Lambda.region : Lambda → Region
  | ⟨span, _, options, _, body⟩ => .node .other span (Compound.regionsOfDefaults options ++ body.regions) []

end

theorem Chunk.regions_eq (c : Chunk) : c.regions = Pipeline.regions c.pipelines := by
  obtain ⟨pipelines⟩ := c
  rw [regions]

theorem Pipeline.region_eq (p : Pipeline) : p.region = .node .pipeline p.span (Form.regions p.forms) [] := by
  obtain ⟨span, forms⟩ := p
  rw [region]

theorem Form.region_eq (f : Form) :
    f.region = .node (if f.head.deletes then .other else .form) f.span
      (f.head.region :: Item.regions f.head.deletes f.items) (Redir.regions f.redirs) := by
  obtain ⟨span, head, items, redirs⟩ := f
  rw [region]

theorem Compound.region_eq (w : Compound) : w.region = .node .other w.span (Indexed.regions w.parts) [] := by
  obtain ⟨span, parts⟩ := w
  rw [region]

theorem Indexed.region_eq (p : Indexed) :
    p.region = .node .other p.span (p.head.regions ++ Compound.regionsOfLists p.indices) [] := by
  obtain ⟨span, head, indices⟩ := p
  rw [region]

theorem Lambda.region_eq (l : Lambda) :
    l.region = .node .other l.span (Compound.regionsOfDefaults l.options ++ l.body.regions) [] := by
  obtain ⟨span, params, options, restOptions, body⟩ := l
  rw [region]

/-! ### Words start no sites -/

/-- No site starts with one of the regions. -/
def Region.Shut (rs : List Region) : Prop :=
  ∀ r ∈ rs, r.kind.opens = false

namespace Region.Shut

variable {rs rs' : List Region}

theorem nil : Shut [] :=
  nofun

theorem not_opens (h : Shut rs) {r : Region} (hr : r ∈ rs) : r.kind.opens ≠ true := by
  rw [h r hr]
  exact Bool.false_ne_true

theorem append (h : Shut rs) (h' : Shut rs') : Shut (rs ++ rs') :=
  List.forall_mem_append.2 ⟨h, h'⟩

theorem word (w : Compound) (h : Shut rs) : Shut (w.region :: rs) :=
  List.forall_mem_cons.2 ⟨by rw [Compound.region_eq]; rfl, h⟩

theorem part (p : Indexed) (h : Shut rs) : Shut (p.region :: rs) :=
  List.forall_mem_cons.2 ⟨by rw [Indexed.region_eq]; rfl, h⟩

theorem parts (ps : List Indexed) : Shut (Indexed.regions ps) := by
  induction ps with
  | nil => exact nil
  | cons p ps ih => exact ih.part p

theorem optional (value : Option Compound) : Shut (Compound.regionOfOptional value) := by
  cases value with
  | none => exact nil
  | some word => exact nil.word word

theorem words (ws : List Compound) : Shut (Compound.regions ws) := by
  induction ws with
  | nil => exact nil
  | cons w ws ih => exact ih.word w

theorem lists (wss : List (List Compound)) : Shut (Compound.regionsOfLists wss) := by
  induction wss with
  | nil => exact nil
  | cons ws wss ih => exact (words ws).append ih

theorem defaults (options : List (String × Compound)) : Shut (Compound.regionsOfDefaults options) := by
  induction options with
  | nil => exact nil
  | cons o options ih =>
    obtain ⟨name, w⟩ := o
    exact ih.word w

end Region.Shut

end ValueShell
