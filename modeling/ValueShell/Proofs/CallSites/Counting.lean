import ValueShell.Proofs.CallSites.Regions
import ValueShell.Proofs.Outline

/-!
# Counting sites

`Outline.hits` and `Region.hitsOf` count the sites at a span, so that the order in which they are listed does not
matter.  What the nodes of a tree add to the count is said here once for each, and `Compound.hits_of_literal?` and
`Compound.hits_of_bareword?` say which words have no site in them: those that are names.
-/

set_option autoImplicit false

namespace ValueShell

variable {s : Span}

/-! ## Outlines and regions -/

namespace Outline

/-- How many of the sites have the span. -/
def hits (s : Span) (o : Outline) : Nat :=
  (o.sites.map (·.span)).count s

variable {a b o : Outline} {name : String} {names : List String} {site : CallSite}

@[simp] theorem hits_nothing : nothing.hits s = 0 :=
  rfl

@[simp] theorem hits_refers : (refers name).hits s = 0 :=
  rfl

@[simp] theorem hits_declares : (declares name).hits s = 0 :=
  rfl

@[simp] theorem hits_form : (form site o).hits s = [site.span].count s + o.hits s := by
  rw [hits, sites, List.map_cons, List.count_cons, List.count_singleton, Nat.add_comm]
  rfl

@[simp] theorem hits_seq : (seq a b).hits s = a.hits s + b.hits s := by
  rw [hits, sites, List.map_append, List.count_append]
  rfl

@[simp] theorem hits_loose : (loose o).hits s = o.hits s :=
  rfl

@[simp] theorem hits_own : (own names o).hits s = o.hits s :=
  rfl

theorem hits_all_map {α : Type} {f : α → Outline} (h : ∀ x, (f x).hits s = 0) (xs : List α) :
    (all (xs.map f)).hits s = 0 := by
  induction xs with
  | nil => rfl
  | cons x xs ih => rw [List.map_cons, all, hits_seq, h, ih]

end Outline

@[simp] theorem Place.hits_removal (p : Place) : p.removal.hits s = 0 := by
  unfold Place.removal
  split <;> rfl

namespace Region

/-- How many of the sites in a region have the span. -/
def hits (s : Span) (r : Region) : Nat :=
  r.sites.count s

/-- How many of the sites in regions have the span. -/
def hitsOf (s : Span) (rs : List Region) : Nat :=
  (sitesOf rs).count s

variable {r : Region} {rs rs' : List Region}

@[simp] theorem hitsOf_nil : hitsOf s [] = 0 :=
  rfl

@[simp] theorem hitsOf_cons : hitsOf s (r :: rs) = r.hits s + hitsOf s rs := by
  rw [hitsOf, sitesOf, List.count_append]
  rfl

@[simp] theorem hitsOf_append : hitsOf s (rs ++ rs') = hitsOf s rs + hitsOf s rs' := by
  rw [hitsOf, sitesOf_append, List.count_append]
  rfl

@[simp] theorem hits_node {kind : Kind} {span : Span} {inside aside : List Region} :
    (node kind span inside aside).hits s =
      (kind.sites span inside.length).count s + (hitsOf s inside + hitsOf s aside) := by
  rw [hits, sites_node, sitesOf_append, List.count_append, List.count_append]
  rfl

end Region

open Region

/-! ## The sites of a tree -/

theorem Chunk.hits_regions (c : Chunk) : hitsOf s c.regions = hitsOf s (Pipeline.regions c.pipelines) := by
  rw [Chunk.regions_eq]

theorem Form.hits_region (f : Form) : f.region.hits s = (if f.head.deletes then 0 else [f.span].count s) +
    (f.head.region.hits s + hitsOf s (Item.regions f.head.deletes f.items) + hitsOf s (Redir.regions f.redirs)) := by
  rw [Form.region_eq, hits_node, hitsOf_cons]
  cases f.head.deletes <;> rfl

theorem Compound.hits_region (w : Compound) : w.region.hits s = hitsOf s (Indexed.regions w.parts) := by
  rw [Compound.region_eq, hits_node, hitsOf_nil]
  exact Nat.zero_add _

theorem Indexed.hits_region (p : Indexed) :
    p.region.hits s = hitsOf s p.head.regions + hitsOf s (Compound.regionsOfLists p.indices) := by
  rw [Indexed.region_eq, hits_node, hitsOf_nil, hitsOf_append]
  exact Nat.zero_add _

theorem Lambda.hits_region (l : Lambda) :
    l.region.hits s = hitsOf s (Compound.regionsOfDefaults l.options) + hitsOf s l.body.regions := by
  rw [Lambda.region_eq, hits_node, hitsOf_nil, hitsOf_append]
  exact Nat.zero_add _

namespace Item

variable {deletes : Bool}

theorem regions_cons (item : Item) (items : List Item) :
    Item.regions deletes (item :: items) = item.region deletes :: Item.regions deletes items := by
  rw [regions]

theorem hits_arg (w : Compound) : ((Item.arg w).region false).hits s = w.region.hits s :=
  rfl

theorem hits_arg_deletes (w : Compound) : ((Item.arg w).region true).hits s = [w.span].count s + w.region.hits s := by
  rw [region, if_pos rfl, hits_node, hitsOf_cons, hitsOf_nil]
  rfl

theorem hits_opt (span : Span) (name : String) (value : Option Compound) :
    ((Item.opt span name value).region deletes).hits s = hitsOf s (Compound.regionOfOptional value) := by
  rw [region, hits_node, hitsOf_nil]
  exact Nat.zero_add _

theorem hits_eq (span : Span) : ((Item.eq span).region deletes).hits s = 0 := by
  rw [region, hits_node, hitsOf_nil]
  rfl

/-- Are all items arguments? -/
def allArgs : List Item → Bool
  | [] => true
  | .arg _ :: items => allArgs items
  | .opt _ _ _ :: _ | .eq _ :: _ => false

end Item

namespace Redir

theorem hits_region_file {span : Span} {fd : Nat} {mode : RedirMode} {word : Compound}
    (h : mode = .write ∨ mode = .append) : (Redir.region ⟨span, fd, mode, some word⟩).hits s = word.region.hits s := by
  rcases h with rfl | rfl <;>
  · rw [region, hits_node, hitsOf_nil, Compound.regionOfOptional, hitsOf_cons, hitsOf_nil]
    exact Nat.zero_add _

end Redir

/-! ### Words without a site -/

namespace Compound

variable {w : Compound} {name : String}

/-- In a word that is a name there is no site. -/
theorem hits_of_literal? (h : w.literal? = some name) : w.region.hits s = 0 := by
  unfold literal? at h
  split at h
  iterate 2
    rw [hits_region, Indexed.regions, Indexed.regions, hitsOf_cons, Indexed.hits_region, Primary.regions]
    rfl
  cases h

theorem hits_of_bareword? (h : w.bareword? = some name) : w.region.hits s = 0 := by
  unfold bareword? at h
  split at h
  · exact hits_of_literal? rfl
  · cases h

theorem deletes_eq (h : w.bareword? = some name) : w.deletes = (name == "del") := by
  rw [deletes, h]
  rfl

end Compound

end ValueShell
