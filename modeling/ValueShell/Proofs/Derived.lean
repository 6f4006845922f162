import Mathlib.Data.List.Nodup
import ValueShell.Proofs.Alone
import ValueShell.Proofs.Capture
import ValueShell.Proofs.Mention

/-!
# What evaluated text sees

Text that is evaluated without a namespace of its own runs in one that holds every cell its caller can see.
That namespace is made by putting the bindings of the caller's chain over one another, from the outermost in,
while a name is looked up in the chain from the innermost out.  The two agree:

* `Bindings.find?_flatten`: one namespace gives what the chain gives.
* `Bindings.names_flatten`: its names stand in the order in which they first come, from the outermost in.
* `Frame.evaluated_sees_caller` says both of the namespace that `eval` makes, and of the scope that the text is
  checked against.

In a namespace no name is bound twice (`Act.boundOnce`).  This is what keeps `absorb`, where the last binding of
a name counts, together with `find?`, which stops at the first.
-/

set_option autoImplicit false

namespace ValueShell

/-! ## One namespace over another -/

namespace Bindings

variable {bs others : Bindings} {chain : List Bindings} {name x : String} {c : CellId}

theorem find?_cons (n : String) (d : CellId) (bs : Bindings) :
    find? ((n, d) :: bs) x = if n = x then some d else bs.find? x := by
  by_cases h : n = x <;> simp [find?, h]

theorem find?_insert : (bs.insert name c).find? x = if name = x then some c else bs.find? x := by
  induction bs with
  | nil => rw [insert, find?_cons]
  | cons b bs ih =>
    obtain ⟨n, d⟩ := b
    rw [insert]
    by_cases hn : n = name
    · subst hn
      by_cases hx : n = x <;> simp [find?_cons, hx]
    · rw [if_neg hn, find?_cons, ih, find?_cons]
      by_cases hx : n = x
      · have hname : ¬ name = x := fun h ↦ hn (hx.trans h.symm)
        simp [hx, hname]
      · simp [hx]

theorem names_insert : (bs.insert name c).names = if name ∈ bs.names then bs.names else bs.names ++ [name] := by
  induction bs with
  | nil => simp [insert, names]
  | cons b bs ih =>
    obtain ⟨n, d⟩ := b
    rw [insert]
    by_cases hn : n = name
    · simp [names, hn]
    · have hname : ¬ name = n := fun h ↦ hn h.symm
      have hcons : names ((n, d) :: insert name c bs) = n :: names (insert name c bs) := rfl
      rw [if_neg hn, hcons, ih]
      by_cases hmem : name ∈ names bs
      · have hmem' : name ∈ names ((n, d) :: bs) := List.mem_cons_of_mem n hmem
        rw [if_pos hmem, if_pos hmem']
        rfl
      · have hmem' : name ∉ names ((n, d) :: bs) := by
          rintro (_ | ⟨_, h⟩)
          · exact hname rfl
          · exact hmem h
        rw [if_neg hmem, if_neg hmem']
        rfl

theorem nodup_insert (h : bs.names.Nodup) : (bs.insert name c).names.Nodup := by
  rw [names_insert]
  split
  · exact h
  · rename_i hname
    exact List.nodup_append.2 ⟨h, List.nodup_singleton _, by
      rintro a ha b hb rfl
      exact hname (List.mem_singleton.1 hb ▸ ha)⟩

theorem absorb_cons (bs : Bindings) (n : String) (d : CellId) (others : Bindings) :
    bs.absorb ((n, d) :: others) = (bs.insert n d).absorb others :=
  rfl

/-- What is put over the bindings is found first. -/
theorem find?_absorb (h : others.names.Nodup) : (bs.absorb others).find? x = (others.find? x).or (bs.find? x) := by
  induction others generalizing bs with
  | nil => rfl
  | cons o others ih =>
    obtain ⟨n, d⟩ := o
    have hnodup : n ∉ names others ∧ (names others).Nodup := List.nodup_cons.1 h
    rw [absorb_cons, ih hnodup.2, find?_insert, find?_cons]
    by_cases hx : n = x
    · have hnone : find? others x = none := by
        rw [← Option.not_isSome_iff_eq_none, find?_isSome_iff]
        exact hx ▸ hnodup.1
      simp [hx, hnone]
    · simp [hx]

theorem nodup_absorb (h : bs.names.Nodup) : (bs.absorb others).names.Nodup := by
  induction others generalizing bs with
  | nil => exact h
  | cons o others ih => exact ih (nodup_insert h)

/-- Names that are new come behind those that are there. -/
theorem names_absorb : (bs.absorb others).names = bs.names ++ (others.names.removeAll bs.names).eraseDups := by
  induction others generalizing bs with
  | nil => simp [absorb, names, List.removeAll]
  | cons o others ih =>
    obtain ⟨n, d⟩ := o
    have hnames : names ((n, d) :: others) = n :: names others := rfl
    rw [absorb_cons, ih, names_insert, hnames]
    by_cases hn : n ∈ bs.names
    · have hdrop : (n :: names others).removeAll bs.names = (names others).removeAll bs.names := by
        simp [List.removeAll, hn]
      rw [if_pos hn, hdrop]
    · have hkeep : (n :: names others).removeAll bs.names = n :: (names others).removeAll bs.names := by
        simp [List.removeAll, hn]
      have hnew : (names others).removeAll (bs.names ++ [n]) =
          ((names others).removeAll bs.names).filter fun b ↦ !b == n := by
        simp only [List.removeAll, List.filter_filter]
        refine List.filter_congr fun b _ ↦ ?_
        by_cases hb : b = n <;> simp [hb]
      rw [if_neg hn, hkeep, List.eraseDups_cons, hnew, List.append_assoc, List.singleton_append]

/-! ## A whole chain -/

theorem findIn?_cons (bs : Bindings) (chain : List Bindings) :
    findIn? (bs :: chain) x = (bs.find? x).or (findIn? chain x) := by
  rw [findIn?]
  cases bs.find? x <;> rfl

theorem findIn?_append_eq (chain rest : List Bindings) :
    findIn? (chain ++ rest) x = (findIn? chain x).or (findIn? rest x) := by
  induction chain with
  | nil => rfl
  | cons bs chain ih => rw [List.cons_append, findIn?_cons, ih, findIn?_cons, Option.or_assoc]

theorem flatten_cons (bs : Bindings) (chain : List Bindings) :
    flatten (bs :: chain) = (flatten chain).absorb bs := by
  simp [flatten]

/-- **Searching the chain from the inside out finds what is on top** when it is put together from the outside
in. -/
theorem find?_flatten (h : ∀ bs ∈ chain, bs.names.Nodup) : (flatten chain).find? x = findIn? chain x := by
  induction chain with
  | nil => rfl
  | cons bs chain ih =>
    obtain ⟨hbs, hchain⟩ := List.forall_mem_cons.1 h
    rw [flatten_cons, find?_absorb hbs, ih hchain, findIn?]
    cases bs.find? x <;> rfl

theorem nodup_flatten (chain : List Bindings) : (flatten chain).names.Nodup := by
  induction chain with
  | nil => exact List.nodup_nil
  | cons bs chain ih =>
    rw [flatten_cons]
    exact nodup_absorb ih

/-- The names stand in the order in which they first come, from the outermost bindings in. -/
theorem names_flatten (chain : List Bindings) :
    (flatten chain).names = (chain.reverse.flatMap names).eraseDups := by
  induction chain with
  | nil => rfl
  | cons bs chain ih =>
    have hremove : bs.names.removeAll (chain.reverse.flatMap names).eraseDups =
        bs.names.removeAll (chain.reverse.flatMap names) := by
      simp only [List.removeAll]
      refine List.filter_congr fun n _ ↦ ?_
      rw [Bool.eq_iff_iff]
      simp [List.mem_eraseDups]
    rw [flatten_cons, names_absorb, ih, hremove, List.reverse_cons, List.flatMap_append, List.eraseDups_append]
    simp

theorem mem_names_flatten : x ∈ (flatten chain).names ↔ ∃ bs ∈ chain, x ∈ bs.names := by
  rw [names_flatten, List.mem_eraseDups, List.mem_flatMap]
  simp

/-- One namespace stands for the front of a chain. -/
theorem findIn?_flatten (h : ∀ bs ∈ chain, bs.names.Nodup) (rest : List Bindings) :
    findIn? (flatten chain :: rest) x = findIn? (chain ++ rest) x := by
  rw [findIn?_cons, find?_flatten h, findIn?_append_eq]

end Bindings

/-- A name leads to the same cell in two chains in which its root does. -/
theorem Store.find?_congr {s : Store} {chain chain' : List Bindings} (name : String)
    (h : ∀ root, Bindings.findIn? chain root = Bindings.findIn? chain' root) :
    s.find? chain name = s.find? chain' name := by
  rw [Store.find?, Store.find?]
  split
  · rfl
  · exact h _
  · rw [h]

/-! ## No name is bound twice -/

theorem Bindings.names_erase_sublist (bs : Bindings) (name : String) : (bs.erase name).names.Sublist bs.names := by
  induction bs with
  | nil => exact List.Sublist.refl _
  | cons b bs ih =>
    obtain ⟨n, c⟩ := b
    rw [erase]
    split
    · exact List.sublist_cons_self _ _
    · exact ih.cons_cons n

/-- No name is bound twice in a namespace. -/
def Store.BoundOnce (s : Store) : Prop :=
  ∀ ns, (s.bindings ns).names.Nodup

namespace Store.BoundOnce

variable {s : Store}

theorem modifySpace (h : s.BoundOnce) (ns : NsId) {f : Bindings → Bindings}
    (hf : ∀ bs : Bindings, bs.names.Nodup → (f bs).names.Nodup) : (s.modifySpace ns f).BoundOnce := by
  intro ns'
  by_cases hns : ns' = ns
  · subst hns
    by_cases hlt : ns'.index < s.spaces.size
    · rw [bindings_modifySpace_self f hlt]
      exact hf _ (h ns')
    · have hnone : (s.modifySpace ns' f).bindings ns' = [] := by
        have hout : s.spaces[ns'.index]? = none := Array.getElem?_eq_none (Nat.le_of_not_lt hlt)
        simp [bindings, Store.modifySpace, Array.getD_eq_getD_getElem?, Array.getElem?_modify, hout]
      rw [hnone]
      exact List.nodup_nil
  · rw [bindings_modifySpace_of_ne f hns]
    exact h ns'

theorem declare (h : s.BoundOnce) (ns : NsId) (name : String) (v : Value) : (s.declare ns name v).2.BoundOnce :=
  modifySpace (s := (s.newCell v).2) h ns fun _ hbs ↦ Bindings.nodup_insert hbs

theorem remove (h : s.BoundOnce) (ns : NsId) (name : String) : (s.remove ns name).2.BoundOnce :=
  h.modifySpace ns fun bs hbs ↦ hbs.sublist (bs.names_erase_sublist name)

theorem newSpace (h : s.BoundOnce) {bs : Bindings} (hbs : bs.names.Nodup) : (s.newSpace bs).2.BoundOnce := by
  intro ns
  by_cases hns : ns = (s.newSpace bs).1
  · rw [hns, bindings_newSpace_new]
    exact hbs
  · rw [bindings_newSpace_of_ne hns]
    exact h ns

theorem spaceOfPairs (h : s.BoundOnce) (pairs : List (String × Value)) : (s.spaceOfPairs pairs).2.BoundOnce := by
  suffices hall : ∀ ns (t : Store), t.BoundOnce → (t.declareAll ns pairs).BoundOnce from
    hall _ _ (h.newSpace List.nodup_nil)
  induction pairs with
  | nil => exact fun _ _ ht ↦ ht
  | cons p pairs ih => exact fun ns t ht ↦ ih ns _ (ht.declare ns p.1 p.2)

theorem keptWithin : KeptWithin (fun _ ↦ True) BoundOnce where
  cells _ _ _ := fun _ _ ↦ trivial
  write _ _ _ h _ := h
  declare _ ns name v h _ _ := h.declare ns name v
  remove _ ns name h _ := h.remove ns name

end Store.BoundOnce

/-- **No act binds a name twice**, unless it makes a namespace of bindings in which one is. -/
theorem Act.boundOnce {a : Act} {w : World} (h : w.store.BoundOnce)
    (hnew : ∀ bs, a = .newSpace bs → bs.names.Nodup) : (a.perform w).2.store.BoundOnce := by
  have within (v : Value) : v.Within fun _ ↦ True := fun _ _ ↦ trivial
  by_cases hpart : a.part = .store
  · cases a with
    | declare space name v => exact h.declare space name v
    | remove space name => exact h.remove space name
    | newSpace bs => exact h.newSpace (hnew bs rfl)
    | newSpaceOf pairs => exact h.spaceOfPairs pairs
    | assoc base path v =>
      rw [perform, inStore.eq_def]
      split
      next hassoc =>
        exact (Store.BoundOnce.keptWithin.assocPath h (within _) (fun k _ ↦ within k) (within _) hassoc).1
      next => exact h
    | dissoc base path =>
      rw [perform, inStore.eq_def]
      split
      next hdissoc => exact (Store.BoundOnce.keptWithin.dissocPath h (within _) (fun k _ ↦ within k) hdissoc).1
      next => exact h
    | write | newClosure => exact h
    | _ => cases hpart
  · rw [(a.perform_sameBut w).store hpart]
    exact h

/-! ## Evaluated text -/

/-- The bindings that code in a frame can see beside the builtin ones, innermost first. -/
def Frame.seen (fm : Frame) (w : World) : List Bindings :=
  w.store.bindings fm.space :: fm.outer

namespace World

variable {w : World} {fm : Frame} {name : String}

/-- The names that code can see which is to run in a namespace with bindings around it. -/
def scopeAround (w : World) (space : NsId) (outer : List Bindings) : Scope :=
  { inner := (w.store.bindings space).names
    outer := outer.map Bindings.names
    builtin := (w.store.bindings w.builtin).names }

theorem scope_eq (w : World) (space : NsId) : w.scope space = w.scopeAround space [] :=
  rfl

/-- The plain names in a scope are those that can be found from there. -/
theorem scopeAround_has_iff (w : World) (space : NsId) (outer : List Bindings) (h : Name.isQualified name = false) :
    (w.scopeAround space outer).has name = true ↔ (w.find? space outer name).isSome := by
  rw [find?, Store.find?_of_plain h, Bindings.findIn?_isSome_iff]
  simp [Scope.has, scopeAround, chain, or_assoc]

/-- The world with a new namespace for what can be seen in a frame. -/
def withSeen (w : World) (fm : Frame) : World :=
  ((Act.newSpace (Bindings.flatten (fm.seen w))).perform w).2

/-- That namespace. -/
def seenSpace (w : World) (fm : Frame) : NsId :=
  ((Act.newSpace (Bindings.flatten (fm.seen w))).perform w).1

theorem bindings_seenSpace (w : World) (fm : Frame) :
    (w.withSeen fm).store.bindings (w.seenSpace fm) = Bindings.flatten (fm.seen w) :=
  Store.bindings_newSpace_new _

/-- Any name leads to the same cell from the new namespace as from the frame. -/
theorem find?_seenSpace (h : ∀ bs ∈ fm.seen w, bs.names.Nodup) (name : String) :
    (w.withSeen fm).find? (w.seenSpace fm) [] name = (w.withSeen fm).find? fm.space fm.outer name := by
  refine Store.find?_congr name fun root ↦ ?_
  generalize hbuiltin : (w.withSeen fm).store.bindings (w.withSeen fm).builtin = builtin
  have hnew : (w.withSeen fm).chain (w.seenSpace fm) [] = Bindings.flatten (fm.seen w) :: [builtin] := by
    rw [chain, bindings_seenSpace, hbuiltin]
    rfl
  have hold : (w.withSeen fm).chain fm.space fm.outer =
      (w.withSeen fm).store.bindings fm.space :: (fm.outer ++ [builtin]) := by
    rw [chain, hbuiltin]
  rw [hnew, hold, Bindings.findIn?_flatten h]
  by_cases hspace : fm.space = w.seenSpace fm
  · -- a frame whose namespace is not there yet sees the new one in its place
    rw [hspace, bindings_seenSpace, Bindings.findIn?_flatten h]
    simp only [Frame.seen, List.cons_append, Bindings.findIn?_cons, Bindings.findIn?_append_eq]
    cases (w.store.bindings fm.space).find? root <;> cases Bindings.findIn? fm.outer root <;> rfl
  · have hsame : (w.withSeen fm).store.bindings fm.space = w.store.bindings fm.space :=
      Store.bindings_newSpace_of_ne hspace
    rw [hsame]
    rfl

end World

theorem Frame.derivedSpace_gives (fm : Frame) (w : World) :
    fm.derivedSpace.Gives w (w.seenSpace fm) (w.withSeen fm) := by
  have hscope : fm.scope.Gives w (fm.seen w) w := .bind (.act rfl) (.pure _ w)
  exact .bind hscope (.act rfl)

/-- **Evaluated text sees exactly the cells of its caller.**  The namespace that `eval` makes for it holds what
the chain of the frame holds, so every name, qualified or not, leads to the same cell from both or to none.  An
unqualified name passes the check of the text if and only if the caller finds it.  The names of the namespace
are pairwise different and stand in the order in which they first come, from the outermost bindings of the chain
in and the frame's own last; those that are builtin only are not among them. -/
theorem Frame.evaluated_sees_caller {fm : Frame} {w : World} (h : ∀ bs ∈ fm.seen w, bs.names.Nodup) :
    ∃ (space : NsId) (w' : World), (Engine.evalSpace fm none).Gives w space w' ∧
      (∀ source inside, fm.inner space [] source = .ok inside → ∀ name,
        w'.find? inside.space inside.outer name = w'.find? fm.space fm.outer name) ∧
      (∀ name, Name.isQualified name = false →
        ((w'.scope space).has name = true ↔ (w'.find? fm.space fm.outer name).isSome)) ∧
      (w'.store.bindings space).names.Nodup ∧
      (w'.store.bindings space).names = ((fm.seen w).reverse.flatMap Bindings.names).eraseDups ∧
      ∀ name, name ∈ (w'.store.bindings space).names ↔ ∃ bs ∈ fm.seen w, name ∈ bs.names := by
  refine ⟨w.seenSpace fm, w.withSeen fm, fm.derivedSpace_gives w, ?_, ?_, ?_⟩
  · intro source inside hinside name
    rw [Frame.inner] at hinside
    split at hinside <;> cases hinside
    exact World.find?_seenSpace h name
  · intro name hname
    rw [World.scope_eq, World.scopeAround_has_iff _ _ _ hname, World.find?_seenSpace h]
  · rw [World.bindings_seenSpace]
    exact ⟨Bindings.nodup_flatten _, Bindings.names_flatten _, fun name ↦ Bindings.mem_names_flatten⟩

/-- A frame inside two functions, with `x` bound in all three scopes. -/
def Frame.withShadows : Frame :=
  let nowhere : Outlet := ⟨.discard, .discard⟩
  { Frame.top .default (World.fresh .default).global ⟨⟨none, none⟩, nowhere, nowhere⟩ default with
    outer := [[("y", ⟨0⟩), ("x", ⟨1⟩)], [("x", ⟨2⟩), ("z", ⟨3⟩)]] }

/-- Text evaluated there sees the innermost `x`, and its place is that of the outermost. -/
theorem Frame.evaluated_sees_caller_withShadows :
    let w := (World.fresh .default).declareGlobal "x" .nil
    (∀ bs ∈ Frame.withShadows.seen w, bs.names.Nodup) ∧
      ∃ (space : NsId) (w' : World), (Engine.evalSpace Frame.withShadows none).Gives w space w' ∧
        (∀ name, w'.find? space [] name = w'.find? Frame.withShadows.space Frame.withShadows.outer name) ∧
        (w'.store.bindings space).names = ["x", "z", "y"] := by
  intro w
  have hmaps : ∀ bs ∈ Frame.withShadows.seen w, bs.names.Nodup := by decide +kernel
  obtain ⟨space, w', hgives, hfind, -, -, hnames, -⟩ := Frame.evaluated_sees_caller hmaps
  refine ⟨hmaps, space, w', hgives, hfind default _ rfl, ?_⟩
  rw [hnames]
  decide +kernel

end ValueShell
