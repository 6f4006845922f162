import ValueShell.Proofs.Names
import ValueShell.Proofs.Outline
import ValueShell.Proofs.StoreEffects

/-!
# What the static check accounts for

The check walks through the code in the order in which it is written, with one list of the names declared so
far.  Code runs in another order, and some of it not at all.  This file says what the check is worth anyway:
a piece of code that it accepts is `Accounted` for, which means that wherever the names are there that the
check could see, all names are there that the code refers to — except for those about which its outline is
doubtful.

`Accounted` is put together the way outlines are: one lemma for each constructor, and one
(`Accounted.swap`) for parts that run in the other order than they are written in.
-/

set_option autoImplicit false

namespace ValueShell

namespace Lowering

/-- The check can see the name. -/
def Visible (env : Enclosing) (declared : List String) (name : String) : Prop :=
  name ∈ declared ∨ (∃ names ∈ env.lambdas, name ∈ names) ∨ env.scope.has name = true

/-- Code with outline `o`, lowered with the names `before` declared, leaves `after` declared and refers only to
names that were visible, as far as they are guarded. -/
structure Accounted (guarded : String → Prop) (env : Enclosing) (before : List String) (o : Outline)
    (after : List String) : Prop where
  sites : ∀ site ∈ o.sites, site.source = env.source
  declared : ∀ x ∈ after, x ∈ before ∨ x ∈ o.declared
  clear : (∀ x ∈ o.doubtful, ¬ guarded x) → ∀ visible : List String,
    (∀ x, guarded x → Visible env before x → x ∈ visible) → o.Clear guarded visible

variable {guarded : String → Prop} {env : Enclosing} {D D₁ D₂ D₃ : List String} {a b c : Outline}
  {D' : List String} {name : String}

namespace Accounted

/-- What is visible after a piece of code was visible before or is certain. -/
theorem visible_after (h : Accounted guarded env D a D₁) (hn : ∀ x ∈ a.doubtful, ¬ guarded x)
    {visible : List String} (hv : ∀ x, guarded x → Visible env D x → x ∈ visible) :
    ∀ x, guarded x → Visible env D₁ x → x ∈ visible ++ a.certain := by
  intro x hg hx
  rw [List.mem_append]
  rcases hx with hx | hx
  · rcases h.declared x hx with hx | hx
    · exact .inl (hv x hg (.inl hx))
    · exact .inr (Outline.certain_of_declared hx fun hd ↦ hn x hd hg)
  · exact .inl (hv x hg (.inr hx))

/-- If all that is declared is doubtful, what is visible afterwards was so before. -/
theorem visible_after_loose (h : Accounted guarded env D a D₁)
    (hn : ∀ x ∈ a.loose.doubtful, ¬ guarded x) {x : String} (hg : guarded x)
    (hx : Visible env D₁ x) : Visible env D x := by
  rcases hx with hx | hx
  · rcases h.declared x hx with hx | hx
    · exact .inl hx
    · exact absurd hg (hn x (List.mem_append_left _ hx))
  · exact .inr hx

theorem nothing : Accounted guarded env D .nothing D where
  sites _ h := by cases h
  declared _ h := .inl h
  clear _ _ _ := trivial

theorem seq (ha : Accounted guarded env D a D₁) (hb : Accounted guarded env D₁ b D₂) :
    Accounted guarded env D (.seq a b) D₂ where
  sites site h := (List.mem_append.1 h).elim (ha.sites site) (hb.sites site)
  declared x h := by
    rw [Outline.declared, List.mem_append]
    rcases hb.declared x h with h | h
    · exact (ha.declared x h).imp_right .inl
    · exact .inr (.inr h)
  clear hn visible hv := by
    have hna : ∀ x ∈ a.doubtful, ¬ guarded x := fun x h ↦ hn x (List.mem_append_left _ h)
    have hnb : ∀ x ∈ b.doubtful, ¬ guarded x := fun x h ↦ hn x (List.mem_append_right _ h)
    exact ⟨ha.clear hna visible hv, hb.clear hnb _ (ha.visible_after hna hv)⟩

/-- Of two parts the one written first may run last, if nothing hangs on what it declares. -/
theorem swap (ha : Accounted guarded env D a D₁) (hb : Accounted guarded env D₁ b D₂) :
    Accounted guarded env D (.seq b (.loose a)) D₂ where
  sites site h := (List.mem_append.1 h).elim (hb.sites site) (ha.sites site)
  declared x h := by
    rw [Outline.declared, List.mem_append]
    rcases hb.declared x h with h | h
    · exact (ha.declared x h).imp_right .inr
    · exact .inr (.inl h)
  clear hn visible hv := by
    have hna : ∀ x ∈ a.loose.doubtful, ¬ guarded x := fun x h ↦ hn x (List.mem_append_right _ h)
    have hnb : ∀ x ∈ b.doubtful, ¬ guarded x := fun x h ↦ hn x (List.mem_append_left _ h)
    constructor
    · exact hb.clear hnb visible fun x hg hx ↦ hv x hg (ha.visible_after_loose hna hg hx)
    · exact ha.clear (fun x h ↦ hna x (List.mem_append_right _ h)) _ fun x hg hx ↦
        List.mem_append_left _ (hv x hg hx)

theorem loose (ha : Accounted guarded env D a D₁) : Accounted guarded env D (.loose a) D₁ where
  sites := ha.sites
  declared := ha.declared
  clear hn visible hv := ha.clear (fun x h ↦ hn x (List.mem_append_right _ h)) visible hv

theorem form {span : Span} (ha : Accounted guarded env D a D₁) :
    Accounted guarded env D (.form (site env span) a) D₁ where
  sites site h := (List.mem_cons.1 h).elim (fun h ↦ h ▸ rfl) (ha.sites site)
  declared := ha.declared
  clear := ha.clear

theorem assoc (h : Accounted guarded env D (.seq (.seq a b) c) D₁) :
    Accounted guarded env D (.seq a (.seq b c)) D₁ where
  sites site hs := h.sites site (by simpa [Outline.sites] using hs)
  declared x hx := (h.declared x hx).imp_right fun hx ↦ by simpa [Outline.declared] using hx
  clear hn visible hv := by
    obtain ⟨⟨ha, hb⟩, hc⟩ := h.clear (fun x hx ↦ hn x (by simpa [Outline.doubtful] using hx))
      visible hv
    exact ⟨ha, hb, by simpa [Outline.certain] using hc⟩

theorem assoc_symm (h : Accounted guarded env D (.seq a (.seq b c)) D₁) :
    Accounted guarded env D (.seq (.seq a b) c) D₁ where
  sites site hs := h.sites site (by simpa [Outline.sites] using hs)
  declared x hx := (h.declared x hx).imp_right fun hx ↦ by simpa [Outline.declared] using hx
  clear hn visible hv := by
    obtain ⟨ha, hb, hc⟩ := h.clear (fun x hx ↦ hn x (by simpa [Outline.doubtful] using hx))
      visible hv
    exact ⟨⟨ha, hb⟩, by simpa [Outline.certain] using hc⟩

/-- What is written first may run after everything else, together with what is put off anyway. -/
theorem later (ha : Accounted guarded env D a D₁)
    (h : Accounted guarded env D₁ (.seq b (.loose c)) D₂) :
    Accounted guarded env D (.seq b (.loose (.seq a c))) D₂ where
  sites site hs := by
    simp only [Outline.sites, List.mem_append] at hs
    rcases hs with hs | hs | hs
    · exact h.sites site (List.mem_append_left _ hs)
    · exact ha.sites site hs
    · exact h.sites site (List.mem_append_right _ hs)
  declared x hx := by
    simp only [Outline.declared, List.mem_append]
    rcases h.declared x hx with hx | hx
    · exact (ha.declared x hx).imp_right fun hx ↦ .inr (.inl hx)
    · exact .inr ((List.mem_append.1 hx).imp_right .inr)
  clear hn visible hv := by
    simp only [Outline.doubtful, Outline.declared, List.mem_append] at hn
    have hna : ∀ x ∈ a.loose.doubtful, ¬ guarded x := fun x hx ↦ hn x <| .inr <|
      (List.mem_append.1 hx).imp .inl .inl
    have hnh : ∀ x ∈ (Outline.seq b (.loose c)).doubtful, ¬ guarded x := fun x hx ↦ hn x <|
      (List.mem_append.1 hx).imp_right fun hx ↦ (List.mem_append.1 hx).imp .inr .inr
    obtain ⟨hb, hc⟩ := h.clear hnh visible fun x hg hx ↦
      hv x hg (ha.visible_after_loose hna hg hx)
    refine ⟨hb, ha.clear (fun x hx ↦ hna x (List.mem_append_right _ hx)) _ fun x hg hx ↦
      List.mem_append_left _ (hv x hg hx), hc.mono fun x _ hx ↦ List.mem_append_left _ hx⟩

/-- What would be run for certain may also be skipped. -/
theorem loose_left (h : Accounted guarded env D (.seq a b) D₁) :
    Accounted guarded env D (.seq (.loose a) b) D₁ where
  sites := h.sites
  declared := h.declared
  clear hn visible hv := by
    simp only [Outline.doubtful, List.mem_append] at hn
    obtain ⟨ha, hb⟩ := h.clear (fun x hx ↦ hn x ((List.mem_append.1 hx).imp_left .inr)) visible hv
    refine ⟨ha, hb.mono fun x hg hx ↦ ?_⟩
    rcases List.mem_append.1 hx with hx | hx
    · exact List.mem_append_left _ hx
    · exact absurd hg (hn x (.inl (.inl (Outline.declared_of_certain hx))))

theorem of_seq_nothing (h : Accounted guarded env D (.seq a .nothing) D₁) :
    Accounted guarded env D a D₁ where
  sites site hs := h.sites site (List.mem_append_left _ hs)
  declared x hx := (h.declared x hx).imp_right fun hx ↦ by simpa [Outline.declared] using hx
  clear hn visible hv := (h.clear (fun x hx ↦ hn x (by simpa [Outline.doubtful] using hx))
    visible hv).1

theorem nothing_seq (h : Accounted guarded env D a D₁) :
    Accounted guarded env D (.seq .nothing a) D₁ :=
  nothing.seq h

theorem declares : Accounted guarded env D (.declares name) (name :: D) where
  sites _ h := by cases h
  declared x h := (List.mem_cons.1 h).elim (fun h ↦ .inr (h ▸ List.mem_singleton_self _)) .inl
  clear _ _ _ := trivial

theorem refers (hplain : guarded name → Visible env D name) :
    Accounted guarded env D (.refers name) D where
  sites _ h := by cases h
  declared _ h := .inl h
  clear _ _ hv hg := hv name hg (hplain hg)

/-- A name is taken away. -/
theorem forgets : Accounted guarded env D (.forgets name) (D.filter (· != name)) where
  sites _ h := by cases h
  declared x h := .inl (List.mem_filter.1 h).1
  clear hn _ _ := hn name (List.mem_singleton_self _)

/-- The code of a lambda, which sees what is declared around it and starts with names of its own. -/
theorem own {names : List String}
    (ha : Accounted guarded { env with lambdas := D :: env.lambdas } names a D₁) :
    Accounted guarded env D (.own names a) D where
  sites := ha.sites
  declared _ h := .inl h
  clear hn visible hv := by
    refine ha.clear hn _ fun x hg hx ↦ ?_
    rw [List.mem_append]
    rcases hx with hx | ⟨l, hl, hx⟩ | hx
    · exact .inr hx
    · rcases List.mem_cons.1 hl with rfl | hl
      · exact .inl (hv x hg (.inl hx))
      · exact .inl (hv x hg (.inr (.inl ⟨l, hl, hx⟩)))
    · exact .inl (hv x hg (.inr (.inr hx)))

end Accounted

/-! ## Results of lowering -/

/-- If lowering gives something, it is accounted for. -/
def Accounts {α : Type} (guarded : String → Prop) (env : Enclosing) (D : List String)
    (r : Except (CompileFault × Nat) (α × List String)) (o : α → Outline) : Prop :=
  ∀ a D', r = .ok (a, D') → Accounted guarded env D (o a) D'

variable {α β : Type} {o : α → Outline} {o' : β → Outline}

theorem of_bind {m : Lower α} {f : α → Lower β} {y : β} (h : (m >>= f) D = .ok (y, D')) :
    ∃ x D₁, m D = .ok (x, D₁) ∧ f x D₁ = .ok (y, D') := by
  obtain ⟨⟨x, D₁⟩, hx, hy⟩ := bind_eq_ok h
  exact ⟨x, D₁, hx, hy⟩

/-- The names that are declared stay as they are. -/
def Leaves (m : Lower α) : Prop :=
  ∀ D a D', m D = .ok (a, D') → D' = D

namespace Accounts

theorem pure {x : α} (h : Accounted guarded env D (o x) D₁) :
    Accounts guarded env D ((Pure.pure x : Lower α) D₁) o := by
  rintro _ _ ⟨⟩
  exact h

theorem fail {span : Span} {fault : CompileFault} :
    Accounts guarded env D ((Lowering.fail span fault : Lower α) D₁) o := by
  rintro _ _ ⟨⟩

theorem bind {m : Lower α} {f : α → Lower β}
    (h : ∀ x D₂, m D₁ = .ok (x, D₂) → Accounts guarded env D (f x D₂) o') :
    Accounts guarded env D ((m >>= f) D₁) o' := by
  intro y D' hy
  obtain ⟨x, D₂, hx, hy⟩ := of_bind hy
  exact h x D₂ hx y D' hy

theorem bindLeaves {m : Lower α} {f : α → Lower β} (hm : Leaves m)
    (h : ∀ x, Accounts guarded env D (f x D₁) o') :
    Accounts guarded env D ((m >>= f) D₁) o' := by
  refine bind fun x D₂ hx ↦ ?_
  rw [hm D₁ x D₂ hx]
  exact h x

end Accounts

/-! ## Checks that declare nothing -/

theorem Leaves.pure {x : α} : Leaves (Pure.pure x : Lower α) := by
  rintro _ _ _ ⟨⟩
  rfl

theorem Leaves.fail {span : Span} {fault : CompileFault} : Leaves (Lowering.fail span fault : Lower α) := by
  rintro _ _ _ ⟨⟩

theorem Leaves.bind {m : Lower α} {f : α → Lower β} (hm : Leaves m) (hf : ∀ x, Leaves (f x)) :
    Leaves (m >>= f) := by
  intro D y D' h
  obtain ⟨x, D₂, hx, hy⟩ := of_bind h
  exact (hf x D₂ y D' hy).trans (hm D x D₂ hx)

theorem leaves_get : Leaves (get : Lower (List String)) := by
  rintro _ _ _ ⟨⟩
  rfl

theorem leaves_has : Leaves (has env name) :=
  .bind leaves_get fun _ ↦ .pure

theorem leaves_argsOnly {form : String} {items : List Item} : Leaves (argsOnly form items) := by
  induction items with
  | nil => exact .pure
  | cons item items ih =>
    cases item with
    | arg => exact ih
    | opt => exact .fail
    | eq => exact .fail

theorem leaves_target {word : Compound} : Leaves (target word) := by
  unfold target
  split
  · exact .pure
  · exact .fail

theorem leaves_targets {i : Nat} {rest : Option Nat} {items : List Item} :
    Leaves (targets i rest items) := by
  induction items generalizing i rest with
  | nil => exact .pure
  | cons item items ih =>
    cases item with
    | arg word =>
      refine .bind leaves_target fun x ↦ ?_
      dsimp only
      split
      · exact .fail
      · split
        · exact .fail
        · exact .bind ih fun _ ↦ .pure
    | opt => exact ih
    | eq => exact ih

theorem leaves_noneIndexed {ts : List Target} : Leaves (noneIndexed ts) := by
  induction ts with
  | nil => exact .pure
  | cons t ts ih =>
    rw [noneIndexed]
    split
    · exact .fail
    · exact ih

theorem leaves_bareword {fault : CompileFault} {word : Compound} : Leaves (bareword fault word) := by
  unfold bareword
  split
  · exact .pure
  · exact .fail

theorem leaves_endTry {items : List Item} : Leaves (endTry items) := by
  cases items
  · exact .pure
  · exact .fail

/-- What `has` says is what can be seen. -/
theorem visible_of_has {found : Bool} (h : has env name D = .ok (found, D₁)) (hf : found = true) :
    Visible env D name := by
  cases h
  simp only [Bool.or_eq_true, List.any_eq_true, List.contains_iff_mem] at hf
  rcases hf with (hf | ⟨l, hl, hx⟩) | hf
  · exact .inl hf
  · exact .inr (.inl ⟨l, hl, hx⟩)
  · exact .inr (.inr hf)

end Lowering

end ValueShell
