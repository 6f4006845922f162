import ValueShell.Proofs.Watch.Commands

/-!
# Computations that follow an outline

`Watch.Follows` ties a computation to the outline of the code it comes from: wherever that code may be run, the
computation keeps to the protocol, and once it has given something the frame sees the names that the outline
declares for certain.  There is one rule for each constructor of outlines, and rules for what a computation
does before and after the parts that the outline tells of.
-/

set_option autoImplicit false

namespace ValueShell

namespace Watch

variable {W : Watch} {s s' : W.State} {fm : Frame} {visible : List String} {o a b : Outline}
  {name : String}

/-! ## Parts of code that may be run -/

namespace State.Runs

/-- A part that is clear where the whole is. -/
theorem part {o' : Outline} (h : s.Runs fm visible o) (hsites : ∀ site ∈ o'.sites, site ∈ o.sites)
    (hclear : o.Clear W.guarded visible → o'.Clear W.guarded visible) : s.Runs fm visible o' where
  thawed := h.thawed
  placed := h.placed
  minds := h.minds
  sites site hsite := h.sites site (hsites site hsite)
  clear hown := hclear (h.clear hown)
  knows := h.knows

theorem first (h : s.Runs fm visible (.seq a b)) : s.Runs fm visible a :=
  h.part (fun _ hsite ↦ List.mem_append_left _ hsite) And.left

theorem loose (h : s.Runs fm visible (.loose o)) : s.Runs fm visible o :=
  h.part (fun _ hsite ↦ hsite) id

/-- The second part may be run when the first has declared its names. -/
theorem second (h : s.Runs fm visible (.seq a b)) (hs : s ≤ s')
    (hk : s'.Knows fm.space fm.outer (visible ++ a.certain)) :
    s'.Runs fm (visible ++ a.certain) b where
  thawed := h.thawed
  placed := h.placed.imp (hs.seen _) (Own.mono · hs)
  minds := h.minds.mono hs
  sites site hsite hw := (h.sites site (List.mem_append_right _ hsite) hw).mono hs
  clear hown := (h.clear (hown.of_placed h.placed hs)).2
  knows := hk

/-- The code of a form is run with the form as the current one. -/
theorem form {site : CallSite} (h : s.Runs fm visible (.form site o)) :
    s.Runs { fm with site := some site } visible o where
  thawed := h.thawed
  placed := h.placed
  minds site' hsite hw := by
    cases hsite
    exact h.sites site List.mem_cons_self hw
  sites site' hsite := h.sites site' (List.mem_cons_of_mem _ hsite)
  clear := h.clear
  knows := h.knows

theorem finds (h : s.Runs fm visible (.refers name)) : s.Finds fm name := by
  intro site hsite hw hg
  have hown := h.minds site hsite hw
  exact ⟨hown, h.knows hown name (h.clear hown hg) hg⟩

/-- In watched code a name that is removed is not a guarded one. -/
theorem not_guarded (h : s.Runs fm visible (.forgets name)) :
    ∀ site, fm.site = some site → W.watched site.source → ¬ W.guarded name :=
  fun site hsite hw ↦ h.clear (h.minds site hsite hw)

/-- A closure of the code of a lambda is sound. -/
theorem sound {names : List String} {body : Op} {signature : Signature} {source : Source}
    (h : s.Runs fm visible (.own names body.outline)) (hnames : signature.names = names)
    (hoptions : Options.Within s.seen signature.options) :
    W.Sound s.seen s.world ⟨signature, body, s.world.store.bindings fm.space :: fm.outer, source⟩ where
  options := hoptions
  body hw := by
    obtain ⟨site, hsite, hsource⟩ := hw
    have hown := h.sites site hsite hsource
    refine ⟨visible, fun x hx hg ↦ h.knows hown x hx hg, ?_⟩
    rw [hnames]
    exact h.clear hown

end State.Runs

/-! ## The rules -/

/-- Wherever code with outline `o` may be run, the computation keeps to the protocol; `Q` holds of what it
gives, and then the names are there that the code declares for certain. -/
def Follows {α : Type} (s : W.State) (fm : Frame) (visible : List String) (o : Outline) (m : Comp α)
    (Q : W.State → α → Prop) : Prop :=
  s.Runs fm visible o → W.protocol.Meets s m fun s' x ↦
    Q s' x ∧ s'.Knows fm.space fm.outer (visible ++ o.certain)

namespace Follows

variable {α β : Type} {m : Comp α} {f : α → Comp β} {Q : W.State → α → Prop}
  {R : W.State → β → Prop}

/-- The computation keeps to the protocol. -/
theorem meets (h : Follows s fm visible o m Q) (hr : s.Runs fm visible o) :
    W.protocol.Meets s m Q :=
  .consequence (h hr) fun _ _ _ hx ↦ hx.1

/-- What declares nothing for certain need not be looked at for names. -/
theorem of_meets (ho : o.certain = []) (h : s.Runs fm visible o → W.protocol.Meets s m Q) :
    Follows s fm visible o m Q := by
  intro hr
  refine .consequence (h hr) fun s' hs x hx ↦ ⟨hx, ?_⟩
  rw [ho, List.append_nil]
  exact hr.knows.mono hr.placed hs

theorem pure {x : α} (h : Q s x) : Follows s fm visible .nothing (Pure.pure x) Q :=
  of_meets rfl fun _ ↦ .pure h

theorem seq (hm : Follows s fm visible a m Q)
    (hf : ∀ s' x, s ≤ s' → Q s' x → Follows s' fm (visible ++ a.certain) b (f x) R) :
    Follows s fm visible (.seq a b) (m >>= f) R := by
  intro hr
  refine .bind (hm hr.first) fun s' hs x ⟨hx, hk⟩ ↦ ?_
  refine .consequence (hf s' x hs hx (hr.second hs hk)) fun s'' _ y ⟨hy, hk'⟩ ↦ ⟨hy, ?_⟩
  rw [Outline.certain, ← List.append_assoc]
  exact hk'

/-- An outline may be exchanged for one that is as clear and declares no more. -/
theorem recast {o' : Outline} (h : Follows s fm visible o m Q)
    (hsites : ∀ site ∈ o.sites, site ∈ o'.sites)
    (hclear : o'.Clear W.guarded visible → o.Clear W.guarded visible)
    (hcertain : o'.certain ⊆ o.certain) : Follows s fm visible o' m Q := by
  intro hr
  refine .consequence (h (hr.part hsites hclear)) fun s' _ x ⟨hx, hk⟩ ↦ ⟨hx, hk.subset ?_⟩
  exact List.append_subset.2 ⟨List.subset_append_left _ _, List.subset_append_of_subset_right _ hcertain⟩

theorem assoc {c : Outline} (h : Follows s fm visible (.seq a (.seq b c)) m Q) :
    Follows s fm visible (.seq (.seq a b) c) m Q := by
  refine h.recast (by simp [Outline.sites]) (fun hc ↦ ?_) (by simp [Outline.certain])
  exact ⟨hc.1.1, hc.1.2, by simpa [Outline.certain] using hc.2⟩

theorem assoc_symm {c : Outline} (h : Follows s fm visible (.seq (.seq a b) c) m Q) :
    Follows s fm visible (.seq a (.seq b c)) m Q := by
  refine h.recast (by simp [Outline.sites]) (fun hc ↦ ?_) (by simp [Outline.certain])
  exact ⟨⟨hc.1, hc.2.1⟩, by simpa [Outline.certain] using hc.2.2⟩

theorem nothing_seq (h : Follows s fm visible o m Q) :
    Follows s fm visible (.seq .nothing o) m Q := by
  refine h.recast (by simp [Outline.sites]) (fun hc ↦ ?_) (by simp [Outline.certain])
  simpa [Outline.certain] using hc.2

/-- What is done before the outline begins. -/
theorem after (hm : s.Minds fm → W.protocol.Meets s m Q)
    (hf : ∀ s' x, s ≤ s' → Q s' x → Follows s' fm visible o (f x) R) :
    Follows s fm visible o (m >>= f) R :=
  fun hr ↦ .bind (hm hr.minds) fun s' hs x hx ↦ hf s' x hs hx (hr.mono hs)

/-- What is done when all that the outline tells of has been done. -/
theorem andThen (hm : Follows s fm visible o m Q)
    (hf : ∀ s' x, s ≤ s' → s'.Minds fm → Q s' x → W.protocol.Meets s' (f x) R) :
    Follows s fm visible o (m >>= f) R := by
  intro hr
  refine .bind (hm hr) fun s₁ hs₁ x ⟨hx, hk⟩ ↦ ?_
  refine .consequence (hf s₁ x hs₁ (hr.minds.mono hs₁) hx) fun s₂ hs₂ y hy ↦ ⟨hy, ?_⟩
  exact hk.mono (hr.mono hs₁).placed hs₂

theorem loose (h : Follows s fm visible o m Q) : Follows s fm visible (.loose o) m Q :=
  of_meets rfl fun hr ↦ h.meets hr.loose

/-- What may be skipped has been. -/
theorem skip (h : s.Minds fm → W.protocol.Meets s m Q) : Follows s fm visible (.loose o) m Q :=
  of_meets rfl fun hr ↦ h hr.minds

/-- That an operation starts changes nothing. -/
theorem starting {site : Option CallSite} (h : Follows s fm visible o m Q) :
    Follows s fm visible o (fm.starting site >>= fun _ ↦ m) Q :=
  fun hr ↦ .noted trivial (h hr)

theorem atSite {site : CallSite} {f : Frame → Comp α}
    (h : Follows s { fm with site := some site } visible o (f { fm with site := some site }) Q) :
    Follows s fm visible (.form site o) (fm.atSite site f) Q :=
  fun hr ↦ meets_atSite (h hr.form)

theorem declare {v : Value} (hv : v.Within s.seen) :
    Follows s fm visible (.declares name) (fm.declare name v) fun _ _ ↦ True := by
  intro hr
  refine .consequence (meets_declare_in hr.thawed hv) fun s' hs c hc ↦ ⟨trivial, ?_⟩
  intro hown x hx hg
  rcases List.mem_append.1 hx with hx | hx
  · exact hr.knows.mono hr.placed hs hown x hx hg
  · rw [List.mem_singleton.1 hx]
    exact ⟨_, List.mem_cons_self, hc hown⟩

theorem captured {f : Frame → Comp Unit} {Q : W.State → Unit → Prop}
    (h : ∀ s' wiring, s ≤ s' → Follows s' (fm.withWiring wiring) visible o (f (fm.withWiring wiring)) Q) :
    Follows s fm visible o (fm.captured f) fun s' vs ↦ ∀ v ∈ vs, v.Within s'.seen := by
  intro hr
  refine .consequence (meets_captured
    (R := fun s' ↦ s ≤ s' ∧ s'.Knows fm.space fm.outer (visible ++ o.certain)) ?_ ?_)
    fun s' _ vs hvs ↦ ⟨hvs.1, hvs.2.2⟩
  · exact fun s₁ s₂ hs₂ ⟨hs₁, hk⟩ ↦ ⟨hs₁.trans hs₂, hk.mono (hr.mono hs₁).placed hs₂⟩
  · intro s₁ wiring hs₁
    have hr₁ := hr.mono hs₁
    refine .consequence (h s₁ wiring hs₁ ⟨hr₁.thawed, hr₁.placed, hr₁.minds, hr₁.sites, hr₁.clear,
      hr₁.knows⟩) fun s₂ hs₂ _ hx ↦ ⟨hs₁.trans hs₂, hx.2⟩

/-- What is run after a body, however that ended, if it is run to its end. -/
theorem withCallback {m : Comp Unit} {Q : W.State → Unit → Prop} {body : Outcome}
    (h : Follows s fm visible o m Q) (hbody : body.Within s.seen) :
    Follows s fm visible o (do Comp.ofExcept (Outcome.withCallback body (← m.result)))
      fun _ _ ↦ True := by
  intro hr
  refine .bind (.result (h hr)) fun s₁ hs₁ ended ⟨hok, herr⟩ ↦ ?_
  have hbody₁ : Outcome.Within s₁.seen body := fun e he ↦ (hbody e he).mono hs₁.seen
  refine .ofExcept (fun _ hended ↦ ⟨trivial, ?_⟩) (hbody₁.withCallback herr)
  cases ended with
  | ok u => exact (hok u rfl).2
  | error e =>
    unfold Outcome.withCallback at hended
    split at hended <;> cases hended

end Follows

end Watch

end ValueShell
