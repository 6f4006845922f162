import ValueShell.Proofs.Watch.Acts

/-!
# Frames under a watch

What a frame can see is where the promise about guarded names shows: in a frame whose namespace is not seen, a
guarded name that could be found once can be found for ever after (`Sees.mono`).  `State.Finds` is what a
reference to a variable needs, and the lemmas about `Frame.value` and `Frame.cell` say that with it the
reference does not fail in watched code.

The rest of the file has one lemma for each operation of frames.
-/

set_option autoImplicit false

namespace ValueShell

/-! ## What a frame sees -/

/-- A variable can be seen from a namespace with bindings around it. -/
def World.Sees (w : World) (space : NsId) (outer : List Bindings) (name : String) : Prop :=
  ∃ bs ∈ w.chain space outer, name ∈ bs.names

theorem World.sees_iff {w : World} {space : NsId} {outer : List Bindings} {name : String}
    (plain : Name.isQualified name = false) :
    w.Sees space outer name ↔ (w.find? space outer name).isSome := by
  rw [World.find?, Store.find?_of_plain plain, Bindings.findIn?_isSome_iff]
  rfl

namespace Watch

variable {W : Watch}

theorem Sees.mono {s s' : W.State} {space : NsId} {outer : List Bindings} {name : String}
    (hs : s ≤ s') (hg : W.guarded name) (hown : s.Own space)
    (h : s.world.Sees space outer name) : s'.world.Sees space outer name := by
  obtain ⟨bs, hbs, hx⟩ := h
  rw [World.chain, List.mem_cons, List.mem_append, List.mem_singleton] at hbs
  rcases hbs with rfl | hbs | rfl
  · exact ⟨_, List.mem_cons_self, hs.names space name hown hg hx⟩
  · exact ⟨bs, List.mem_cons_of_mem _ (List.mem_append_left _ hbs), hx⟩
  · refine ⟨s'.world.store.bindings s'.world.builtin, ?_, ?_⟩
    · exact List.mem_cons_of_mem _ (List.mem_append_right _ (List.mem_singleton_self _))
    · have hn := hs.names _ name (State.own_builtin hg) hg hx
      rw [hs.builtin]
      exact hn

namespace State

variable {s s' : W.State} {fm : Frame} {name : String}

/-- The form that is being run is watched only if the frame's namespace is not seen. -/
def Minds (s : W.State) (fm : Frame) : Prop :=
  ∀ site, fm.site = some site → W.watched site.source → s.Own fm.space

/-- If the form that is being run is watched and the name guarded, the name can be found. -/
def Finds (s : W.State) (fm : Frame) (name : String) : Prop :=
  ∀ site, fm.site = some site → W.watched site.source → W.guarded name →
    s.Own fm.space ∧ s.world.Sees fm.space fm.outer name

theorem Minds.mono (hs : s ≤ s') (h : s.Minds fm) : s'.Minds fm :=
  fun site hsite hw ↦ (h site hsite hw).mono hs

theorem Finds.mono (hs : s ≤ s') (h : s.Finds fm name) : s'.Finds fm name := by
  intro site hsite hw hg
  obtain ⟨hown, hsees⟩ := h site hsite hw hg
  exact ⟨hown.mono hs, Sees.mono hs hg hown hsees⟩

end State

/-! ## Failures -/

variable {s : W.State} {fm : Frame} {α : Type} {Q : W.State → α → Prop}

theorem meets_throw {reason : Reason} (h : reason.Simple) :
    W.protocol.Meets s (fm.throw reason : Comp α) Q := by
  refine .bind (.note (Q := fun _ _ ↦ True) ?_ trivial) fun s' _ _ _ ↦ .fail ?_
  · cases reason <;> first | exact False.elim h | (cases fm.site <;> trivial)
  · exact Frame.within_raise.2 h.within

/-- Complaining of a variable, which must not be a guarded one in watched code. -/
theorem meets_throw_variable {name : String}
    (h : ∀ site, fm.site = some site → W.watched site.source → ¬ W.guarded name) :
    W.protocol.Meets s (fm.throw (.noSuchVariable name) : Comp α) Q := by
  refine .bind (.note (Q := fun _ _ ↦ True) ?_ trivial) fun s' _ _ _ ↦ .fail ?_
  · cases hsite : fm.site with
    | none => trivial
    | some site => exact h site hsite
  · exact Frame.within_raise.2 fun ns hns ↦ by cases hns

theorem meets_check {r : Except Reason α} (h : Answers (Q s) r) :
    W.protocol.Meets s (fm.check r) Q := by
  cases r with
  | ok a => exact .pure (h.ok a rfl)
  | error reason => exact meets_throw (h.error reason rfl)

theorem meets_atSite {site : CallSite} {f : Frame → Comp α}
    (h : W.protocol.Meets s (f { fm with site := some site }) Q) :
    W.protocol.Meets s (fm.atSite site f) Q :=
  .noted trivial (.noting (fun _ ↦ trivial) (.mapFailure h fun _ _ _ he ↦ Failure.within_through.2 he))

theorem meets_checkInterrupt : W.protocol.Meets s fm.checkInterrupt fun _ _ ↦ True := by
  refine .bind meets_interrupted fun s' _ flag _ ↦ ?_
  cases flag with
  | false => exact .pure trivial
  | true => exact meets_throw trivial

/-! ## Variables -/

variable {name : String} {v : Value}

theorem meets_find? : W.protocol.Meets s (fm.find? name)
    fun s' r ↦ r = s'.world.find? fm.space fm.outer name :=
  meets_find

/-- A variable that has been found by a frame that minds can be found again. -/
theorem State.Minds.finds {s : W.State} (h : s.Minds fm)
    (hf : (s.world.find? fm.space fm.outer name).isSome) : s.Finds fm name :=
  fun site hsite hw hg ↦ ⟨h site hsite hw, (World.sees_iff (W.plain hg)).2 hf⟩

theorem State.Finds.not_guarded {s : W.State} (h : s.Finds fm name)
    (hf : s.world.find? fm.space fm.outer name = none) :
    ∀ site, fm.site = some site → W.watched site.source → ¬ W.guarded name := by
  intro site hsite hw hg
  obtain ⟨-, hsees⟩ := h site hsite hw hg
  rw [World.sees_iff (W.plain hg), hf] at hsees
  cases hsees

theorem meets_cell (h : s.Finds fm name) : W.protocol.Meets s (fm.cell name) fun _ _ ↦ True := by
  refine .bind meets_find? fun s' hs r hr ↦ ?_
  cases r with
  | some c => exact .pure trivial
  | none => exact meets_throw_variable ((h.mono hs).not_guarded hr.symm)

theorem meets_value (h : s.Finds fm name) :
    W.protocol.Meets s (fm.value name) fun s' v ↦ v.Within s'.seen := by
  have hvalue : W.protocol.Meets s (fm.value? name) fun s' r ↦
      (∀ v, r = some v → v.Within s'.seen) ∧
        (r = none → ∀ site, fm.site = some site → W.watched site.source → ¬ W.guarded name) := by
    refine .bind meets_find? fun s' hs r hr ↦ ?_
    cases r with
    | some c =>
      refine .bind meets_read fun s'' _ v hv ↦ .pure ⟨?_, by rintro ⟨⟩⟩
      rintro _ ⟨⟩
      exact hv
    | none => exact .pure ⟨by rintro _ ⟨⟩, fun _ ↦ (h.mono hs).not_guarded hr.symm⟩
  refine .bind hvalue fun s' _ r hr ↦ ?_
  cases r with
  | some v => exact .pure (hr.1 v rfl)
  | none => exact meets_throw_variable (hr.2 rfl)

theorem meets_declare_in (hns : ¬ W.frozen fm.space) (hv : v.Within s.seen) :
    W.protocol.Meets s (fm.declare name v) fun s' _ ↦ s'.Own fm.space → name ∈ s'.names fm.space :=
  meets_declare hns hv

theorem meets_close {signature : Signature} {body : Op} {source : Source}
    (h : ∀ s', s ≤ s' → W.Sound s'.seen s'.world
      ⟨signature, body, s'.world.store.bindings fm.space :: fm.outer, source⟩) :
    W.protocol.Meets s (fm.close signature body source) fun s' v ↦ v.Within s'.seen :=
  .bind (meets_newClosure h) fun _ _ _ _ ↦ .pure (Value.within_closure _)

/-- A frame for code with a scope of its own. -/
structure Entered (fm : Frame) (space : NsId) (outer : List Bindings) : Prop where
  space : fm.space = space
  outer : fm.outer = outer
  site : fm.site = none

theorem meets_enter {space : NsId} {outer : List Bindings} {source : Source} :
    W.protocol.Meets s (fm.enter space outer source) fun _ fm' ↦ Entered fm' space outer := by
  unfold Frame.enter
  split
  next h =>
    rw [Frame.inner] at h
    split at h <;> cases h
    exact .pure ⟨rfl, rfl, rfl⟩
  next => exact meets_throw trivial

theorem meets_captured {f : Frame → Comp Unit} {R : W.State → Prop}
    (hmono : ∀ s₁ s₂, s₁ ≤ s₂ → R s₁ → R s₂)
    (h : ∀ s' wiring, s ≤ s' → W.protocol.Meets s' (f (fm.withWiring wiring)) fun s'' _ ↦ R s'') :
    W.protocol.Meets s (fm.captured f) fun s' vs ↦ (∀ v ∈ vs, v.Within s'.seen) ∧ R s' := by
  refine .bind meets_newCapture fun s₁ hs₁ id _ ↦ .bind (h s₁ _ hs₁) fun s₂ _ _ hr ↦ ?_
  exact .consequence meets_takeCapture fun s₃ hs₃ vs hvs ↦ ⟨hvs, hmono s₂ s₃ hs₃ hr⟩

/-! ## Input and output -/

theorem meets_put_in (hv : v.Within s.seen) : W.protocol.Meets s (fm.put v) fun _ _ ↦ True :=
  .bind (meets_put hv) fun _ _ _ h ↦ meets_check h

end Watch

end ValueShell
