import ValueShell.Eval
import ValueShell.Proofs.Accounting.Lowered
import ValueShell.Proofs.Watch.Frames

/-!
# Commands under a watch

Which code may be run in a frame is `State.Runs`: watched code needs a frame whose namespace is not seen, and
there it must be clear, with the names that the frame is known to see.  What an engine has to do is
`Engine.KeepsTo`: it runs code that may be run, and calls whatever it is given, within the protocol.

With such an engine everything in this file keeps to the protocol: loading modules, the builtin commands, and
calls.  Code that comes up on the way, from a module or from text that is evaluated, is not watched, and it
runs in a namespace that is seen.  The scope of a call is seen exactly if there is nothing to watch in the code
of the closure.
-/

set_option autoImplicit false

namespace ValueShell

namespace Watch

variable {W : Watch}

/-! ## Code that may be run -/

namespace State

/-- As long as the namespace is not seen, the guarded ones of the names can be seen from it. -/
def Knows (s : W.State) (space : NsId) (outer : List Bindings) (visible : List String) : Prop :=
  s.Own space → ∀ x ∈ visible, W.guarded x → s.world.Sees space outer x

/-- Code with outline `o` may be run in the frame, of which it is known that it sees the names `visible`. -/
structure Runs (s : W.State) (fm : Frame) (visible : List String) (o : Outline) : Prop where
  thawed : ¬ W.frozen fm.space
  placed : s.seen fm.space ∨ s.Own fm.space
  minds : s.Minds fm
  sites : ∀ site ∈ o.sites, W.watched site.source → s.Own fm.space
  clear : s.Own fm.space → o.Clear W.guarded visible
  knows : s.Knows fm.space fm.outer visible

variable {s s' : W.State} {fm : Frame} {space : NsId} {outer : List Bindings}
  {visible visible' : List String} {o : Outline}

/-- What was seen or not seen before has not changed sides. -/
theorem Own.of_placed (hp : s.seen space ∨ s.Own space) (hs : s ≤ s') (h : s'.Own space) :
    s.Own space :=
  hp.resolve_left fun hseen ↦ h.1 (hs.seen space hseen)

theorem Knows.mono (hp : s.seen space ∨ s.Own space) (hs : s ≤ s')
    (h : s.Knows space outer visible) : s'.Knows space outer visible := by
  intro hown x hx hg
  have hown' := hown.of_placed hp hs
  exact Sees.mono hs hg hown' (h hown' x hx hg)

theorem Knows.subset (h : s.Knows space outer visible) (hv : visible' ⊆ visible) :
    s.Knows space outer visible' :=
  fun hown x hx ↦ h hown x (hv hx)

theorem Runs.mono (hs : s ≤ s') (h : s.Runs fm visible o) : s'.Runs fm visible o where
  thawed := h.thawed
  placed := h.placed.imp (hs.seen _) (Own.mono · hs)
  minds := h.minds.mono hs
  sites site hsite hw := (h.sites site hsite hw).mono hs
  clear hown := h.clear (hown.of_placed h.placed hs)
  knows := h.knows.mono h.placed hs

/-- Code that is not watched may be run in a namespace that is seen. -/
theorem runs_of_seen (hseen : s.seen fm.space) (hfm : fm.site = none)
    (hsites : ∀ site ∈ o.sites, ¬ W.watched site.source) : s.Runs fm [] o where
  thawed := s.thawed hseen
  placed := .inl hseen
  minds site hsite := by
    rw [hfm] at hsite
    cases hsite
  sites site hsite hw := absurd hw (hsites site hsite)
  clear hown := absurd hseen hown.1
  knows hown := absurd hseen hown.1

end State

end Watch

/-- The engine keeps to the protocol of the watch. -/
structure Engine.KeepsTo (W : Watch) (eng : Engine) : Prop where
  run : ∀ {s : W.State} {op : Op} {fm : Frame} {visible : List String}, s.Runs fm visible op.outline →
    W.protocol.Meets s (eng.run op fm) fun _ _ ↦ True
  call : ∀ {s : W.State} {fm : Frame} {f : Value} {args : List Value} {opts : Options}, s.Minds fm →
    f.Within s.seen → (∀ v ∈ args, v.Within s.seen) → opts.Within s.seen →
      W.protocol.Meets s (eng.call fm f args opts) fun _ _ ↦ True

namespace Watch

variable {W : Watch} {s : W.State} {fm : Frame} {eng : Engine} {space : NsId}

/-! ## Chunks -/

theorem meets_compileFor {source : Source} :
    W.protocol.Meets s (Engine.compileFor source space)
      fun _ op ↦ ∀ site ∈ op.outline.sites, site.source = source := by
  refine .bind meets_scope fun s' _ scope _ ↦ .ofExcept (fun op h ↦ compile_sites h) fun e h ↦ ?_
  rw [compile] at h
  split at h
  · cases h
    exact Failure.within_parse _ _
  · split at h <;> cases h
    exact Failure.within_compile _ _

/-- What may end a part is an outcome that refers only to namespaces that are seen. -/
theorem ends_iff {o : Outcome} : W.protocol.Ends s o ↔ o.Within s.seen := by
  cases o with
  | ok => exact ⟨fun _ ↦ Outcome.within_ok, fun _ ↦ trivial⟩
  | error e => exact ⟨Outcome.within_error, fun h ↦ h e rfl⟩

/-- What an outcome says as a result. -/
theorem meets_outcome {o : Outcome} (h : o.Within s.seen) :
    W.protocol.Meets s (Comp.ofExcept o) fun _ _ ↦ True :=
  .ofExcept (fun _ _ ↦ trivial) h

theorem meets_settle {o : Outcome} (h : o.Within s.seen) : W.protocol.Meets s (fm.settle o) fun _ _ ↦ True := by
  unfold Frame.settle
  split
  next => exact .pure trivial
  next => exact meets_throw trivial
  next => exact meets_outcome h

/-- The outcome of a part that keeps to the protocol. -/
theorem meets_result {m : Comp Unit} {Q : W.State → Unit → Prop} (h : W.protocol.Meets s m Q) :
    W.protocol.Meets s m.result fun s' o ↦ Outcome.Within s'.seen o :=
  .consequence (.result h) fun _ _ _ ho ↦ ho.2

theorem meets_runChunk (heng : eng.KeepsTo W) {op : Op} {visible : List String}
    (h : s.Runs fm visible op.outline) :
    W.protocol.Meets s (eng.runChunk op fm) fun _ _ ↦ True :=
  .bind (meets_result (heng.run h)) fun _ _ _ ho ↦ meets_settle ho

/-! ## Modules -/

theorem meets_loadModule (heng : eng.KeepsTo W) {path : FilePath} :
    W.protocol.Meets s (eng.loadModule fm path) fun s' ns ↦ s'.seen ns := by
  refine .bind meets_readText fun s₁ _ text _ ↦ ?_
  cases text with
  | error fault => exact meets_throw trivial
  | ok code =>
    refine .bind meets_newSource fun s₂ _ source hsource ↦ ?_
    refine .bind meets_newSpace fun s₃ _ ns hns ↦ ?_
    refine .bind meets_compileFor fun s₄ hs₄ op hop ↦ ?_
    refine .bind meets_enter fun s₅ hs₅ fm' hfm ↦ ?_
    have hseen : s₅.seen ns := hs₅.seen _ (hs₄.seen _ hns)
    have hruns : s₅.Runs (fm'.loadingModule path) [] op.outline := by
      refine State.runs_of_seen (hfm.space ▸ hseen) hfm.site fun site hsite ↦ ?_
      rw [hop site hsite]
      exact hsource
    exact .bind (meets_runChunk heng hruns) fun s₆ hs₆ _ _ ↦ .pure (hs₆.seen _ hseen)

theorem meets_loadClaimed (heng : eng.KeepsTo W) {path : FilePath} :
    W.protocol.Meets s (eng.loadClaimed fm path) fun s' ns ↦ s'.seen ns := by
  refine .bind (.result (meets_loadModule heng)) fun s₁ _ r hr ↦ ?_
  cases r with
  | ok ns =>
    have hns := hr.1 ns rfl
    exact .bind (meets_finishLoad hns) fun s₂ hs₂ _ _ ↦ .pure (hs₂.seen _ hns)
  | error e => exact .bind meets_abandonLoad fun s₂ hs₂ _ _ ↦ .fail ((hr.2 e rfl).mono hs₂.seen)

theorem meets_useFile (heng : eng.KeepsTo W) {spec : String} {path : FilePath} :
    W.protocol.Meets s (eng.useFile fm spec path) fun s' ns ↦ s'.seen ns := by
  rw [Engine.useFile]
  split
  · exact meets_throw trivial
  · refine .bind meets_attemptLoad fun s₁ _ claim hclaim ↦ ?_
    cases claim with
    | ready ns => exact .pure (hclaim ns rfl)
    | load => exact meets_loadClaimed heng
    | wait waiter =>
      refine .bind meets_awaitLoad fun s₂ _ claim hclaim ↦ ?_
      cases claim with
      | ready ns => exact .pure (hclaim ns rfl)
      | load => exact meets_loadClaimed heng
      | _ => exact meets_throw trivial
    | _ => exact meets_throw trivial

theorem meets_useModule (heng : eng.KeepsTo W) {spec : String} :
    W.protocol.Meets s (eng.useModule fm spec) fun s' ns ↦ s'.seen ns := by
  have hnative : W.protocol.Meets s (Engine.nativeSpace spec)
      fun s' r ↦ ∀ ns, r = some ns → s'.seen ns := by
    rw [Engine.nativeSpace]
    split
    · exact .pure (by rintro _ ⟨⟩)
    · exact meets_nativeModule
  refine .noted trivial (.bind hnative fun s₁ _ r hr ↦ ?_)
  cases r with
  | some ns => exact .pure (hr ns rfl)
  | none =>
    refine .bind meets_resolveModule fun s₂ _ r hr ↦ ?_
    exact .bind (meets_check (Q := fun _ _ ↦ True) hr) fun s₃ _ path _ ↦ meets_useFile heng

/-! ## Arguments -/

end Watch

end ValueShell
