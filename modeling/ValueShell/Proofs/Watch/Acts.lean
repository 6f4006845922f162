import ValueShell.Proofs.Waiting
import ValueShell.Proofs.Watch

/-!
# Acts under a watch

One lemma for each act: what has to be known for it to keep to the protocol, and what is known afterwards.
Values that come out of the store, the streams or the tables of modules refer only to namespaces that are seen;
what goes in must do the same.  Namespaces and closures are where the promises of the watch come in: a
declaration needs a namespace that is not frozen, a removal must not take a guarded name from a namespace that
is not seen, and a new closure has to be sound.
-/

set_option autoImplicit false

namespace ValueShell

namespace Watch

variable {W : Watch} {s : W.State}

/-! ## What can be said of results -/

/-- A value of which `Q` holds, or a reason that carries nothing. -/
structure Answers {α : Type} (Q : α → Prop) (r : Except Reason α) : Prop where
  ok : ∀ a, r = .ok a → Q a
  error : ∀ reason, r = .error reason → reason.Simple

theorem Answers.of_ok {α : Type} {Q : α → Prop} {a : α} (h : Q a) :
    Answers Q (.ok a : Except Reason α) where
  ok := by
    rintro _ ⟨⟩
    exact h
  error := by rintro _ ⟨⟩

theorem Answers.of_error {α : Type} {Q : α → Prop} {reason : Reason} (h : reason.Simple) :
    Answers Q (.error reason : Except Reason α) where
  ok := by rintro _ ⟨⟩
  error := by
    rintro _ ⟨⟩
    exact h

/-! ## Acts that only look -/

/-- An act that leaves the world as it is. -/
theorem does_looking {a : Act} {Q : W.State → a.Reply → Prop} (ha : ∀ w, (a.perform w).2 = w)
    (hq : ∀ s', s ≤ s' → Q s' (a.perform s'.world).1) : W.protocol.Does a s Q :=
  fun s₁ hs₁ _ ↦ ⟨s₁, le_rfl, (ha _).symm, hq s₁ hs₁⟩

variable {space ns : NsId} {outer : List Bindings} {name : String} {v : Value} {c : CellId}

theorem meets_find : W.protocol.Meets s (Comp.act (.find space outer name))
    fun s' r ↦ r = s'.world.find? space outer name :=
  .act (does_looking (fun _ ↦ rfl) fun _ _ ↦ rfl)

theorem meets_read : W.protocol.Meets s (Comp.act (.read c)) fun s' v ↦ v.Within s'.seen :=
  .act (does_looking (fun _ ↦ rfl) fun s' _ ↦ s'.good.cells c)

theorem meets_index {base key : Value} (hb : base.Within s.seen) :
    W.protocol.Meets s (Comp.act (.index base key)) fun s' ↦ Answers (Value.Within s'.seen) :=
  .act (does_looking (fun _ ↦ rfl) fun s' hs ↦
    ⟨fun _ h ↦ Store.index_within s'.good.cells (State.within_mono hs hb) h,
      fun _ h ↦ Store.index_reason h⟩)

theorem meets_scope : W.protocol.Meets s (Comp.act (.scope space)) fun _ _ ↦ True :=
  .act (does_looking (fun _ ↦ rfl) fun _ _ ↦ trivial)

theorem meets_readText {path : String} :
    W.protocol.Meets s (Comp.act (.readText path)) fun _ _ ↦ True :=
  .act (does_looking (fun _ ↦ rfl) fun _ _ ↦ trivial)

theorem meets_resolveModule {spec : String} {base : Option String} :
    W.protocol.Meets s (Comp.act (.resolveModule spec base)) fun _ ↦ Answers fun _ ↦ True := by
  refine .act (does_looking (fun _ ↦ rfl) fun s' _ ↦ ⟨fun _ _ ↦ trivial, fun reason h ↦ ?_⟩)
  simp only [Act.perform, Modules.resolve] at h
  split at h <;> cases h
  trivial

theorem meets_nativeModule : W.protocol.Meets s (Comp.act (.nativeModule name))
    fun s' r ↦ ∀ ns, r = some ns → s'.seen ns := by
  refine .act (does_looking (fun _ ↦ rfl) fun s' _ ns h ↦ ?_)
  obtain ⟨m, hm, rfl⟩ := Option.map_eq_some_iff.1 h
  exact s'.good.native m (List.mem_of_find?_eq_some hm)

theorem meets_interrupted : W.protocol.Meets s (Comp.act .interrupted) fun _ _ ↦ True :=
  .act (does_looking (fun _ ↦ rfl) fun _ _ ↦ trivial)

/-- An act that leads from any state to another. -/
theorem does_of {a : Act} {Q : W.State → a.Reply → Prop}
    (h : ∀ s', s ≤ s' →
      ∃ s'', s' ≤ s'' ∧ s''.world = (a.perform s'.world).2 ∧ Q s'' (a.perform s'.world).1) :
    W.protocol.Does a s Q :=
  fun s₁ hs₁ _ ↦ h s₁ hs₁

theorem meets_write (hv : v.Within s.seen) :
    W.protocol.Meets s (Comp.act (.write c v)) fun _ _ ↦ True := by
  refine .act (does_of fun s' hs ↦ ?_)
  obtain ⟨s'', hs'', hw, -⟩ := s'.write c (State.within_mono hs hv)
  exact ⟨s'', hs'', hw, trivial⟩

theorem meets_declare (hns : ¬ W.frozen space) (hv : v.Within s.seen) :
    W.protocol.Meets s (Comp.act (.declare space name v))
      fun s' _ ↦ s'.Own space → name ∈ s'.names space := by
  refine .act (does_of fun s' hs ↦ ?_)
  obtain ⟨s'', hs'', hw, -⟩ := s'.declare name hns (State.within_mono hs hv)
  refine ⟨s'', hs'', hw, fun hown ↦ ?_⟩
  obtain ⟨-, hlt⟩ := hown
  rw [State.names, hw]
  rw [hw] at hlt
  exact Store.mem_names_declare_self (by simpa [State.withStore] using hlt)

theorem meets_remove (hns : ¬ W.frozen space) (hx : s.seen space ∨ ¬ W.guarded name) :
    W.protocol.Meets s (Comp.act (.remove space name)) fun _ _ ↦ True := by
  refine .act (does_of fun s' hs ↦ ?_)
  obtain ⟨s'', hs'', hw, -⟩ := s'.remove hns fun hown ↦
    hx.resolve_left fun h ↦ hown.1 (hs.seen _ h)
  exact ⟨s'', hs'', hw, trivial⟩

/-- A new namespace that everybody may know. -/
theorem meets_newSpace {bs : Bindings} :
    W.protocol.Meets s (Comp.act (.newSpace bs)) fun s' ns ↦ s'.seen ns := by
  refine .act (does_of fun s' _ ↦ ?_)
  obtain ⟨s'', hs'', hw, hseen⟩ := s'.newSpace bs True
  refine ⟨s'', hs'', hw, ?_⟩
  rw [hseen]
  exact .inr ⟨trivial, rfl⟩

/-- What is known of a new namespace, which is seen only if it is `exposed`. -/
structure State.Opened (s : W.State) (exposed : Prop) (pairs : List (String × Value)) (ns : NsId) :
    Prop where
  seen : exposed → s.seen ns
  own : ∀ source, W.watched source → ¬ exposed → s.Own ns
  thawed : ¬ W.frozen ns
  names : ∀ x ∈ pairs.map (·.1), x ∈ s.names ns

theorem meets_newClosure {signature : Signature} {body : Op} {source : Source}
    (h : ∀ s', s ≤ s' → W.Sound s'.seen s'.world
      ⟨signature, body, s'.world.store.bindings space :: outer, source⟩) :
    W.protocol.Meets s (Comp.act (.newClosure space outer signature body source)) fun _ _ ↦ True := by
  refine .act (does_of fun s' hs ↦ ?_)
  obtain ⟨s'', hs'', hw, -⟩ := s'.newClosure (h s' hs)
  exact ⟨s'', hs'', hw, trivial⟩

/-- An element changed in the store keeps to the protocol if the change can be made of what `Restocked`
allows. -/
theorem does_inStore {s' : W.State} {result : Except Reason (Value × Store)}
    (hok : ∀ v st, result = .ok (v, st) → s'.Restocked st ∧ v.Within s'.seen)
    (herr : ∀ reason, result = .error reason → reason.Simple) :
    ∃ s'', s' ≤ s'' ∧ s''.world = (Act.inStore s'.world result).2 ∧
      Answers (Value.Within s''.seen) (Act.inStore s'.world result).1 := by
  rcases result with reason | ⟨v, st⟩
  · exact ⟨s', le_rfl, rfl, .of_error (herr reason rfl)⟩
  · obtain ⟨⟨s'', hs'', hw, hseen⟩, hv⟩ := hok v st rfl
    exact ⟨s'', hs'', hw, .of_ok (hseen ▸ hv)⟩

theorem meets_assoc {base : Value} {path : List Value} (hb : base.Within s.seen)
    (hp : ∀ k ∈ path, k.Within s.seen) (hv : v.Within s.seen) :
    W.protocol.Meets s (Comp.act (.assoc base path v))
      fun s' ↦ Answers (Value.Within s'.seen) := by
  refine .act (does_of fun s' hs ↦ does_inStore (fun u st h ↦ ?_) fun _ h ↦ Store.assocPath_reason h)
  exact s'.keptWithin_restocked.assocPath s'.restocked_self (State.within_mono hs hb)
    (State.values_mono hs hp) (State.within_mono hs hv) h

theorem meets_dissoc {base : Value} {path : List Value} (hb : base.Within s.seen)
    (hp : ∀ k ∈ path, k.Within s.seen) :
    W.protocol.Meets s (Comp.act (.dissoc base path)) fun s' ↦ Answers (Value.Within s'.seen) := by
  refine .act (does_of fun s' hs ↦ does_inStore (fun u st h ↦ ?_) fun _ h ↦ Store.dissocPath_reason h)
  exact s'.keptWithin_restocked.dissocPath s'.restocked_self (State.within_mono hs hb)
    (State.values_mono hs hp) h

/-! ## Beside the store -/

theorem meets_newSource {code : String} {path : Option String} :
    W.protocol.Meets s (Comp.act (.newSource name code path)) fun _ source ↦ ¬ W.watched source := by
  refine .act (does_of fun s' _ ↦ ?_)
  obtain ⟨s'', hs'', hw, -⟩ := s'.around (s'.world.newSource name code path).2 rfl rfl rfl
    s'.good.loads s'.good.waiting (Nat.le_succ _)
  exact ⟨s'', hs'', hw, fun h ↦ Nat.lt_irrefl _ (s'.good.sources _ h)⟩

theorem meets_streams {a : Act} {Q : W.State → a.Reply → Prop}
    (h : ∀ s', s ≤ s' → (∃ streams files handles,
        (a.perform s'.world).2 = { s'.world with streams, files, handles }) ∧
      (a.perform s'.world).2.streams.Within s'.seen)
    (hq : ∀ s' s'', s ≤ s' → s''.seen = s'.seen → Q s'' (a.perform s'.world).1) :
    W.protocol.Meets s (Comp.act a) Q := by
  refine .act (does_of fun s' hs ↦ ?_)
  obtain ⟨⟨streams, files, handles, hw'⟩, hwithin⟩ := h s' hs
  rw [hw'] at hwithin
  obtain ⟨s'', hs'', hw, hseen⟩ := s'.around { s'.world with streams, files, handles } rfl rfl rfl
    s'.good.loads hwithin (Nat.le_refl _)
  exact ⟨s'', hs'', hw.trans hw'.symm, hq s' s'' hs hseen⟩

theorem meets_put {sink : ValueSink} (hv : v.Within s.seen) :
    W.protocol.Meets s (Comp.act (.put sink v)) fun _ ↦ Answers fun _ ↦ True := by
  refine meets_streams (fun s' hs ↦ ⟨s'.world.put_eq sink v,
    World.put_within s'.good.waiting (State.within_mono hs hv) sink⟩) fun s' _ _ _ ↦ ?_
  exact ⟨fun _ _ ↦ trivial, fun _ h ↦ World.put_reason h⟩

theorem meets_newCapture : W.protocol.Meets s (Comp.act .newCapture) fun _ _ ↦ True :=
  meets_streams (fun s' _ ↦ ⟨⟨_, _, _, rfl⟩, Streams.Within.addCapture s'.good.waiting⟩)
    fun _ _ _ _ ↦ trivial

theorem meets_takeCapture {id : CaptureId} :
    W.protocol.Meets s (Comp.act (.takeCapture id)) fun s' vs ↦ ∀ v ∈ vs, v.Within s'.seen :=
  meets_streams (fun s' _ ↦ ⟨⟨_, _, _, rfl⟩, (Streams.Within.takeCapture s'.good.waiting id).2⟩)
    fun s' s'' _ hseen ↦ by
      rw [hseen]
      exact (Streams.Within.takeCapture s'.good.waiting id).1

theorem meets_newPipe {capacity : Nat} :
    W.protocol.Meets s (Comp.act (.newPipe capacity)) fun _ _ ↦ True :=
  meets_streams (fun s' _ ↦ ⟨⟨_, _, _, rfl⟩, Streams.Within.addPipe s'.good.waiting capacity⟩)
    fun _ _ _ _ ↦ trivial

theorem meets_endStage {reads writes : Option Pipe} :
    W.protocol.Meets s (Comp.act (.endStage reads writes)) fun _ _ ↦ True :=
  meets_streams (fun s' _ ↦ ⟨⟨_, _, _, rfl⟩, Streams.Within.endStage s'.good.waiting reads writes⟩)
    fun _ _ _ _ ↦ trivial

theorem meets_openFile {path : String} {append : Bool} :
    W.protocol.Meets s (Comp.act (.openFile path append)) fun _ _ ↦ True := by
  refine meets_streams (fun s' _ ↦ ?_) fun _ _ _ _ ↦ trivial
  rw [Act.perform]
  split
  · exact ⟨⟨_, _, _, rfl⟩, s'.good.waiting⟩
  · exact ⟨⟨_, _, _, rfl⟩, s'.good.waiting⟩

theorem meets_loads {a : Act} {Q : W.State → a.Reply → Prop}
    (h : ∀ s', s ≤ s' → ∃ loads, (a.perform s'.world).2 = { s'.world with loads } ∧
      ∀ ns ∈ loads.spaces, s'.seen ns)
    (hq : ∀ s' s'', s ≤ s' → s''.seen = s'.seen → Q s'' (a.perform s'.world).1) :
    W.protocol.Meets s (Comp.act a) Q := by
  refine .act (does_of fun s' hs ↦ ?_)
  obtain ⟨loads, hw', hloads⟩ := h s' hs
  obtain ⟨s'', hs'', hw, hseen⟩ := s'.around { s'.world with loads } rfl rfl rfl hloads
    s'.good.waiting (Nat.le_refl _)
  exact ⟨s'', hs'', hw.trans hw'.symm, hq s' s'' hs hseen⟩

theorem meets_attemptLoad {path : FilePath} {chain : List FilePath} :
    W.protocol.Meets s (Comp.act (.attemptLoad path chain))
      fun s' claim ↦ ∀ ns, claim = .ready ns → s'.seen ns := by
  refine meets_loads (fun s' _ ↦ ⟨_, rfl, fun ns hns ↦ ?_⟩) fun s' s'' _ hseen ns h ↦ ?_
  · exact s'.good.loads ns (LoadState.spaces_attempt hns)
  · rw [hseen]
    exact s'.good.loads ns (LoadState.mem_spaces_of_attempt h)

theorem meets_awaitLoad {waiter : Nat} {path : FilePath} :
    W.protocol.Meets s (Comp.act (.awaitLoad waiter path))
      fun s' claim ↦ ∀ ns, claim = .ready ns → s'.seen ns := by
  refine meets_loads (fun s' _ ↦ ⟨_, rfl, fun ns hns ↦ ?_⟩) fun s' s'' _ hseen ns h ↦ ?_
  · exact s'.good.loads ns (LoadState.spaces_recheck hns)
  · rw [hseen]
    exact s'.good.loads ns (LoadState.mem_spaces_of_recheck h)

theorem meets_finishLoad {path : FilePath} (hns : s.seen ns) :
    W.protocol.Meets s (Comp.act (.finishLoad path ns)) fun _ _ ↦ True := by
  refine meets_loads (fun s' hs ↦ ⟨_, rfl, fun ns' hns' ↦ ?_⟩) fun _ _ _ _ ↦ trivial
  rcases LoadState.spaces_setStatus hns' with hns' | hns'
  · exact s'.good.loads ns' hns'
  · cases hns'
    exact hs.seen ns hns

theorem meets_abandonLoad {path : FilePath} :
    W.protocol.Meets s (Comp.act (.abandonLoad path)) fun _ _ ↦ True := by
  refine meets_loads (fun s' _ ↦ ⟨_, rfl, fun ns hns ↦ ?_⟩) fun _ _ _ _ ↦ trivial
  exact s'.good.loads ns (LoadState.spaces_abandon hns)

end Watch

end ValueShell
