import ValueShell.Proofs.Watch.Follows

/-!
# Execution under a watch

Every operation follows its outline, if the engine keeps to the protocol (`Watch.exec_follows`), and so does
every word.  The statements go over the syntax of operations as `Op.exec` and `Expr.eval` do, with one case for
each constructor.  Since engines are made of nothing but execution and calls, all engines keep to the protocol
(`Watch.engine_keepsTo`), whatever is watched.
-/

set_option autoImplicit false

namespace ValueShell

namespace Watch

variable {W : Watch} {s : W.State} {fm : Frame} {eng : Engine} {visible : List String}

/-! ## Pieces without recursion -/

theorem meets_distribute {count : Nat} {rest : Option Nat} {vs : List Value}
    (h : ∀ v ∈ vs, v.Within s.seen) :
    W.protocol.Meets s (fm.check (distribute count rest vs))
      fun s' vs' ↦ count ≤ vs'.length ∧ ∀ v ∈ vs', v.Within s'.seen := by
  refine meets_check ?_
  cases rest with
  | none =>
    rw [distribute]
    split
    · rename_i hlen
      exact .of_ok ⟨Nat.le_of_eq hlen.symm, h⟩
    · exact .of_error trivial
  | some i =>
    rw [distribute]
    split
    · refine .of_ok ⟨?_, gather_within h⟩
      rw [Signature.length_gather]
      omega
    · exact .of_error trivial

theorem meets_single {what : String} {vs : List Value} (h : ∀ v ∈ vs, v.Within s.seen) :
    W.protocol.Meets s (fm.single what vs) fun s' v ↦ v.Within s'.seen := by
  unfold Frame.single
  split
  · exact .pure (h _ (List.mem_singleton_self _))
  · exact meets_throw trivial

theorem partText_reason {v : Value} {reason : Reason} (h : partText v = .error reason) :
    reason.Simple := by
  unfold partText at h
  split at h <;> cases h
  trivial

theorem mapM_partText_reason {vs : List Value} {reason : Reason}
    (h : vs.mapM partText = .error reason) : reason.Simple := by
  induction vs with
  | nil => cases h
  | cons v vs ih =>
    rw [List.mapM_cons] at h
    rcases bind_eq_error h with h | ⟨text, -, h⟩
    · exact partText_reason h
    · rcases bind_eq_error h with h | ⟨texts, -, h⟩
      · exact ih h
      · cases h

theorem appendPart_answers {texts : List String} {vs : List Value} :
    Answers (fun _ ↦ True) (appendPart texts vs) := by
  refine ⟨fun _ _ ↦ trivial, fun reason h ↦ ?_⟩
  unfold appendPart at h
  split at h
  · cases h
  · rcases bind_eq_error h with h | ⟨pieces, -, h⟩
    · exact mapM_partText_reason h
    · cases h

theorem meets_indexAll {keys vs : List Value} (h : ∀ v ∈ vs, v.Within s.seen) :
    W.protocol.Meets s (fm.indexAll keys vs) fun s' vs ↦ ∀ v ∈ vs, v.Within s'.seen := by
  induction vs generalizing s with
  | nil => exact .pure fun v hv ↦ by cases hv
  | cons base bases ih =>
    have hbase : base.Within s.seen := h base List.mem_cons_self
    refine .bind (.mapEach (T := fun (s' : W.State) (v : Value) ↦ v.Within s'.seen)
      (fun _ _ _ hs hv ↦ State.within_mono hs hv) fun s' hs key _ ↦ ?_) fun s₁ hs₁ first hfirst ↦ ?_
    · exact .bind (meets_index (State.within_mono hs hbase)) fun s'' _ r hr ↦ meets_check hr
    · refine .bind (ih (State.values_mono hs₁ fun v hv ↦ h v (List.mem_cons_of_mem _ hv)))
        fun s₂ hs₂ others hothers ↦ .pure ?_
      exact List.forall_mem_append.2 ⟨State.values_mono hs₂ hfirst, hothers⟩

theorem meets_itemsOf {v : Value} (h : v.Within s.seen) :
    W.protocol.Meets s (fm.itemsOf v) fun s' vs ↦ ∀ v ∈ vs, v.Within s'.seen := by
  cases v with
  | list items => exact .pure (Value.within_list.1 h)
  | map entries =>
    refine .pure fun v hv ↦ ?_
    obtain ⟨e, he, rfl⟩ := List.mem_map.1 hv
    exact (Value.within_map.1 h e he).1
  | _ => exact meets_throw trivial

theorem meets_assign {c : CellId} {path : List Value} {v : Value}
    (hp : ∀ k ∈ path, k.Within s.seen) (hv : v.Within s.seen) :
    W.protocol.Meets s (fm.assign c path v) fun _ _ ↦ True := by
  cases path with
  | nil => exact meets_write hv
  | cons key keys =>
    refine .bind meets_read fun s₁ hs₁ base hbase ↦ ?_
    refine .bind (meets_assoc hbase (State.values_mono hs₁ hp) (State.within_mono hs₁ hv))
      fun s₂ hs₂ r hr ↦ ?_
    exact .bind (meets_check hr) fun s₃ hs₃ updated hupdated ↦ meets_write hupdated

theorem meets_openFile_in {path : Value} {append : Bool} :
    W.protocol.Meets s (fm.openFile path append) fun _ _ ↦ True := by
  cases path with
  | str name =>
    refine .bind meets_openFile fun s₁ _ r _ ↦ ?_
    cases r with
    | ok id => exact .pure trivial
    | error fault => exact meets_throw trivial
  | _ => exact meets_throw trivial

theorem meets_outletOf {wiring : Wiring} {fd : Nat} :
    W.protocol.Meets s (fm.outletOf wiring fd) fun _ _ ↦ True := by
  rw [Frame.outletOf]
  cases wiring.outlet? fd with
  | some outlet => exact .pure trivial
  | none => exact meets_throw trivial

theorem meets_setOutlet {wiring : Wiring} {fd : Nat} {outlet : Outlet} :
    W.protocol.Meets s (fm.check (wiring.setOutlet fd outlet)) fun _ _ ↦ True := by
  refine meets_check ⟨fun _ _ ↦ trivial, fun reason h ↦ ?_⟩
  unfold Wiring.setOutlet at h
  split at h <;> cases h
  trivial

theorem meets_newPipes {capacity n : Nat} :
    W.protocol.Meets s (newPipes capacity n) fun _ _ ↦ True := by
  induction n generalizing s with
  | zero => exact .pure trivial
  | succ n ih => exact .bind meets_newPipe fun _ _ _ _ ↦ .bind ih fun _ _ _ _ ↦ .pure trivial

/-- A stage keeps to the protocol if what it runs does. -/
theorem keeps_stage {m : Comp Unit} {Q : W.State → Unit → Prop} {reads writes : Option Pipe}
    (h : W.protocol.Meets s m Q) : (stageProgram reads writes m).Keeps W.protocol s := by
  refine h _ (fun s' _ _ _ ↦ ?_) fun s' _ e he ↦ ?_
  · exact meets_endStage (fun _ ↦ .done (.ok ())) (fun _ _ _ _ ↦ trivial) fun _ _ _ _ ↦ trivial
  · have hend {s'' : W.State} (hs : s' ≤ s'') : W.protocol.mayFail s'' e := W.protocol.mayFail_mono hs he
    exact meets_endStage (fun _ ↦ .done (.error e)) (fun _ hs _ _ ↦ hend hs) fun _ hs _ _ ↦ hend hs

theorem certain_stages (ops : List Op) : (Op.outlinesOfStages ops).certain = [] := by
  induction ops with
  | nil =>
    rw [Op.outlinesOfStages]
    rfl
  | cons op ops ih =>
    rw [Op.outlinesOfStages, Outline.certain, ih]
    rfl

theorem certain_handler (handler : Option (Option String × Expr)) :
    (Expr.outlineOfHandler handler).certain = [] := by
  obtain _ | ⟨_ | name, body⟩ := handler
  · rw [Expr.outlineOfHandler]
    rfl
  · rw [Expr.outlineOfHandler]
    rfl
  · rw [Expr.outlineOfHandler]
    rfl

theorem certain_optional (e : Option Expr) : (Expr.outlineOfOptional e).certain = [] := by
  cases e with
  | none =>
    rw [Expr.outlineOfOptional]
    rfl
  | some e =>
    rw [Expr.outlineOfOptional]
    rfl

/-! ## Bodies and loops -/

theorem anotherRound_within {o : Outcome} (h : Outcome.Within s.seen o) :
    ∀ e, anotherRound o = .error e → e.Within s.seen := by
  intro e he
  unfold anotherRound at he
  split at he <;> cases he
  exact h _ rfl

theorem stopReturn_within {o : Outcome} (h : Outcome.Within s.seen o) :
    Outcome.Within s.seen (stopReturn o) := by
  unfold stopReturn
  split
  · exact Outcome.within_ok
  · exact h

/-- A declaration with enough values declares all its names. -/
theorem declareAll_follows {targets : List (Option String)} {vs : List Value}
    (hlen : targets.length ≤ vs.length) (h : ∀ v ∈ vs, v.Within s.seen) :
    Follows s fm visible
      (.all (targets.map fun
        | some name => .declares name
        | none => .nothing))
      (fm.declareAll targets vs) fun _ _ ↦ True := by
  induction targets generalizing s visible vs with
  | nil => exact .pure trivial
  | cons target targets ih =>
    cases vs with
    | nil => cases hlen
    | cons v vs =>
      have hlen' := Nat.le_of_succ_le_succ hlen
      have hvs : ∀ v ∈ vs, v.Within s.seen := fun u hu ↦ h u (List.mem_cons_of_mem _ hu)
      cases target with
      | some name =>
        refine .seq (.andThen (.declare (h v List.mem_cons_self)) fun _ _ _ _ _ ↦
          .pure (Q := fun _ _ ↦ True) trivial) fun s₁ _ hs₁ _ ↦ ?_
        exact ih hlen' (State.values_mono hs₁ hvs)
      | none =>
        exact .seq (m := pure ()) (f := fun _ ↦ fm.declareAll targets vs)
          (.pure (Q := fun _ _ ↦ True) trivial) fun s₁ _ hs₁ _ ↦ ih hlen' (State.values_mono hs₁ hvs)

section Engine

variable (heng : eng.KeepsTo W)

include heng

set_option linter.unusedSectionVars false

theorem meets_callBody {body : Value} (hm : s.Minds fm) (hbody : body.Within s.seen) :
    W.protocol.Meets s (eng.callBody fm body) fun _ _ ↦ True :=
  heng.call hm hbody (fun v hv ↦ by cases hv) fun o ho ↦ by cases ho

/-- Running a body is following its word. -/
theorem runBody_follows {word : Comp (List Value)} {o : Outline}
    (h : Follows s fm visible o word fun s' vs ↦ ∀ v ∈ vs, v.Within s'.seen) :
    Follows s fm visible o (eng.runBody fm word) fun _ _ ↦ True := by
  refine .andThen h fun s₁ hs₁ vs hm hvs ↦ .bind (meets_single hvs) fun s₂ hs₂ body hbody ↦ ?_
  exact meets_callBody heng (hm.mono hs₂) hbody

theorem meets_round {body : Value} (hm : s.Minds fm) (hbody : body.Within s.seen) :
    W.protocol.Meets s (eng.round fm body) fun _ _ ↦ True := by
  refine .bind (meets_result (meets_callBody heng hm hbody)) fun s₁ _ o ho ↦ ?_
  exact .ofExcept (fun _ _ ↦ trivial) (anotherRound_within ho)

theorem meets_rounds {c : CellId} {body : Value} {items : List Value} (hm : s.Minds fm)
    (hbody : body.Within s.seen) (hitems : ∀ v ∈ items, v.Within s.seen) :
    W.protocol.Meets s (eng.rounds fm c body items) fun _ _ ↦ True := by
  induction items generalizing s with
  | nil => exact .pure trivial
  | cons item items ih =>
    refine .bind meets_checkInterrupt fun s₁ hs₁ _ _ ↦ ?_
    refine .bind (meets_write (State.within_mono hs₁ (hitems item List.mem_cons_self)))
      fun s₂ hs₂ _ _ ↦ ?_
    have hs := hs₁.trans hs₂
    refine .bind (meets_round heng (hm.mono hs) (State.within_mono hs hbody)) fun s₃ hs₃ again _ ↦ ?_
    cases again with
    | false => exact .pure trivial
    | true =>
      have hs' := hs.trans hs₃
      exact ih (hm.mono hs') (State.within_mono hs' hbody) (State.values_mono hs' fun v hv ↦
        hitems v (List.mem_cons_of_mem _ hv))

/-! ## Words and operations -/

mutual

theorem eval_follows (fm : Frame) : ∀ (e : Expr) (s : W.State) (visible : List String),
    Follows s fm visible e.outline (e.eval eng fm) fun s' vs ↦ ∀ v ∈ vs, v.Within s'.seen
  | .literal text, s, visible => by
    rw [Expr.outline, Expr.eval]
    exact .pure (List.forall_mem_singleton.2 (Value.within_str text))
  | .variable name explode, s, visible => by
    rw [Expr.outline, Expr.eval]
    refine .of_meets rfl fun hr ↦ .bind (meets_value hr.finds) fun s₁ _ v hv ↦ ?_
    split
    · split
      · exact .pure (Value.within_list.1 hv)
      · exact meets_throw trivial
    · exact .pure (List.forall_mem_singleton.2 hv)
  | .capture op, s, visible => by
    rw [Expr.outline, Expr.eval]
    exact .captured fun s₁ wiring _ ↦ exec_follows op s₁ (fm.withWiring wiring) visible
  | .list items, s, visible => by
    rw [Expr.outline, Expr.eval]
    refine .andThen (evalAll_follows fm items s visible) fun s₁ _ _ vs hvs ↦ .pure ?_
    exact List.forall_mem_singleton.2 (Value.within_list.2 hvs)
  | .map pairs, s, visible => by
    rw [Expr.outline, Expr.eval]
    refine .andThen (evalPairs_follows fm pairs s visible) fun s₁ ps _ _ hps ↦ .pure ?_
    exact List.forall_mem_singleton.2 (Value.within_ofPairs hps)
  | .lambda l, s, visible => by
    rw [Expr.outline, Expr.eval]
    refine .andThen (instantiate_follows fm l s visible) fun s₁ v _ _ hv ↦ .pure ?_
    exact List.forall_mem_singleton.2 hv
  | .indexed head indices, s, visible => by
    rw [Expr.outline, Expr.eval]
    exact .seq (eval_follows fm head s visible) fun s₁ vs _ hvs ↦
      evalIndices_follows fm indices s₁ _ hvs
  | .compound parts, s, visible => by
    rw [Expr.outline, Expr.eval]
    refine .andThen (evalParts_follows fm parts s visible) fun s₁ texts _ _ _ ↦ .pure fun v hv ↦ ?_
    obtain ⟨text, -, rfl⟩ := List.mem_map.1 hv
    exact Value.within_str text

theorem evalAll_follows (fm : Frame) : ∀ (es : List Expr) (s : W.State) (visible : List String),
    Follows s fm visible (Expr.outlines es) (evalAll eng fm es) fun s' vs ↦ ∀ v ∈ vs, v.Within s'.seen
  | [], s, visible => by
    rw [Expr.outlines, evalAll]
    exact .pure fun v hv ↦ by cases hv
  | e :: es, s, visible => by
    rw [Expr.outlines, evalAll]
    refine .seq (eval_follows fm e s visible) fun s₁ first _ hfirst ↦ ?_
    refine .andThen (evalAll_follows fm es s₁ _) fun s₂ others hs₂ _ hothers ↦ .pure ?_
    exact List.forall_mem_append.2 ⟨State.values_mono hs₂ hfirst, hothers⟩

theorem evalEach_follows (fm : Frame) (what : String) :
    ∀ (es : List Expr) (s : W.State) (visible : List String),
      Follows s fm visible (Expr.outlines es) (evalEach eng fm what es)
        fun s' vs ↦ ∀ v ∈ vs, v.Within s'.seen
  | [], s, visible => by
    rw [Expr.outlines, evalEach]
    exact .pure fun v hv ↦ by cases hv
  | e :: es, s, visible => by
    rw [Expr.outlines, evalEach]
    refine .seq (eval_follows fm e s visible) fun s₁ vs _ hvs ↦ ?_
    refine .after (fun _ ↦ meets_single hvs) fun s₂ first _ hfirst ↦ ?_
    refine .andThen (evalEach_follows fm what es s₂ _) fun s₃ others hs₃ _ hothers ↦ .pure ?_
    exact List.forall_mem_cons.2 ⟨State.within_mono hs₃ hfirst, hothers⟩

theorem evalPairs_follows (fm : Frame) :
    ∀ (pairs : List (Expr × Expr)) (s : W.State) (visible : List String),
      Follows s fm visible (Expr.outlinesOfPairs pairs) (evalPairs eng fm pairs)
        fun s' ps ↦ Entries.Within s'.seen ps
  | [], s, visible => by
    rw [Expr.outlinesOfPairs, evalPairs]
    exact .pure fun e he ↦ by cases he
  | (k, v) :: pairs, s, visible => by
    rw [Expr.outlinesOfPairs, evalPairs]
    refine .assoc (.seq (eval_follows fm k s visible) fun s₁ vs _ hvs ↦ ?_)
    refine .after (fun _ ↦ meets_single hvs) fun s₂ key _ hkey ↦ ?_
    refine .seq (eval_follows fm v s₂ _) fun s₃ vs hs₃ hvs ↦ ?_
    refine .after (fun _ ↦ meets_single hvs) fun s₄ value hs₄ hvalue ↦ ?_
    refine .andThen (evalPairs_follows fm pairs s₄ _) fun s₅ others hs₅ _ hothers ↦ .pure ?_
    refine List.forall_mem_cons.2 ⟨⟨?_, State.within_mono hs₅ hvalue⟩, hothers⟩
    exact State.within_mono ((hs₃.trans hs₄).trans hs₅) hkey

theorem evalIndices_follows (fm : Frame) :
    ∀ (indices : List (List Expr)) (s : W.State) (visible : List String) {vs : List Value},
      (∀ v ∈ vs, v.Within s.seen) →
        Follows s fm visible (Expr.outlinesOfIndices indices) (evalIndices eng fm vs indices)
          fun s' vs ↦ ∀ v ∈ vs, v.Within s'.seen
  | [], s, visible, vs, hvs => by
    rw [Expr.outlinesOfIndices, evalIndices]
    exact .pure hvs
  | index :: indices, s, visible, vs, hvs => by
    rw [Expr.outlinesOfIndices, evalIndices]
    refine .seq (evalAll_follows fm index s visible) fun s₁ keys hs₁ _ ↦ ?_
    refine .after (fun _ ↦ meets_indexAll (State.values_mono hs₁ hvs)) fun s₂ elements _ helements ↦ ?_
    exact evalIndices_follows fm indices s₂ _ helements

theorem evalParts_follows (fm : Frame) :
    ∀ (parts : List Expr) (s : W.State) (visible : List String) {texts : List String},
      Follows s fm visible (Expr.outlines parts) (evalParts eng fm texts parts) fun _ _ ↦ True
  | [], s, visible, texts => by
    rw [Expr.outlines, evalParts]
    exact .pure trivial
  | part :: parts, s, visible, texts => by
    rw [Expr.outlines, evalParts]
    refine .seq (eval_follows fm part s visible) fun s₁ vs _ _ ↦ ?_
    refine .after (fun _ ↦ meets_check (Q := fun _ _ ↦ True) appendPart_answers) fun s₂ texts _ _ ↦ ?_
    exact evalParts_follows fm parts s₂ _

theorem evalOptions_follows (fm : Frame) :
    ∀ (opts : List (String × Option Expr)) (s : W.State) (visible : List String),
      Follows s fm visible (Expr.outlinesOfOptions opts) (evalOptions eng fm opts)
        fun s' opts ↦ Options.Within s'.seen opts
  | [], s, visible => by
    rw [Expr.outlinesOfOptions, evalOptions]
    exact .pure fun o ho ↦ by cases ho
  | (name, none) :: opts, s, visible => by
    rw [Expr.outlinesOfOptions, evalOptions]
    refine .andThen (evalOptions_follows fm opts s visible) fun s₁ others _ _ hothers ↦ .pure ?_
    exact List.forall_mem_cons.2 ⟨Value.within_bool true, hothers⟩
  | (name, some e) :: opts, s, visible => by
    rw [Expr.outlinesOfOptions, evalOptions]
    refine .seq (eval_follows fm e s visible) fun s₁ vs _ hvs ↦ ?_
    refine .after (fun _ ↦ meets_single hvs) fun s₂ v _ hv ↦ ?_
    refine .andThen (evalOptions_follows fm opts s₂ _) fun s₃ others hs₃ _ hothers ↦ .pure ?_
    exact List.forall_mem_cons.2 ⟨State.within_mono hs₃ hv, hothers⟩

theorem evalDefaults_follows (fm : Frame) :
    ∀ (options : List (String × Expr)) (s : W.State) (visible : List String),
      Follows s fm visible (Expr.outlinesOfDefaults options) (evalDefaults eng fm options)
        fun s' defaults ↦ Options.Within s'.seen defaults ∧ defaults.map (·.1) = options.map (·.1)
  | [], s, visible => by
    rw [Expr.outlinesOfDefaults, evalDefaults]
    exact .pure ⟨fun o ho ↦ (by cases ho), rfl⟩
  | (name, e) :: options, s, visible => by
    rw [Expr.outlinesOfDefaults, evalDefaults]
    refine .seq (eval_follows fm e s visible) fun s₁ vs _ hvs ↦ ?_
    refine .after (fun _ ↦ meets_single hvs) fun s₂ v _ hv ↦ ?_
    refine .andThen (evalDefaults_follows fm options s₂ _) fun s₃ others hs₃ _ ⟨hothers, hnames⟩ ↦
      .pure ⟨?_, ?_⟩
    · exact List.forall_mem_cons.2 ⟨State.within_mono hs₃ hv, hothers⟩
    · rw [List.map_cons, List.map_cons, hnames]

theorem instantiate_follows (fm : Frame) : ∀ (l : LambdaDef) (s : W.State) (visible : List String),
    Follows s fm visible l.outline (l.instantiate eng fm) fun s' v ↦ v.Within s'.seen
  | .mk source params rest options restOptions body, s, visible => by
    rw [LambdaDef.outline, LambdaDef.instantiate]
    refine .seq (evalDefaults_follows fm options s visible) fun s₁ defaults _ ⟨hdefaults, hnames⟩ ↦ ?_
    refine .of_meets rfl fun hr ↦ meets_close fun s₂ hs₂ ↦ (hr.mono hs₂).sound ?_ ?_
    · rw [Signature.names, hnames]
    · exact State.options_mono hs₂ hdefaults

theorem runOptional_follows (fm : Frame) : ∀ (e : Option Expr) (s : W.State) (visible : List String),
    Follows s fm visible (Expr.outlineOfOptional e) (runOptional eng fm e) fun _ _ ↦ True
  | none, s, visible => by
    rw [Expr.outlineOfOptional, runOptional]
    exact .pure trivial
  | some e, s, visible => by
    rw [Expr.outlineOfOptional, runOptional]
    exact .loose (runBody_follows heng (eval_follows fm e s visible))

theorem redirected_follows (fm : Frame) :
    ∀ (redirs : List Redirect) (s : W.State) (visible : List String) {wiring : Wiring},
      Follows s fm visible (Redirect.outlines redirs) (redirected eng fm wiring redirs)
        fun _ _ ↦ True
  | [], s, visible, wiring => by
    rw [Redirect.outlines, redirected]
    exact .pure trivial
  | .dup fd source :: redirs, s, visible, wiring => by
    rw [Redirect.outlines, redirected]
    refine .after (fun _ ↦ meets_outletOf) fun s₁ outlet _ _ ↦ ?_
    refine .after (fun _ ↦ meets_setOutlet) fun s₂ wiring _ _ ↦ ?_
    exact redirected_follows fm redirs s₂ visible
  | .file fd path append :: redirs, s, visible, wiring => by
    rw [Redirect.outlines, redirected]
    refine .seq (eval_follows fm path s visible) fun s₁ vs _ hvs ↦ ?_
    refine .after (fun _ ↦ meets_single hvs) fun s₂ name _ _ ↦ ?_
    refine .after (fun _ ↦ meets_openFile_in) fun s₃ outlet _ _ ↦ ?_
    refine .after (fun _ ↦ meets_setOutlet) fun s₄ wiring _ _ ↦ ?_
    exact redirected_follows fm redirs s₄ _

theorem head_follows (fm : Frame) : ∀ (head : Head) (s : W.State) (visible : List String),
    Follows s fm visible head.outline (head.eval eng fm) fun s' v ↦ v.Within s'.seen
  | .function var, s, visible => by
    rw [Head.outline, Head.eval]
    exact .of_meets rfl fun hr ↦ meets_value hr.finds
  | .external program, s, visible => by
    rw [Head.outline, Head.eval]
    exact .pure (Value.within_external program)
  | .word e, s, visible => by
    rw [Head.outline, Head.eval]
    exact .andThen (eval_follows fm e s visible) fun s₁ vs _ _ hvs ↦ meets_single hvs

theorem assignAll_follows (fm : Frame) :
    ∀ (places : List Place) (s : W.State) (visible : List String) {vs : List Value},
      places.length ≤ vs.length → (∀ v ∈ vs, v.Within s.seen) →
        Follows s fm visible (Place.outlines places) (assignAll eng fm places vs) fun _ _ ↦ True
  | [], s, visible, vs, _, _ => by
    rw [Place.outlines, assignAll]
    · exact .pure trivial
    · rintro _ _ _ _ _ ⟨⟩
  | .mk name indices :: places, s, visible, v :: vs, hlen, hvs => by
    rw [Place.outlines, Place.outline, assignAll]
    refine .assoc (.seq (.of_meets rfl fun hr ↦ meets_cell hr.finds) fun s₁ c hs₁ _ ↦ ?_)
    refine .seq (evalEach_follows fm "index" indices s₁ _) fun s₂ path hs₂ hpath ↦ ?_
    have hvs₂ := State.values_mono (hs₁.trans hs₂) hvs
    refine .after (fun _ ↦ meets_assign hpath (hvs₂ v List.mem_cons_self)) fun s₃ _ hs₃ _ ↦ ?_
    exact assignAll_follows fm places s₃ _ (Nat.le_of_succ_le_succ hlen) fun u hu ↦
      State.within_mono hs₃ (hvs₂ u (List.mem_cons_of_mem _ hu))
  | .mk name indices :: places, s, visible, [], hlen, _ => by cases hlen

theorem evalLogic_follows (fm : Frame) (stopOn : Bool) :
    ∀ (es : List Expr) (s : W.State) (visible : List String) {last : Value}, last.Within s.seen →
      Follows s fm visible (Expr.outlinesOfLogic es) (evalLogic eng fm stopOn last es) fun _ _ ↦ True
  | [], s, visible, last, hlast => by
    rw [Expr.outlinesOfLogic, evalLogic]
    exact .of_meets rfl fun _ ↦ meets_put_in hlast
  | e :: es, s, visible, last, hlast => by
    rw [Expr.outlinesOfLogic, evalLogic]
    refine .seq (eval_follows fm e s visible) fun s₁ vs hs₁ hvs ↦ ?_
    split
    · rename_i v hv
      exact .skip fun _ ↦ meets_put_in (hvs v (List.mem_of_find?_eq_some hv))
    · exact .loose (evalLogic_follows fm stopOn es s₁ _
        (List.forall_mem_cons.2 ⟨State.within_mono hs₁ hlast, hvs⟩ _ List.getLastD_mem_cons))

theorem runHandler_follows (fm : Frame) :
    ∀ (handler : Option (Option String × Expr)) (s : W.State) (visible : List String) {e : Exception},
      (Value.exception e).Within s.seen →
        Follows s fm visible (Expr.outlineOfHandler handler) (runHandler eng fm e handler)
          fun _ _ ↦ True
  | none, s, visible, e, he => by
    rw [Expr.outlineOfHandler, runHandler]
    exact .of_meets rfl fun _ ↦ .fail (Failure.within_exception.2 he)
  | some (none, body), s, visible, e, he => by
    rw [Expr.outlineOfHandler, runHandler]
    exact .loose (runBody_follows heng (eval_follows fm body s visible))
  | some (some name, body), s, visible, e, he => by
    rw [Expr.outlineOfHandler, runHandler]
    refine .loose (.seq (.andThen (.declare he) fun _ _ _ _ _ ↦ .pure (Q := fun _ _ ↦ True) trivial)
      fun s₁ _ _ _ ↦ ?_)
    exact runBody_follows heng (eval_follows fm body s₁ _)

theorem runBranches_follows (fm : Frame) {otherwise : Comp Unit} {o : Outline}
    (ho : ∀ (s : W.State) visible, Follows s fm visible o otherwise fun _ _ ↦ True)
    (hcertain : o.certain = []) :
    ∀ (branches : List (Expr × Expr)) (s : W.State) (visible : List String),
      Follows s fm visible (.seq (Expr.outlinesOfBranches branches) o)
        (runBranches eng fm otherwise branches) fun _ _ ↦ True
  | [], s, visible => by
    rw [Expr.outlinesOfBranches, runBranches]
    exact (ho s visible).nothing_seq
  | (cond, body) :: branches, s, visible => by
    rw [Expr.outlinesOfBranches, runBranches]
    refine .assoc (.seq (eval_follows fm cond s visible) fun s₁ vs _ _ ↦ ?_)
    split
    · refine (runBody_follows heng (eval_follows fm body s₁ _)).loose.recast ?_ (·.1.1) ?_
      · exact fun site hsite ↦ List.mem_append_left _ (List.mem_append_left _ hsite)
      · simp [Outline.certain, hcertain]
    · refine (runBranches_follows fm ho hcertain branches s₁ _).recast ?_ (fun hc ↦ ?_) ?_
      · intro site hsite
        simp only [Outline.sites, List.mem_append] at hsite ⊢
        exact hsite.imp_left .inr
      · refine ⟨hc.1.2.mono fun x _ hx ↦ ?_, hc.2.mono fun x _ hx ↦ ?_⟩
        · simpa [Outline.certain] using hx
        · exact List.mem_append_left _ (by simpa [Outline.certain] using hx)
      · simp [Outline.certain, hcertain]

theorem exec_follows : ∀ (op : Op) (s : W.State) (fm : Frame) (visible : List String),
    Follows s fm visible op.outline (op.exec eng fm) fun _ _ ↦ True
  | .chunk ops, s, fm, visible => by
    rw [Op.outline, Op.exec]
    exact .starting (execChunk_follows fm ops s visible)
  | .pipeline site stages, s, fm, visible => by
    rw [Op.outline, Op.exec]
    refine .atSite (.after (fun _ ↦ meets_newPipes) fun s₁ pipes _ _ ↦ ?_)
    refine .of_meets (certain_stages stages) fun hr ↦ ?_
    refine .bind (.fork (execStages_keep _ stages s₁ visible hr)) fun s₂ _ outcomes ho ↦ ?_
    exact meets_outcome (Outcome.within_ofStages fun o h ↦ ends_iff.1 (ho o h))
  | .form site head args opts redirs, s, fm, visible => by
    rw [Op.outline, Op.exec]
    refine .atSite (.after (fun _ ↦ meets_checkInterrupt) fun s₁ _ _ _ ↦ ?_)
    refine .seq (head_follows _ head s₁ visible) fun s₂ f hs₂ hf ↦ ?_
    refine .seq (evalAll_follows _ args s₂ _) fun s₃ args hs₃ hargs ↦ ?_
    refine .seq (evalOptions_follows _ opts s₃ _).loose fun s₄ opts hs₄ hopts ↦ ?_
    refine .andThen (redirected_follows _ redirs s₄ _) fun s₅ wiring hs₅ hm _ ↦ ?_
    refine heng.call hm (State.within_mono ((hs₃.trans hs₄).trans hs₅) hf) ?_ ?_
    · exact State.values_mono (hs₄.trans hs₅) hargs
    · exact Options.within_ofPairs (State.options_mono hs₅ hopts)
  | .var site targets rest none, s, fm, visible => by
    rw [Op.outline, Op.exec, Op.outlineOfValues]
    refine .atSite (.nothing_seq (declareAll_follows (by simp) fun v hv ↦ ?_))
    obtain ⟨_, -, rfl⟩ := List.mem_map.1 hv
    exact Value.within_nil
  | .var site targets rest (some es), s, fm, visible => by
    rw [Op.outline, Op.exec, Op.outlineOfValues]
    refine .atSite (.seq (evalAll_follows _ es s visible) fun s₁ vs _ hvs ↦ ?_)
    refine .after (fun _ ↦ meets_distribute hvs) fun s₂ vs _ ⟨hlen, hvs⟩ ↦ ?_
    exact declareAll_follows hlen hvs
  | .set site targets rest values, s, fm, visible => by
    rw [Op.outline, Op.exec]
    refine .atSite (.seq (evalAll_follows _ values s visible) fun s₁ vs _ hvs ↦ ?_)
    refine .after (fun _ ↦ meets_distribute hvs) fun s₂ vs _ ⟨hlen, hvs⟩ ↦ ?_
    exact assignAll_follows _ targets s₂ _ hlen hvs
  | .del site (.mk name []), s, fm, visible => by
    rw [Op.outline, Op.exec, Place.outline, Place.removal, Expr.outlines]
    refine .atSite (.of_meets rfl fun hr ↦ ?_)
    have hforget : s.Runs _ visible (.forgets name) := hr.part (fun _ h ↦ by cases h) And.right
    refine .bind (meets_remove hforget.thawed (hforget.placed.imp_right hforget.clear))
      fun s₁ _ removed _ ↦ ?_
    cases removed with
    | true => exact .pure trivial
    | false => exact meets_throw_variable hforget.not_guarded
  | .del site (.mk name (index :: indices)), s, fm, visible => by
    rw [Op.outline, Op.exec, Place.outline, Place.removal]
    · refine .atSite (.assoc (.seq (.of_meets rfl fun hr ↦ meets_cell hr.finds) fun s₁ c _ _ ↦ ?_))
      refine .seq (evalEach_follows _ "index" (index :: indices) s₁ _) fun s₂ path hs₂ hpath ↦ ?_
      refine .of_meets rfl fun _ ↦ .bind meets_read fun s₃ hs₃ base hbase ↦ ?_
      refine .bind (meets_dissoc hbase (State.values_mono hs₃ hpath)) fun s₄ _ r hr ↦ ?_
      exact .bind (meets_check hr) fun s₅ _ updated hupdated ↦ meets_write hupdated
    · rintro _ ⟨⟩
    · rintro ⟨⟩
  | .fn site var lambda, s, fm, visible => by
    rw [Op.outline, Op.exec]
    refine .atSite (.seq (.declare Value.within_nil) fun s₁ c _ _ ↦ ?_)
    exact .andThen (instantiate_follows _ lambda s₁ _) fun s₂ f _ _ hf ↦ meets_write hf
  | .fnBody body, s, fm, visible => by
    rw [Op.outline, Op.exec]
    refine .starting (.of_meets rfl fun hr ↦ ?_)
    have hbody := (exec_follows body s fm visible).meets hr.loose
    exact .bind (meets_result hbody) fun s₁ _ o ho ↦ meets_outcome (stopReturn_within ho)
  | .use site spec var, s, fm, visible => by
    rw [Op.outline, Op.exec]
    refine .atSite (.after (fun _ ↦ meets_useModule heng) fun s₁ space _ hspace ↦ ?_)
    exact .andThen (.declare (Value.within_ns.2 hspace)) fun _ _ _ _ _ ↦ .pure trivial
  | .ifForm site branches otherwise, s, fm, visible => by
    rw [Op.outline, Op.exec]
    exact .atSite (runBranches_follows _ (runOptional_follows _ otherwise)
      (certain_optional otherwise) branches s visible)
  | .whileForm site cond body otherwise, s, fm, visible => by
    rw [Op.outline, Op.exec]
    refine .atSite (.seq (eval_follows _ body s visible) fun s₁ vs _ hvs ↦ ?_)
    refine .after (fun _ ↦ meets_single hvs) fun s₂ f _ hf ↦ ?_
    refine .after (fun _ ↦ meets_checkInterrupt) fun s₃ _ hs₃ _ ↦ ?_
    intro hr
    refine Follows.seq (.loose (eval_follows _ cond s₃ _)) (fun s₄ vs hs₄ _ ↦ ?_) hr
    split
    · refine .of_meets (certain_optional otherwise) fun hm ↦ ?_
      have hs := hs₃.trans hs₄
      refine .bind (meets_round heng hm.minds (State.within_mono hs hf)) fun s₅ hs₅ again _ ↦ ?_
      cases again with
      | false => exact .pure trivial
      | true =>
        refine .repeatWhile (I := fun _ ↦ True) trivial fun s₆ hs₆ _ ↦ ?_
        refine .bind meets_checkInterrupt fun s₇ hs₇ _ _ ↦ ?_
        have hs' := ((hs₄.trans hs₅).trans hs₆).trans hs₇
        have hcond := (eval_follows _ cond s₇ _).meets (hr.first.loose.mono hs')
        refine .bind hcond fun s₈ hs₈ vs _ ↦ ?_
        split
        · have hs'' := (hs₃.trans hs').trans hs₈
          exact meets_round heng (hr.minds.mono (hs'.trans hs₈)) (State.within_mono hs'' hf)
        · exact .pure trivial
    · exact runOptional_follows _ otherwise s₄ _
  | .forForm site var iterable body otherwise, s, fm, visible => by
    rw [Op.outline, Op.exec]
    refine .atSite (.seq (eval_follows _ iterable s visible) fun s₁ vs _ hvs ↦ ?_)
    refine .after (fun _ ↦ meets_single hvs) fun s₂ v _ hv ↦ ?_
    refine .after (fun _ ↦ meets_itemsOf hv) fun s₃ items _ hitems ↦ ?_
    refine .seq (.declare Value.within_nil) fun s₄ c hs₄ _ ↦ ?_
    refine .seq (eval_follows _ body s₄ _) fun s₅ vs hs₅ hvs ↦ ?_
    refine .after (fun _ ↦ meets_single hvs) fun s₆ f hs₆ hf ↦ ?_
    have hitems' := State.values_mono ((hs₄.trans hs₅).trans hs₆) hitems
    refine .after (fun hm ↦ meets_rounds heng hm hf hitems') fun s₇ _ _ _ ↦ ?_
    split
    · exact runOptional_follows _ otherwise s₇ _
    · exact .of_meets (certain_optional otherwise) fun _ ↦ .pure trivial
  | .tryForm site body handler otherwise last, s, fm, visible => by
    rw [Op.outline, Op.exec]
    refine .atSite (.assoc_symm (.assoc_symm ?_))
    refine .seq (.of_meets ?_ fun hr ↦ meets_result (Q := fun _ _ ↦ True) ?_) fun s₁ o _ ho ↦ ?_
    · simp [Outline.certain, certain_handler, certain_optional]
    · have hbody := (runBody_follows heng (eval_follows _ body s visible)).meets hr.first.first.loose
      refine .bind (meets_result hbody) fun s₁ hs₁ o ho ↦ ?_
      have hr₁ := hr.mono hs₁
      split
      · refine (runOptional_follows _ otherwise s₁ visible).meets (hr₁.part ?_ fun hc ↦ ?_)
        · exact fun site hsite ↦ List.mem_append_right _ hsite
        · simpa [Outline.certain, certain_handler] using hc.2
      · refine (runHandler_follows _ handler s₁ visible ?_).meets (hr₁.part ?_ fun hc ↦ ?_)
        · exact Failure.within_exception.1 (ho _ rfl)
        · exact fun site hsite ↦ List.mem_append_left _ (List.mem_append_right _ hsite)
        · simpa [Outline.certain] using hc.1.2
      · exact .fail (ho _ rfl)
    · cases last with
      | none =>
        rw [Op.outlineOfLast]
        exact .of_meets rfl fun _ ↦ meets_outcome ho
      | some e =>
        rw [Op.outlineOfLast]
        exact .withCallback (runBody_follows heng (eval_follows _ e s₁ _)) ho
  | .logic site stopOn args, s, fm, visible => by
    rw [Op.outline, Op.exec]
    exact .atSite (evalLogic_follows _ stopOn args s visible (Value.within_bool _))

theorem execChunk_follows (fm : Frame) : ∀ (ops : List Op) (s : W.State) (visible : List String),
    Follows s fm visible (Op.outlines ops) (execChunk eng fm ops) fun _ _ ↦ True
  | [], s, visible => by
    rw [Op.outlines, execChunk]
    exact .pure trivial
  | op :: ops, s, visible => by
    rw [Op.outlines, execChunk]
    refine .after (fun _ ↦ meets_checkInterrupt) fun s₁ _ _ _ ↦ ?_
    exact .seq (exec_follows op s₁ fm visible) fun s₂ _ _ _ ↦ execChunk_follows fm ops s₂ _

theorem execStages_keep (fm : Frame) :
    ∀ (ops : List Op) (s : W.State) (visible : List String) {reads : Option Pipe} {pipes : List Pipe},
      s.Runs fm visible (Op.outlinesOfStages ops) →
        ∀ p ∈ execStages eng fm reads pipes ops, p.Keeps W.protocol s
  | [], s, visible, reads, pipes, _, p, hp => by
    rw [execStages] at hp
    cases hp
  | op :: ops, s, visible, reads, pipes, hr, p, hp => by
    rw [Op.outlinesOfStages] at hr
    rw [execStages, List.mem_cons] at hp
    rcases hp with rfl | hp
    · have hstage := hr.first.loose
      exact keeps_stage ((exec_follows op s (fm.between reads pipes.head?) visible).meets
        ⟨hstage.thawed, hstage.placed, hstage.minds, hstage.sites, hstage.clear, hstage.knows⟩)
    · refine execStages_keep fm ops s visible (hr.part ?_ fun hc ↦ ?_) p hp
      · exact fun site hsite ↦ List.mem_append_right _ hsite
      · simpa [Outline.certain] using hc.2

end

end Engine

end Watch

end ValueShell
