import ValueShell.Proofs.Forms.Commands
import ValueShell.Proofs.Requests

/-!
# Running code keeps the log

Operations and words keep the log (`Comp.KeepsLog.exec`), over the syntax of operations as `Op.exec` and `Expr.eval`
go over it.  An engine with any number of steps does then (`engine_keepsLog`), by induction on the steps, and so does
every request (`Request.keepsLog`).

The stages of a pipeline begin strands of their own, in the form of the pipeline.  Of what they end with, a single
failure leaves this form, and several make a new exception.
-/

set_option autoImplicit false

namespace ValueShell

/-- Of the outcomes of stages that of all may leave if each of them may. -/
theorem Strand.leaves_ofStages {s : Strand} {os : List Outcome} (h : ∀ o ∈ os, ∀ f, o = .error f → s.Leaves f) :
    ∀ f, Outcome.ofStages os = .error f → s.Leaves f := by
  intro f hf
  have hmem : ∀ g ∈ (os.dropLast.map Outcome.withoutReaderGone ++ os.getLast?.toList).filterMap Outcome.failure?,
      s.Leaves g := by
    intro g hg
    obtain ⟨o, ho, hog⟩ := List.mem_filterMap.1 hg
    obtain rfl : o = .error g := by
      cases o <;> cases hog
      rfl
    rcases List.mem_append.1 ho with ho | ho
    · obtain ⟨o', ho', heq⟩ := List.mem_map.1 ho
      unfold Outcome.withoutReaderGone at heq
      split at heq
      · split at heq <;> cases heq
        exact h _ ((List.dropLast_sublist os).subset ho') g rfl
      · cases heq
    · exact h _ (List.mem_of_getLast? (Option.mem_toList.1 ho)) g rfl
  unfold Outcome.ofStages Outcome.combine at hf
  dsimp only at hf
  split at hf
  next => cases hf
  next g hg =>
    cases hf
    exact hmem f (by rw [hg]; exact List.mem_cons_self)
  next =>
    cases hf
    exact s.leaves_composite rfl

namespace Comp.KeepsLog

variable {site : Option CallSite} {fm : Frame} {eng : Engine}

/-! ## Pieces without recursion -/

theorem starting {known : Option CallSite} (h : known = none) : (fm.starting known).KeepsLog site fun _ ↦ True := by
  subst h
  exact fun s _ ↦ .consequence (.note trivial le_rfl) fun _ _ _ _ ↦ trivial

theorem single (hfm : fm.Suits site) {what : String} {vs : List Value} :
    (fm.single what vs).KeepsLog site fun _ ↦ True := by
  unfold Frame.single
  split
  · exact .pure trivial
  · exact .throw hfm

theorem indexAll (hfm : fm.Suits site) {keys vs : List Value} : (fm.indexAll keys vs).KeepsLog site fun _ ↦ True := by
  induction vs with
  | nil => exact .pure trivial
  | cons base bases ih =>
    have hfirst : (Comp.mapEach (fun key ↦ do fm.check (← Comp.act (.index base key))) keys).KeepsLog site
        fun _ ↦ True :=
      .mapEach fun key _ ↦ .bind (.act fun _ _ ↦ trivial) fun _ _ ↦ .check hfm
    exact .bind hfirst fun first _ ↦ .bind ih fun others _ ↦ .pure trivial

theorem itemsOf (hfm : fm.Suits site) {v : Value} : (fm.itemsOf v).KeepsLog site fun _ ↦ True := by
  cases v with
  | list items => exact .pure trivial
  | map entries => exact .pure trivial
  | _ => exact .throw hfm

theorem assign (hfm : fm.Suits site) {c : CellId} {path : List Value} {v : Value} :
    (fm.assign c path v).KeepsLog site fun _ ↦ True := by
  cases path with
  | nil => exact .act fun _ _ ↦ trivial
  | cons key keys =>
    refine .bind (.act fun _ _ ↦ trivial) fun base _ ↦ .bind (.act fun _ _ ↦ trivial) fun r _ ↦ ?_
    exact .bind (.check hfm) fun updated _ ↦ .act fun _ _ ↦ trivial

theorem declareAll {targets : List (Option String)} {vs : List Value} :
    (fm.declareAll targets vs).KeepsLog site fun _ ↦ True := by
  induction targets generalizing vs with
  | nil => exact .pure trivial
  | cons target targets ih =>
    cases vs with
    | nil => cases target <;> exact .pure trivial
    | cons v vs =>
      cases target with
      | none => exact ih
      | some name => exact .bind (.discard .declare) fun _ _ ↦ ih

theorem openFile (hfm : fm.Suits site) {path : Value} {append : Bool} :
    (fm.openFile path append).KeepsLog site fun _ ↦ True := by
  cases path with
  | str name =>
    refine .bind (.act fun _ _ ↦ trivial) fun r _ ↦ ?_
    cases r with
    | ok id => exact .pure trivial
    | error fault => exact .throw hfm
  | _ => exact .throw hfm

theorem outletOf (hfm : fm.Suits site) {wiring : Wiring} {fd : Nat} :
    (fm.outletOf wiring fd).KeepsLog site fun _ ↦ True := by
  unfold Frame.outletOf
  split
  · exact .pure trivial
  · exact .throw hfm

theorem newPipes {capacity n : Nat} : (ValueShell.newPipes capacity n).KeepsLog site fun _ ↦ True := by
  induction n with
  | zero => exact .pure trivial
  | succ n ih => exact .bind (.act fun _ _ ↦ trivial) fun _ _ ↦ .bind ih fun _ _ ↦ .pure trivial

/-- A stage begins a strand of its own. -/
theorem stage {reads writes : Option Pipe} {m : Comp Unit} (h : m.KeepsLog site fun _ ↦ True) :
    (stageProgram reads writes m).Traced (.start site) := by
  refine h (.start site) rfl _ (fun _ hs _ _ ↦ ⟨trivial, fun _ ↦ ⟨hs.1, nofun⟩⟩) fun s hs f hf ↦ ?_
  refine ⟨trivial, fun _ ↦ ⟨hs.1, ?_⟩⟩
  rintro _ ⟨⟩
  exact hf

section Engine

variable (heng : eng.KeepsLog)

include heng

/-! ## Bodies -/

theorem callBody (hfm : fm.Suits site) {body : Value} : (eng.callBody fm body).KeepsLog site fun _ ↦ True :=
  heng.call hfm

theorem runBody (hfm : fm.Suits site) {word : Comp (List Value)} (h : word.KeepsLog site fun _ ↦ True) :
    (eng.runBody fm word).KeepsLog site fun _ ↦ True :=
  .bind h fun _ _ ↦ .bind (.single hfm) fun _ _ ↦ callBody heng hfm

theorem round (hfm : fm.Suits site) {body : Value} : (eng.round fm body).KeepsLog site fun _ ↦ True := by
  refine .result_bind (callBody heng hfm) fun s o _ ho ↦ .ofExcept (fun _ _ ↦ trivial) fun f hf ↦ ?_
  unfold anotherRound at hf
  split at hf
  · cases hf
  · cases hf
  · cases hf
  · cases hf
    exact ho f rfl

theorem rounds (hfm : fm.Suits site) {c : CellId} {body : Value} {items : List Value} :
    (eng.rounds fm c body items).KeepsLog site fun _ ↦ True := by
  induction items with
  | nil => exact .pure trivial
  | cons item items ih =>
    refine .bind (.checkInterrupt hfm) fun _ _ ↦ .bind (.act fun _ _ ↦ trivial) fun _ _ ↦ ?_
    refine .bind (round heng hfm) fun again _ ↦ ?_
    cases again with
    | false => exact .pure trivial
    | true => exact ih

/-! ## Forms with bodies -/

section Bodies

variable {here : CallSite} {body : Expr} {otherwise : Option Expr}
  (hbody : (body.eval eng { fm with site := some here }).KeepsLog (some here) fun _ ↦ True)
  (hotherwise : (ValueShell.runOptional eng { fm with site := some here } otherwise).KeepsLog (some here) fun _ ↦ True)

include hbody hotherwise

theorem whileForm {cond : Expr}
    (hcond : (cond.eval eng { fm with site := some here }).KeepsLog (some here) fun _ ↦ True) :
    ((Op.whileForm here cond body otherwise).exec eng fm).KeepsLog site fun _ ↦ True := by
  have hfm := Frame.Suits.here here fm
  have hround {f : Value} : (eng.round { fm with site := some here } f).KeepsLog (some here) fun _ ↦ True :=
    round heng hfm
  simp only [Op.exec]
  refine .atSite (.bind hbody fun _ _ ↦ .bind (.single hfm) fun f _ ↦ ?_)
  refine .bind (.checkInterrupt hfm) fun _ _ ↦ .bind hcond fun vs _ ↦ ?_
  split
  · refine .bind hround fun again _ ↦ ?_
    cases again with
    | false => exact .pure trivial
    | true =>
      refine .repeatWhile (.bind (.checkInterrupt hfm) fun _ _ ↦ .bind hcond fun vs _ ↦ ?_) _
      split
      · exact hround
      · exact .pure trivial
  · exact hotherwise

theorem forForm {var : String} {iterable : Expr}
    (hiterable : (iterable.eval eng { fm with site := some here }).KeepsLog (some here) fun _ ↦ True) :
    ((Op.forForm here var iterable body otherwise).exec eng fm).KeepsLog site fun _ ↦ True := by
  have hfm := Frame.Suits.here here fm
  simp only [Op.exec]
  refine .atSite (.bind hiterable fun _ _ ↦ .bind (.single hfm) fun v _ ↦ ?_)
  refine .bind (.itemsOf hfm) fun items _ ↦ .bind .declare fun c _ ↦ .bind hbody fun _ _ ↦ ?_
  refine .bind (.single hfm) fun f _ ↦ .bind (rounds heng hfm) fun _ _ ↦ ?_
  split
  · exact hotherwise
  · exact .pure trivial

/-- A handler gets an exception that may leave, and without a handler it does. -/
theorem tryForm {handler : Option (Option String × Expr)} {last : Option Expr}
    (hhandler : ∀ (e : Exception) (s : Strand), s.site = some here → s.Leaves (.exception e) →
      (ValueShell.runHandler eng { fm with site := some here } e handler).Traces s fun _ _ ↦ True)
    (hlast : ∀ e, last = some e → (e.eval eng { fm with site := some here }).KeepsLog (some here) fun _ ↦ True) :
    ((Op.tryForm here body handler otherwise last).exec eng fm).KeepsLog site fun _ ↦ True := by
  have hfm := Frame.Suits.here here fm
  -- the kernel cannot see that the equation of this case holds by computation alone
  rw [Op.exec]
  refine .atSite (.result_bind (P := fun _ ↦ True) (.result_bind (runBody heng hfm hbody) fun s o hs ho ↦ ?_)
    fun s o hs ho ↦ ?_)
  · split
    · exact hotherwise s hs
    · exact hhandler _ s hs (ho _ rfl)
    · exact .fail (ho _ rfl)
  · cases last with
    | none => exact .ofExcept (fun _ _ ↦ trivial) ho
    | some e =>
      refine .bind (runBody heng hfm (hlast e rfl) s hs).result fun s' hs' ended hended ↦ ?_
      exact .ofExcept (fun _ _ ↦ trivial) (Strand.leaves_withCallback (fun f hf ↦ (ho f hf).mono hs') hended.2)

end Bodies

set_option linter.unusedSectionVars false

/-! ## Words and operations -/

mutual

theorem eval {fm : Frame} {site : Option CallSite} (hfm : fm.Suits site) : ∀ e : Expr,
    (e.eval eng fm).KeepsLog site fun _ ↦ True
  | .literal _ => by
    simp only [Expr.eval]
    exact .pure trivial
  | .variable name explode => by
    simp only [Expr.eval]
    refine .bind (.value hfm) fun v _ ↦ ?_
    cases explode with
    | false => exact .pure trivial
    | true =>
      cases v with
      | list items => exact .pure trivial
      | _ => exact .throw hfm
  | .capture op => by
    simp only [Expr.eval]
    refine .captured fun wiring ↦ ?_
    have hwired : (fm.withWiring wiring).Suits site := hfm
    exact exec hwired op
  | .list items => by
    simp only [Expr.eval]
    exact .bind (evalAll hfm items) fun _ _ ↦ .pure trivial
  | .map pairs => by
    simp only [Expr.eval]
    exact .bind (evalPairs hfm pairs) fun _ _ ↦ .pure trivial
  | .lambda l => by
    simp only [Expr.eval]
    exact .bind (instantiate hfm l) fun _ _ ↦ .pure trivial
  | .indexed head indices => by
    simp only [Expr.eval]
    exact .bind (eval hfm head) fun vs _ ↦ evalIndices hfm indices vs
  | .compound parts => by
    simp only [Expr.eval]
    exact .bind (evalParts hfm parts [""]) fun _ _ ↦ .pure trivial

theorem evalAll {fm : Frame} {site : Option CallSite} (hfm : fm.Suits site) : ∀ es : List Expr,
    (ValueShell.evalAll eng fm es).KeepsLog site fun _ ↦ True
  | [] => by
    simp only [ValueShell.evalAll]
    exact .pure trivial
  | e :: es => by
    simp only [ValueShell.evalAll]
    exact .bind (eval hfm e) fun _ _ ↦ .bind (evalAll hfm es) fun _ _ ↦ .pure trivial

theorem evalEach {fm : Frame} {site : Option CallSite} (hfm : fm.Suits site) (what : String) : ∀ es : List Expr,
    (ValueShell.evalEach eng fm what es).KeepsLog site fun _ ↦ True
  | [] => by
    simp only [ValueShell.evalEach]
    exact .pure trivial
  | e :: es => by
    simp only [ValueShell.evalEach]
    refine .bind (eval hfm e) fun _ _ ↦ .bind (.single hfm) fun _ _ ↦ ?_
    exact .bind (evalEach hfm what es) fun _ _ ↦ .pure trivial

theorem evalPairs {fm : Frame} {site : Option CallSite} (hfm : fm.Suits site) : ∀ pairs : List (Expr × Expr),
    (ValueShell.evalPairs eng fm pairs).KeepsLog site fun _ ↦ True
  | [] => by
    simp only [ValueShell.evalPairs]
    exact .pure trivial
  | (k, v) :: pairs => by
    simp only [ValueShell.evalPairs]
    refine .bind (eval hfm k) fun _ _ ↦ .bind (.single hfm) fun _ _ ↦ ?_
    refine .bind (eval hfm v) fun _ _ ↦ .bind (.single hfm) fun _ _ ↦ ?_
    exact .bind (evalPairs hfm pairs) fun _ _ ↦ .pure trivial

theorem evalIndices {fm : Frame} {site : Option CallSite} (hfm : fm.Suits site) :
    ∀ (indices : List (List Expr)) (vs : List Value), (ValueShell.evalIndices eng fm vs indices).KeepsLog site
      fun _ ↦ True
  | [], _ => by
    simp only [ValueShell.evalIndices]
    exact .pure trivial
  | index :: indices, vs => by
    simp only [ValueShell.evalIndices]
    refine .bind (evalAll hfm index) fun keys _ ↦ .bind (.indexAll hfm) fun elements _ ↦ ?_
    exact evalIndices hfm indices elements

theorem evalParts {fm : Frame} {site : Option CallSite} (hfm : fm.Suits site) :
    ∀ (parts : List Expr) (texts : List String), (ValueShell.evalParts eng fm texts parts).KeepsLog site fun _ ↦ True
  | [], _ => by
    simp only [ValueShell.evalParts]
    exact .pure trivial
  | part :: parts, texts => by
    simp only [ValueShell.evalParts]
    exact .bind (eval hfm part) fun vs _ ↦ .bind (.check hfm) fun texts _ ↦ evalParts hfm parts texts

theorem evalOptions {fm : Frame} {site : Option CallSite} (hfm : fm.Suits site) :
    ∀ opts : List (String × Option Expr), (ValueShell.evalOptions eng fm opts).KeepsLog site fun _ ↦ True
  | [] => by
    simp only [ValueShell.evalOptions]
    exact .pure trivial
  | (name, none) :: opts => by
    simp only [ValueShell.evalOptions]
    exact .bind (evalOptions hfm opts) fun _ _ ↦ .pure trivial
  | (name, some e) :: opts => by
    simp only [ValueShell.evalOptions]
    refine .bind (eval hfm e) fun _ _ ↦ .bind (.single hfm) fun _ _ ↦ ?_
    exact .bind (evalOptions hfm opts) fun _ _ ↦ .pure trivial

theorem evalDefaults {fm : Frame} {site : Option CallSite} (hfm : fm.Suits site) :
    ∀ options : List (String × Expr), (ValueShell.evalDefaults eng fm options).KeepsLog site fun _ ↦ True
  | [] => by
    simp only [ValueShell.evalDefaults]
    exact .pure trivial
  | (name, e) :: options => by
    simp only [ValueShell.evalDefaults]
    refine .bind (eval hfm e) fun _ _ ↦ .bind (.single hfm) fun _ _ ↦ ?_
    exact .bind (evalDefaults hfm options) fun _ _ ↦ .pure trivial

theorem instantiate {fm : Frame} {site : Option CallSite} (hfm : fm.Suits site) : ∀ l : LambdaDef,
    (l.instantiate eng fm).KeepsLog site fun _ ↦ True
  | .mk source params rest options restOptions body => by
    simp only [LambdaDef.instantiate]
    exact .bind (evalDefaults hfm options) fun _ _ ↦ .close

theorem runOptional {fm : Frame} {site : Option CallSite} (hfm : fm.Suits site) : ∀ e : Option Expr,
    (ValueShell.runOptional eng fm e).KeepsLog site fun _ ↦ True
  | none => by
    simp only [ValueShell.runOptional]
    exact .pure trivial
  | some e => by
    simp only [ValueShell.runOptional]
    exact runBody heng hfm (eval hfm e)

theorem redirected {fm : Frame} {site : Option CallSite} (hfm : fm.Suits site) :
    ∀ (redirs : List Redirect) (wiring : Wiring),
      (ValueShell.redirected eng fm wiring redirs).KeepsLog site fun _ ↦ True
  | [], _ => by
    simp only [ValueShell.redirected]
    exact .pure trivial
  | .dup fd source :: redirs, wiring => by
    simp only [ValueShell.redirected]
    refine .bind (.outletOf hfm) fun outlet _ ↦ .bind (.check hfm) fun wiring _ ↦ ?_
    exact redirected hfm redirs wiring
  | .file fd path append :: redirs, wiring => by
    simp only [ValueShell.redirected]
    refine .bind (eval hfm path) fun _ _ ↦ .bind (.single hfm) fun _ _ ↦ .bind (.openFile hfm) fun outlet _ ↦ ?_
    exact .bind (.check hfm) fun wiring _ ↦ redirected hfm redirs wiring

theorem head {fm : Frame} {site : Option CallSite} (hfm : fm.Suits site) : ∀ h : Head,
    (h.eval eng fm).KeepsLog site fun _ ↦ True
  | .function var => by
    simp only [Head.eval]
    exact .value hfm
  | .external program => by
    simp only [Head.eval]
    exact .pure trivial
  | .word e => by
    simp only [Head.eval]
    exact .bind (eval hfm e) fun _ _ ↦ .single hfm

theorem assignAll {fm : Frame} {site : Option CallSite} (hfm : fm.Suits site) :
    ∀ (places : List Place) (vs : List Value), (ValueShell.assignAll eng fm places vs).KeepsLog site fun _ ↦ True
  | .mk name indices :: places, v :: vs => by
    simp only [ValueShell.assignAll]
    refine .bind (.cell hfm) fun c _ ↦ .bind (evalEach hfm "index" indices) fun path _ ↦ ?_
    exact .bind (.assign hfm) fun _ _ ↦ assignAll hfm places vs
  | [], _ | _ :: _, [] => by
    simp only [ValueShell.assignAll]
    exact .pure trivial

theorem evalLogic {fm : Frame} {site : Option CallSite} (hfm : fm.Suits site) (stopOn : Bool) :
    ∀ (es : List Expr) (last : Value), (ValueShell.evalLogic eng fm stopOn last es).KeepsLog site fun _ ↦ True
  | [], _ => by
    simp only [ValueShell.evalLogic]
    exact .put hfm
  | e :: es, last => by
    simp only [ValueShell.evalLogic]
    refine .bind (eval hfm e) fun vs _ ↦ ?_
    split
    · exact .put hfm
    · exact evalLogic hfm stopOn es _

theorem runBranches {fm : Frame} {site : Option CallSite} (hfm : fm.Suits site) {otherwise : Comp Unit}
    (hotherwise : otherwise.KeepsLog site fun _ ↦ True) : ∀ branches : List (Expr × Expr),
    (ValueShell.runBranches eng fm otherwise branches).KeepsLog site fun _ ↦ True
  | [] => by
    simp only [ValueShell.runBranches]
    exact hotherwise
  | (cond, body) :: branches => by
    simp only [ValueShell.runBranches]
    refine .bind (eval hfm cond) fun vs _ ↦ ?_
    split
    · exact runBody heng hfm (eval hfm body)
    · exact runBranches hfm hotherwise branches

theorem runHandler {fm : Frame} {site : Option CallSite} (hfm : fm.Suits site) {e : Exception} {s : Strand}
    (hs : s.site = site) (he : s.Leaves (.exception e)) : ∀ handler : Option (Option String × Expr),
    (ValueShell.runHandler eng fm e handler).Traces s fun _ _ ↦ True
  | none => by
    simp only [ValueShell.runHandler]
    exact .fail he
  | some (none, body) => by
    simp only [ValueShell.runHandler]
    exact runBody heng hfm (eval hfm body) s hs
  | some (some name, body) => by
    simp only [ValueShell.runHandler]
    exact bind (.discard .declare) (fun _ _ ↦ runBody heng hfm (eval hfm body)) s hs

/-- **Running code keeps the log.** -/
theorem exec {fm : Frame} {site : Option CallSite} (hfm : fm.Suits site) : ∀ op : Op,
    (op.exec eng fm).KeepsLog site fun _ ↦ True
  | .chunk ops => by
    simp only [Op.exec]
    exact .bind (.starting rfl) fun _ _ ↦ execChunk hfm ops
  | .pipeline here stages => by
    simp only [Op.exec]
    refine .atSite (.bind .newPipes fun pipes _ s hs ↦ ?_)
    refine .bind (.fork fun p hp ↦ ?_) fun s' _ os hos ↦ .ofExcept (fun _ _ ↦ trivial) (Strand.leaves_ofStages hos)
    rw [hs]
    exact execStages (Frame.Suits.here _ fm) stages none pipes p hp
  | .form here command args opts redirs => by
    have hfm' := Frame.Suits.here here fm
    simp only [Op.exec]
    refine .atSite (.bind (.checkInterrupt hfm') fun _ _ ↦ ?_)
    refine .bind (head hfm' command) fun _ _ ↦ .bind (evalAll hfm' args) fun _ _ ↦ ?_
    refine .bind (evalOptions hfm' opts) fun _ _ ↦ .bind (redirected hfm' redirs _) fun wiring _ ↦ ?_
    exact heng.call hfm'
  | .var here targets rest none => by
    simp only [Op.exec]
    exact .atSite .declareAll
  | .var here targets rest (some values) => by
    have hfm' := Frame.Suits.here here fm
    simp only [Op.exec]
    refine .atSite (.bind (evalAll hfm' values) fun _ _ ↦ ?_)
    exact .bind (.check hfm') fun _ _ ↦ .declareAll
  | .set here targets rest values => by
    have hfm' := Frame.Suits.here here fm
    simp only [Op.exec]
    refine .atSite (.bind (evalAll hfm' values) fun _ _ ↦ ?_)
    exact .bind (.check hfm') fun vs _ ↦ assignAll hfm' targets vs
  | .del here (.mk name []) => by
    simp only [Op.exec]
    refine .atSite (.bind (.act fun _ _ ↦ trivial) fun found _ ↦ ?_)
    cases found with
    | true => exact .pure trivial
    | false => exact .throw (Frame.Suits.here _ fm)
  | .del here (.mk name (index :: indices)) => by
    have hfm' := Frame.Suits.here here fm
    simp only [Op.exec]
    refine .atSite (.bind (.cell hfm') fun c _ ↦ .bind (evalEach hfm' "index" (index :: indices)) fun path _ ↦ ?_)
    refine .bind (.act fun _ _ ↦ trivial) fun base _ ↦ .bind (.act fun _ _ ↦ trivial) fun r _ ↦ ?_
    exact .bind (.check hfm') fun updated _ ↦ .act fun _ _ ↦ trivial
  | .fn here var lambda => by
    have hfm' := Frame.Suits.here here fm
    simp only [Op.exec]
    refine .atSite (.bind .declare fun c _ ↦ ?_)
    exact .bind (instantiate hfm' lambda) fun f _ ↦ .act fun _ _ ↦ trivial
  | .fnBody body => by
    simp only [Op.exec]
    refine .bind (.starting rfl) fun _ _ ↦ .result_bind (exec hfm body) fun s o _ ho ↦ ?_
    refine .ofExcept (fun _ _ ↦ trivial) fun f hf ↦ ?_
    unfold stopReturn at hf
    split at hf
    · cases hf
    · exact ho f hf
  | .use here spec var => by
    have hfm' := Frame.Suits.here here fm
    simp only [Op.exec]
    refine .atSite (.bind (.useModule heng hfm') fun space _ ↦ ?_)
    exact .bind .declare fun _ _ ↦ .pure trivial
  | .ifForm here branches otherwise => by
    have hfm' := Frame.Suits.here here fm
    simp only [Op.exec]
    exact .atSite (runBranches hfm' (runOptional hfm' otherwise) branches)
  | .whileForm here cond body otherwise =>
    have hfm' := Frame.Suits.here here fm
    whileForm heng (eval hfm' body) (runOptional hfm' otherwise) (eval hfm' cond)
  | .forForm here var iterable body otherwise =>
    have hfm' := Frame.Suits.here here fm
    forForm heng (eval hfm' body) (runOptional hfm' otherwise) (eval hfm' iterable)
  | .tryForm here body handler otherwise none =>
    have hfm' := Frame.Suits.here here fm
    tryForm heng (eval hfm' body) (runOptional hfm' otherwise) (fun _ _ hs he ↦ runHandler hfm' hs he handler) nofun
  | .tryForm here body handler otherwise (some last) =>
    have hfm' := Frame.Suits.here here fm
    tryForm heng (eval hfm' body) (runOptional hfm' otherwise) (fun _ _ hs he ↦ runHandler hfm' hs he handler)
      fun _ he ↦ Option.some.inj he ▸ eval hfm' last
  | .logic here stopOn args => by
    simp only [Op.exec]
    exact .atSite (evalLogic (Frame.Suits.here _ fm) stopOn args _)

theorem execChunk {fm : Frame} {site : Option CallSite} (hfm : fm.Suits site) : ∀ ops : List Op,
    (ValueShell.execChunk eng fm ops).KeepsLog site fun _ ↦ True
  | [] => by
    simp only [ValueShell.execChunk]
    exact .pure trivial
  | op :: ops => by
    simp only [ValueShell.execChunk]
    exact .bind (.checkInterrupt hfm) fun _ _ ↦ .bind (exec hfm op) fun _ _ ↦ execChunk hfm ops

theorem execStages {fm : Frame} {site : Option CallSite} (hfm : fm.Suits site) :
    ∀ (ops : List Op) (reads : Option Pipe) (pipes : List Pipe),
      ∀ p ∈ ValueShell.execStages eng fm reads pipes ops, p.Traced (.start site)
  | [], _, _ => by
    simp [ValueShell.execStages]
  | op :: ops, reads, pipes => by
    simp only [ValueShell.execStages]
    have hbetween : (fm.between reads pipes.head?).Suits site := hfm
    refine List.forall_mem_cons.2 ⟨stage (exec hbetween op), ?_⟩
    exact execStages hfm ops _ _

end

end Engine

end Comp.KeepsLog

/-! ## Engines and requests -/

/-- **Engines keep the log**, with any number of steps. -/
theorem engine_keepsLog : ∀ n : Nat, (engine n).KeepsLog
  | 0 => ⟨fun _ ↦ .spent, fun _ ↦ .spent⟩
  | n + 1 => ⟨fun hfm ↦ .exec (engine_keepsLog n) hfm _, fun hfm ↦ .callValue (engine_keepsLog n) hfm⟩

namespace Request

theorem topLevel_keepsLog (n : Nat) (config : Config) (global : NsId) (source : Source) (wiring : Wiring)
    (site : Option CallSite) : ((engine n).topLevel config global source wiring).KeepsLog site fun _ ↦ True :=
  .bind .compileFor fun _ _ ↦ .runChunk (engine_keepsLog n) (.inl rfl)

theorem run_keepsLog (n : Nat) : ∀ r : Request, (r.run (engine n)).KeepsLog r.frame.site fun _ ↦ True
  | .source .. => topLevel_keepsLog n _ _ _ _ _
  | .text .. => .bind (.act fun _ _ ↦ trivial) fun _ _ ↦ topLevel_keepsLog n _ _ _ _ _
  | .file .. => by
    refine .bind (.act fun _ _ ↦ trivial) fun text _ ↦ ?_
    cases text with
    | error fault => exact .raise
    | ok code => exact .bind (.act fun _ _ ↦ trivial) fun _ _ ↦ topLevel_keepsLog n _ _ _ _ _
  | .call .. => (engine_keepsLog n).call (.inr rfl)
  | .use .. => .discard (.useModule (engine_keepsLog n) (.inr rfl))

/-- **Every request keeps the log**, begun in the form in which it is made. -/
theorem keepsLog (r : Request) (n : Nat) : (r.program n).Traced (.start r.frame.site) :=
  Comp.Traces.program (r.run_keepsLog n _ rfl)

end Request

/-- The request to run a script at the top level of a fresh world, with nothing to read and all output thrown away. -/
def Request.script (code : String) : Request :=
  .text .default (World.fresh .default).global "script" code ⟨⟨none, none⟩, ⟨.discard, .discard⟩, ⟨.discard, .discard⟩⟩

end ValueShell
