import ValueShell.Proofs.Logic.Commands

/-!
# What holds of operations

In any logic, running code of its dialect is as it should be (`Comp.Logic.Holds.exec`), and so is evaluating its
words, if calling values is.  The statements go over the syntax of operations as `Op.exec` and `Expr.eval` do.
Pipelines are the only case that does not go through.
-/

set_option autoImplicit false

namespace ValueShell

namespace Comp.Logic

namespace Holds

variable {L : Logic} {S : Setting} {fm : Frame} {eng : Nat → Engine}

/-! ## Pieces without recursion -/

theorem single {what : String} {vs : List Value} : L.Holds S (fun _ ↦ fm.single what vs) fun _ ↦ True := by
  unfold Frame.single
  split
  · exact .pure trivial
  · exact .throw

theorem indexAll {keys vs : List Value} : L.Holds S (fun _ ↦ fm.indexAll keys vs) fun _ ↦ True := by
  induction vs with
  | nil => exact .pure trivial
  | cons base bases ih =>
    have hfirst : L.Holds S (fun _ ↦ Comp.mapEach (fun key ↦ do fm.check (← Comp.act (.index base key))) keys)
        fun _ ↦ True :=
      .any (.mapEach (R := fun _ _ ↦ True) fun key _ ↦ .bind (.done rfl rfl) fun _ _ ↦ .checked)
    exact .bind hfirst fun first _ ↦ .bind ih fun others _ ↦ .pure trivial

theorem itemsOf {v : Value} : L.Holds S (fun _ ↦ fm.itemsOf v) fun _ ↦ True := by
  cases v with
  | list items => exact .pure trivial
  | map entries => exact .pure trivial
  | _ => exact .throw

theorem assign {c : CellId} {path : List Value} {v : Value} :
    L.Holds S (fun _ ↦ fm.assign c path v) fun _ ↦ True := by
  cases path with
  | nil => exact .done rfl rfl
  | cons key keys =>
    refine .bind (.done rfl rfl) fun base _ ↦ .bind (.done rfl rfl) fun r _ ↦ ?_
    exact .bind .checked fun updated _ ↦ .done rfl rfl

theorem declareAll {targets : List (Option String)} {vs : List Value} :
    L.Holds S (fun _ ↦ fm.declareAll targets vs) fun _ ↦ True := by
  induction targets generalizing vs with
  | nil => exact .pure trivial
  | cons target targets ih =>
    cases vs with
    | nil => cases target <;> exact .pure trivial
    | cons v vs =>
      cases target with
      | none => exact ih
      | some name => exact .bind (.discard .declare) fun _ _ ↦ ih

/-! ## Redirections -/

theorem openFile {path : Value} {append : Bool} : L.Holds S (fun _ ↦ fm.openFile path append) L.Accepts := by
  cases path with
  | str name =>
    refine .bind (.done rfl rfl) fun r _ ↦ ?_
    cases r with
    | ok id => exact .pure (L.accepts_file id)
    | error fault => exact .throw
  | _ => exact .throw

theorem outletOf {wiring : Wiring} (h : L.Fits S (fm.withWiring wiring)) {fd : Nat} :
    L.Holds S (fun _ ↦ fm.outletOf wiring fd) L.Accepts := by
  unfold Frame.outletOf
  split
  · rename_i outlet houtlet
    unfold Wiring.outlet? at houtlet
    split at houtlet <;> cases houtlet
    · exact .pure h.output
    · exact .pure h.error
  · exact .throw

theorem setOutlet {wiring : Wiring} (h : L.Fits S (fm.withWiring wiring)) {fd : Nat} {outlet : Outlet}
    (houtlet : L.Accepts outlet) :
    L.Holds S (fun _ ↦ fm.check (wiring.setOutlet fd outlet)) fun wiring' ↦ L.Fits S (fm.withWiring wiring') := by
  refine .check fun wiring' hset ↦ ?_
  unfold Wiring.setOutlet at hset
  split at hset <;> cases hset
  · exact ⟨h.setting, houtlet, h.error⟩
  · exact ⟨h.setting, h.output, houtlet⟩

section Engine

variable (heng : L.Serves S eng) (hcall : L.Calls S eng)

include hcall

/-! ## Bodies -/

theorem runBody (hfm : L.Fits S fm) {word : Nat → Comp (List Value)} (h : L.Holds S word fun _ ↦ True) :
    L.Holds S (fun n ↦ (eng n).runBody fm (word n)) fun _ ↦ True :=
  .bind h fun _ _ ↦ .bind .single fun _ _ ↦ hcall hfm

theorem round (hfm : L.Fits S fm) {body : Value} : L.Holds S (fun n ↦ (eng n).round fm body) fun _ ↦ True :=
  .bind (.result (hcall hfm)) fun _ _ ↦ .ofExcept fun _ _ ↦ trivial

theorem rounds (hfm : L.Fits S fm) {c : CellId} {body : Value} {items : List Value} :
    L.Holds S (fun n ↦ (eng n).rounds fm c body items) fun _ ↦ True := by
  induction items with
  | nil => exact .pure trivial
  | cons item items ih =>
    refine .bind .checkInterrupt fun _ _ ↦ .bind (.done rfl rfl) fun _ _ ↦ .bind (.round hcall hfm) fun again _ ↦ ?_
    cases again with
    | false => exact .pure trivial
    | true => exact ih

/-! ## Forms with bodies -/

section Forms

variable {site : CallSite} {body : Expr} {otherwise : Option Expr}
  (hbody : L.Holds S (fun n ↦ body.eval (eng n) { fm with site := some site }) fun _ ↦ True)
  (hotherwise : L.Holds S (fun n ↦ ValueShell.runOptional (eng n) { fm with site := some site } otherwise)
    fun _ ↦ True)

include hbody hotherwise

theorem whileForm (hfm : L.Fits S fm) (hloops : L.dialect.loops = true) {cond : Expr}
    (hcond : L.Holds S (fun n ↦ cond.eval (eng n) { fm with site := some site }) fun _ ↦ True) :
    L.Holds S (fun n ↦ (Op.whileForm site cond body otherwise).exec (eng n) fm) fun _ ↦ True := by
  have hround {f : Value} : L.Holds S (fun n ↦ (eng n).round { fm with site := some site } f) fun _ ↦ True :=
    .round hcall (hfm.atSite site)
  simp only [Op.exec]
  refine .atSite hfm (.bind hbody fun _ _ ↦ .bind .single fun f _ ↦ ?_)
  refine .bind .checkInterrupt fun _ _ ↦ .bind hcond fun vs _ ↦ ?_
  split
  · refine .bind hround fun again _ ↦ ?_
    cases again with
    | false => exact .pure trivial
    | true =>
      refine L.repeatWhile _ hloops (.bind .checkInterrupt fun _ _ ↦ .bind hcond fun vs _ ↦ ?_)
      split
      · exact hround
      · exact .pure trivial
  · exact hotherwise

theorem forForm (hfm : L.Fits S fm) {var : String} {iterable : Expr}
    (hiterable : L.Holds S (fun n ↦ iterable.eval (eng n) { fm with site := some site }) fun _ ↦ True) :
    L.Holds S (fun n ↦ (Op.forForm site var iterable body otherwise).exec (eng n) fm) fun _ ↦ True := by
  simp only [Op.exec]
  refine .atSite hfm (.bind hiterable fun _ _ ↦ .bind .single fun v _ ↦ ?_)
  refine .bind .itemsOf fun items _ ↦ .bind .declare fun c _ ↦ .bind hbody fun _ _ ↦ ?_
  refine .bind .single fun f _ ↦ .bind (.rounds hcall (hfm.atSite site)) fun _ _ ↦ ?_
  split
  · exact hotherwise
  · exact .pure trivial

theorem tryForm (hfm : L.Fits S fm) {handler : Option (Option String × Expr)} {last : Option Expr}
    (hhandler : ∀ e, L.Holds S (fun n ↦ ValueShell.runHandler (eng n) { fm with site := some site } e handler)
      fun _ ↦ True)
    (hlast : ∀ e, last = some e → L.Holds S (fun n ↦ e.eval (eng n) { fm with site := some site }) fun _ ↦ True) :
    L.Holds S (fun n ↦ (Op.tryForm site body handler otherwise last).exec (eng n) fm) fun _ ↦ True := by
  have hfm' := hfm.atSite site
  -- the kernel cannot see that the equation of this case holds by computation alone
  conv =>
    enter [3, n]
    rw [Op.exec]
  have hrun := runBody hcall hfm' hbody
  refine .atSite hfm (.bind (.result (P := fun _ ↦ True) (.bind hrun.result fun o _ ↦ ?_)) fun o _ ↦ ?_)
  · split
    · exact hotherwise
    · exact hhandler _
    · exact .fail
  · cases last with
    | none => exact .ofExcept fun _ _ ↦ trivial
    | some e =>
      have hend := runBody hcall hfm' (hlast e rfl)
      exact .bind hend.result fun _ _ ↦ .ofExcept fun _ _ ↦ trivial

end Forms

include heng

set_option linter.unusedSectionVars false

/-! ## Words and operations -/

mutual

theorem eval {fm : Frame} (hfm : L.Fits S fm) : ∀ e : Expr, e.isIn L.dialect = true →
    L.Holds S (fun n ↦ e.eval (eng n) fm) fun _ ↦ True
  | .literal _, _ => by
    simp only [Expr.eval]
    exact .pure trivial
  | .variable name explode, _ => by
    simp only [Expr.eval]
    refine .bind .value fun v _ ↦ ?_
    cases explode with
    | false => exact .pure trivial
    | true =>
      cases v with
      | list items => exact .pure trivial
      | _ => exact .throw
  | .capture op, h => by
    rw [Expr.isIn] at h
    simp only [Expr.eval]
    exact .captured hfm fun inside hinside ↦ exec hinside op h
  | .list items, h => by
    rw [Expr.isIn] at h
    simp only [Expr.eval]
    exact .bind (evalAll hfm items h) fun _ _ ↦ .pure trivial
  | .map pairs, h => by
    rw [Expr.isIn] at h
    simp only [Expr.eval]
    exact .bind (evalPairs hfm pairs h) fun _ _ ↦ .pure trivial
  | .lambda l, h => by
    rw [Expr.isIn] at h
    simp only [Expr.eval]
    exact .bind (instantiate hfm l h) fun _ _ ↦ .pure trivial
  | .indexed head indices, h => by
    rw [Expr.isIn, Bool.and_eq_true] at h
    simp only [Expr.eval]
    exact .bind (eval hfm head h.1) fun vs _ ↦ evalIndices hfm indices vs h.2
  | .compound parts, h => by
    rw [Expr.isIn] at h
    simp only [Expr.eval]
    exact .bind (evalParts hfm parts [""] h) fun _ _ ↦ .pure trivial

theorem evalAll {fm : Frame} (hfm : L.Fits S fm) : ∀ es : List Expr, Expr.allIn L.dialect es = true →
    L.Holds S (fun n ↦ ValueShell.evalAll (eng n) fm es) fun _ ↦ True
  | [], _ => by
    simp only [ValueShell.evalAll]
    exact .pure trivial
  | e :: es, h => by
    rw [Expr.allIn, Bool.and_eq_true] at h
    simp only [ValueShell.evalAll]
    exact .bind (eval hfm e h.1) fun _ _ ↦ .bind (evalAll hfm es h.2) fun _ _ ↦ .pure trivial

theorem evalEach {fm : Frame} (hfm : L.Fits S fm) (what : String) : ∀ es : List Expr, Expr.allIn L.dialect es = true →
    L.Holds S (fun n ↦ ValueShell.evalEach (eng n) fm what es) fun _ ↦ True
  | [], _ => by
    simp only [ValueShell.evalEach]
    exact .pure trivial
  | e :: es, h => by
    rw [Expr.allIn, Bool.and_eq_true] at h
    simp only [ValueShell.evalEach]
    refine .bind (eval hfm e h.1) fun _ _ ↦ .bind .single fun _ _ ↦ ?_
    exact .bind (evalEach hfm what es h.2) fun _ _ ↦ .pure trivial

theorem evalPairs {fm : Frame} (hfm : L.Fits S fm) :
    ∀ pairs : List (Expr × Expr), Expr.pairsIn L.dialect pairs = true →
      L.Holds S (fun n ↦ ValueShell.evalPairs (eng n) fm pairs) fun _ ↦ True
  | [], _ => by
    simp only [ValueShell.evalPairs]
    exact .pure trivial
  | (k, v) :: pairs, h => by
    simp only [Expr.pairsIn, Bool.and_eq_true] at h
    simp only [ValueShell.evalPairs]
    refine .bind (eval hfm k h.1.1) fun _ _ ↦ .bind .single fun _ _ ↦ ?_
    refine .bind (eval hfm v h.1.2) fun _ _ ↦ .bind .single fun _ _ ↦ ?_
    exact .bind (evalPairs hfm pairs h.2) fun _ _ ↦ .pure trivial

theorem evalIndices {fm : Frame} (hfm : L.Fits S fm) : ∀ (indices : List (List Expr)) (vs : List Value),
    Expr.listsIn L.dialect indices = true →
      L.Holds S (fun n ↦ ValueShell.evalIndices (eng n) fm vs indices) fun _ ↦ True
  | [], _, _ => by
    simp only [ValueShell.evalIndices]
    exact .pure trivial
  | index :: indices, vs, h => by
    rw [Expr.listsIn, Bool.and_eq_true] at h
    simp only [ValueShell.evalIndices]
    refine .bind (evalAll hfm index h.1) fun keys _ ↦ .bind .indexAll fun elements _ ↦ ?_
    exact evalIndices hfm indices elements h.2

theorem evalParts {fm : Frame} (hfm : L.Fits S fm) : ∀ (parts : List Expr) (texts : List String),
    Expr.allIn L.dialect parts = true →
      L.Holds S (fun n ↦ ValueShell.evalParts (eng n) fm texts parts) fun _ ↦ True
  | [], _, _ => by
    simp only [ValueShell.evalParts]
    exact .pure trivial
  | part :: parts, texts, h => by
    rw [Expr.allIn, Bool.and_eq_true] at h
    simp only [ValueShell.evalParts]
    exact .bind (eval hfm part h.1) fun vs _ ↦ .bind .checked fun texts _ ↦ evalParts hfm parts texts h.2

theorem evalOptions {fm : Frame} (hfm : L.Fits S fm) :
    ∀ opts : List (String × Option Expr), Expr.optionsIn L.dialect opts = true →
      L.Holds S (fun n ↦ ValueShell.evalOptions (eng n) fm opts) fun _ ↦ True
  | [], _ => by
    simp only [ValueShell.evalOptions]
    exact .pure trivial
  | (name, none) :: opts, h => by
    rw [Expr.optionsIn] at h
    simp only [ValueShell.evalOptions]
    exact .bind (evalOptions hfm opts h) fun _ _ ↦ .pure trivial
  | (name, some e) :: opts, h => by
    rw [Expr.optionsIn, Bool.and_eq_true] at h
    simp only [ValueShell.evalOptions]
    refine .bind (eval hfm e h.1) fun _ _ ↦ .bind .single fun _ _ ↦ ?_
    exact .bind (evalOptions hfm opts h.2) fun _ _ ↦ .pure trivial

theorem evalDefaults {fm : Frame} (hfm : L.Fits S fm) :
    ∀ options : List (String × Expr), Expr.defaultsIn L.dialect options = true →
      L.Holds S (fun n ↦ ValueShell.evalDefaults (eng n) fm options) fun _ ↦ True
  | [], _ => by
    simp only [ValueShell.evalDefaults]
    exact .pure trivial
  | (name, e) :: options, h => by
    rw [Expr.defaultsIn, Bool.and_eq_true] at h
    simp only [ValueShell.evalDefaults]
    refine .bind (eval hfm e h.1) fun _ _ ↦ .bind .single fun _ _ ↦ ?_
    exact .bind (evalDefaults hfm options h.2) fun _ _ ↦ .pure trivial

theorem instantiate {fm : Frame} (hfm : L.Fits S fm) : ∀ l : LambdaDef, l.isIn L.dialect = true →
    L.Holds S (fun n ↦ l.instantiate (eng n) fm) fun _ ↦ True
  | .mk source params rest options restOptions body, h => by
    rw [LambdaDef.isIn, Bool.and_eq_true] at h
    simp only [LambdaDef.instantiate]
    exact .bind (evalDefaults hfm options h.1) fun _ _ ↦ .close h.2

theorem runOptional {fm : Frame} (hfm : L.Fits S fm) : ∀ e : Option Expr, Expr.bodyIn L.dialect e = true →
    L.Holds S (fun n ↦ ValueShell.runOptional (eng n) fm e) fun _ ↦ True
  | none, _ => by
    simp only [ValueShell.runOptional]
    exact .pure trivial
  | some e, h => by
    rw [Expr.bodyIn] at h
    simp only [ValueShell.runOptional]
    exact .runBody hcall hfm (eval hfm e h)

/-- Redirections lead only to outlets that are allowed. -/
theorem redirected {fm : Frame} (hfm : L.Fits S fm) : ∀ (redirs : List Redirect) {wiring : Wiring},
    Redirect.allIn L.dialect redirs = true → L.Fits S (fm.withWiring wiring) →
      L.Holds S (fun n ↦ ValueShell.redirected (eng n) fm wiring redirs) fun wiring' ↦
        L.Fits S (fm.withWiring wiring')
  | [], _, _, hwiring => by
    simp only [ValueShell.redirected]
    exact .pure hwiring
  | .dup fd source :: redirs, wiring, h, hwiring => by
    rw [Redirect.allIn] at h
    simp only [ValueShell.redirected]
    refine .bind (.outletOf hwiring) fun outlet houtlet ↦ ?_
    refine .bind (.setOutlet hwiring houtlet) fun wiring' hwiring' ↦ ?_
    exact redirected hfm redirs h hwiring'
  | .file fd path append :: redirs, wiring, h, hwiring => by
    rw [Redirect.allIn, Bool.and_eq_true] at h
    simp only [ValueShell.redirected]
    refine .bind (eval hfm path h.1) fun _ _ ↦ .bind .single fun _ _ ↦ .bind .openFile fun outlet houtlet ↦ ?_
    refine .bind (.setOutlet hwiring houtlet) fun wiring' hwiring' ↦ ?_
    exact redirected hfm redirs h.2 hwiring'

theorem head {fm : Frame} (hfm : L.Fits S fm) : ∀ h : Head, h.isIn L.dialect = true →
    L.Holds S (fun n ↦ h.eval (eng n) fm) fun _ ↦ True
  | .function var, _ => by
    simp only [Head.eval]
    exact .value
  | .external program, _ => by
    simp only [Head.eval]
    exact .pure trivial
  | .word e, h => by
    rw [Head.isIn] at h
    simp only [Head.eval]
    exact .bind (eval hfm e h) fun _ _ ↦ .single

theorem assignAll {fm : Frame} (hfm : L.Fits S fm) : ∀ (places : List Place) (vs : List Value),
    Place.allIn L.dialect places = true →
      L.Holds S (fun n ↦ ValueShell.assignAll (eng n) fm places vs) fun _ ↦ True
  | .mk name indices :: places, v :: vs, h => by
    simp only [Place.allIn, Place.isIn, Bool.and_eq_true] at h
    simp only [ValueShell.assignAll]
    refine .bind .cell fun c _ ↦ .bind (evalEach hfm "index" indices h.1) fun path _ ↦ ?_
    exact .bind .assign fun _ _ ↦ assignAll hfm places vs h.2
  | [], _, _ | _ :: _, [], _ => by
    simp only [ValueShell.assignAll]
    exact .pure trivial

theorem evalLogic {fm : Frame} (hfm : L.Fits S fm) (stopOn : Bool) : ∀ (es : List Expr) (last : Value),
    Expr.allIn L.dialect es = true →
      L.Holds S (fun n ↦ ValueShell.evalLogic (eng n) fm stopOn last es) fun _ ↦ True
  | [], _, _ => by
    simp only [ValueShell.evalLogic]
    exact .put hfm
  | e :: es, last, h => by
    rw [Expr.allIn, Bool.and_eq_true] at h
    simp only [ValueShell.evalLogic]
    refine .bind (eval hfm e h.1) fun vs _ ↦ ?_
    split
    · exact .put hfm
    · exact evalLogic hfm stopOn es _ h.2

theorem runBranches {fm : Frame} (hfm : L.Fits S fm) {otherwise : Nat → Comp Unit}
    (hotherwise : L.Holds S otherwise fun _ ↦ True) :
    ∀ branches : List (Expr × Expr), Expr.pairsIn L.dialect branches = true →
      L.Holds S (fun n ↦ ValueShell.runBranches (eng n) fm (otherwise n) branches) fun _ ↦ True
  | [], _ => by
    simp only [ValueShell.runBranches]
    exact hotherwise
  | (cond, body) :: branches, h => by
    simp only [Expr.pairsIn, Bool.and_eq_true] at h
    simp only [ValueShell.runBranches]
    refine .bind (eval hfm cond h.1.1) fun vs _ ↦ ?_
    split
    · exact .runBody hcall hfm (eval hfm body h.1.2)
    · exact runBranches hfm hotherwise branches h.2

theorem runHandler {fm : Frame} (hfm : L.Fits S fm) (e : Exception) :
    ∀ handler : Option (Option String × Expr), Expr.handlerIn L.dialect handler = true →
      L.Holds S (fun n ↦ ValueShell.runHandler (eng n) fm e handler) fun _ ↦ True
  | none, _ => by
    simp only [ValueShell.runHandler]
    exact .fail
  | some (none, body), h => by
    rw [Expr.handlerIn] at h
    simp only [ValueShell.runHandler]
    exact .runBody hcall hfm (eval hfm body h)
  | some (some name, body), h => by
    rw [Expr.handlerIn] at h
    simp only [ValueShell.runHandler]
    exact .bind (.discard .declare) fun _ _ ↦ .runBody hcall hfm (eval hfm body h)

/-- **What the logic is about holds of all code of its dialect** that is run in a frame of the setting. -/
theorem exec {fm : Frame} (hfm : L.Fits S fm) : ∀ op : Op, op.isIn L.dialect = true →
    L.Holds S (fun n ↦ op.exec (eng n) fm) fun _ ↦ True
  | .chunk ops, h => by
    rw [Op.isIn] at h
    simp only [Op.exec]
    exact .bind (.starting hfm) fun _ _ ↦ execChunk hfm ops h
  | .pipeline _ _, h => by
    rw [Op.isIn, L.sequential] at h
    cases h
  | .form site command args opts redirs, h => by
    simp only [Op.isIn, Bool.and_eq_true] at h
    obtain ⟨⟨⟨hcommand, hargs⟩, hopts⟩, hredirs⟩ := h
    have hfm' := hfm.atSite site
    simp only [Op.exec]
    refine .atSite hfm (.bind .checkInterrupt fun _ _ ↦ ?_)
    refine .bind (head hfm' command hcommand) fun _ _ ↦ .bind (evalAll hfm' args hargs) fun _ _ ↦ ?_
    refine .bind (evalOptions hfm' opts hopts) fun _ _ ↦ ?_
    exact .bind (redirected hfm' redirs hredirs hfm') fun wiring hwiring ↦ hcall hwiring
  | .var site targets rest none, _ => by
    have hfm' := hfm.atSite site
    simp only [Op.exec]
    exact .atSite hfm .declareAll
  | .var site targets rest (some values), h => by
    rw [Op.isIn] at h
    have hfm' := hfm.atSite site
    simp only [Op.exec]
    refine .atSite hfm (.bind (evalAll hfm' values h) fun _ _ ↦ ?_)
    exact .bind .checked fun _ _ ↦ .declareAll
  | .set site targets rest values, h => by
    rw [Op.isIn, Bool.and_eq_true] at h
    have hfm' := hfm.atSite site
    simp only [Op.exec]
    refine .atSite hfm (.bind (evalAll hfm' values h.2) fun _ _ ↦ ?_)
    exact .bind .checked fun vs _ ↦ assignAll hfm' targets vs h.1
  | .del site (.mk name []), _ => by
    have hfm' := hfm.atSite site
    simp only [Op.exec]
    refine .atSite hfm (.bind (.done rfl rfl) fun found _ ↦ ?_)
    cases found with
    | true => exact .pure trivial
    | false => exact .throw
  | .del site (.mk name (index :: indices)), h => by
    rw [Op.isIn, Place.isIn] at h
    have hfm' := hfm.atSite site
    simp only [Op.exec]
    refine .atSite hfm (.bind .cell fun c _ ↦ .bind (evalEach hfm' "index" (index :: indices) h) fun path _ ↦ ?_)
    refine .bind (.done rfl rfl) fun base _ ↦ .bind (.done rfl rfl) fun r _ ↦ ?_
    exact .bind .checked fun updated _ ↦ .done rfl rfl
  | .fn site var lambda, h => by
    rw [Op.isIn] at h
    have hfm' := hfm.atSite site
    simp only [Op.exec]
    refine .atSite hfm (.bind .declare fun c _ ↦ ?_)
    exact .bind (instantiate hfm' lambda h) fun f _ ↦ .done rfl rfl
  | .fnBody body, h => by
    rw [Op.isIn] at h
    simp only [Op.exec]
    refine .bind (.starting hfm) fun _ _ ↦ .bind (.result (exec hfm body h)) fun _ _ ↦ ?_
    exact .ofExcept fun _ _ ↦ trivial
  | .use site spec var, _ => by
    have hfm' := hfm.atSite site
    simp only [Op.exec]
    refine .atSite hfm (.bind (heng.use hfm') fun space _ ↦ ?_)
    exact .bind .declare fun _ _ ↦ .pure trivial
  | .ifForm site branches otherwise, h => by
    rw [Op.isIn, Bool.and_eq_true] at h
    have hfm' := hfm.atSite site
    simp only [Op.exec]
    exact .atSite hfm (runBranches hfm' (runOptional hfm' otherwise h.2) branches h.1)
  | .whileForm site cond body otherwise, h => by
    simp only [Op.isIn, Bool.and_eq_true] at h
    obtain ⟨⟨⟨hloops, hcond⟩, hbody⟩, hotherwise⟩ := h
    have hfm' := hfm.atSite site
    exact .whileForm hcall (eval hfm' body hbody) (runOptional hfm' otherwise hotherwise) hfm hloops
      (eval hfm' cond hcond)
  | .forForm site var iterable body otherwise, h => by
    simp only [Op.isIn, Bool.and_eq_true] at h
    obtain ⟨⟨hiterable, hbody⟩, hotherwise⟩ := h
    have hfm' := hfm.atSite site
    exact .forForm hcall (eval hfm' body hbody) (runOptional hfm' otherwise hotherwise) hfm
      (eval hfm' iterable hiterable)
  | .tryForm site body handler otherwise last, h => by
    simp only [Op.isIn, Bool.and_eq_true] at h
    obtain ⟨⟨⟨hbody, hhandler⟩, hotherwise⟩, hlast⟩ := h
    have hfm' := hfm.atSite site
    cases last with
    | none =>
      exact .tryForm hcall (eval hfm' body hbody) (runOptional hfm' otherwise hotherwise) hfm
        (fun e ↦ runHandler hfm' e handler hhandler) nofun
    | some last =>
      exact .tryForm hcall (eval hfm' body hbody) (runOptional hfm' otherwise hotherwise) hfm
        (fun e ↦ runHandler hfm' e handler hhandler) fun _ he ↦ Option.some.inj he ▸ eval hfm' last hlast
  | .logic site stopOn args, h => by
    rw [Op.isIn] at h
    have hfm' := hfm.atSite site
    simp only [Op.exec]
    exact .atSite hfm (evalLogic hfm' stopOn args _ h)

theorem execChunk {fm : Frame} (hfm : L.Fits S fm) : ∀ ops : List Op, Op.allIn L.dialect ops = true →
    L.Holds S (fun n ↦ ValueShell.execChunk (eng n) fm ops) fun _ ↦ True
  | [], _ => by
    simp only [ValueShell.execChunk]
    exact .pure trivial
  | op :: ops, h => by
    rw [Op.allIn, Bool.and_eq_true] at h
    simp only [ValueShell.execChunk]
    exact .bind .checkInterrupt fun _ _ ↦ .bind (exec hfm op h.1) fun _ _ ↦ execChunk hfm ops h.2

end

end Engine

end Holds

end Comp.Logic

end ValueShell
