import ValueShell.Proofs.Requests
import ValueShell.Proofs.Sources.Commands

/-!
# Running code runs it in its own source

Operations that are code of their frame's source run code in its own source (`Comp.Sourced.exec`), over the syntax of
operations as `Op.exec` and `Expr.eval` go over it.  It does not matter in which form this happens: each form makes
itself the one that is being run, and stands in the source of the frame because it is code of it.  Words are evaluated
inside forms only, so there the frame owns the form.

Captures, redirections and the stages of a pipeline run with other wiring, and nothing else about their frames
changes.  An engine with any number of steps runs code in its own source then (`engine_sourced`), and so does every
request that is made in a form of its frame's source (`Request.sourced`).
-/

set_option autoImplicit false

namespace ValueShell

theorem Frame.Owns.here {fm : Frame} {here : CallSite} (h : here.source = fm.source) :
    Frame.Owns { fm with site := some here } (some here) := by
  rintro _ ⟨⟩
  exact h

namespace Comp.Sourced

variable {site : Option CallSite} {fm : Frame} {eng : Engine}

/-! ## Pieces without recursion -/

/-- What has no site starts as code of any source. -/
theorem starting : (fm.starting none).Sourced site :=
  .note trivial fun _ ↦ le_rfl

theorem single {what : String} {vs : List Value} : (fm.single what vs).Sourced site := by
  unfold Frame.single
  split
  · exact .pure
  · exact .throw

theorem indexAll {keys vs : List Value} : (fm.indexAll keys vs).Sourced site := by
  induction vs with
  | nil => exact .pure
  | cons base bases ih =>
    have hfirst : (Comp.mapEach (fun key ↦ do fm.check (← Comp.act (.index base key))) keys).Sourced site :=
      .mapEach fun key ↦ .bind (.act trivial) fun _ ↦ .check
    exact .bind hfirst fun first ↦ .bind ih fun others ↦ .pure

theorem itemsOf {v : Value} : (fm.itemsOf v).Sourced site := by
  cases v with
  | list items => exact .pure
  | map entries => exact .pure
  | _ => exact .throw

theorem assign {c : CellId} {path : List Value} {v : Value} : (fm.assign c path v).Sourced site := by
  cases path with
  | nil => exact .act trivial
  | cons key keys =>
    refine .bind (.act trivial) fun base ↦ .bind (.act trivial) fun r ↦ ?_
    exact .bind .check fun updated ↦ .act trivial

theorem declareAll {targets : List (Option String)} {vs : List Value} :
    (fm.declareAll targets vs).Sourced site := by
  induction targets generalizing vs with
  | nil => exact .pure
  | cons target targets ih =>
    cases vs with
    | nil => cases target <;> exact .pure
    | cons v vs =>
      cases target with
      | none => exact ih
      | some name => exact .bind (.discard .declare) fun _ ↦ ih

theorem openFile {path : Value} {append : Bool} : (fm.openFile path append).Sourced site := by
  cases path with
  | str name =>
    refine .bind (.act trivial) fun r ↦ ?_
    cases r with
    | ok id => exact .pure
    | error fault => exact .throw
  | _ => exact .throw

theorem outletOf {wiring : Wiring} {fd : Nat} : (fm.outletOf wiring fd).Sourced site := by
  unfold Frame.outletOf
  split
  · exact .pure
  · exact .throw

theorem newPipes {capacity n : Nat} : (ValueShell.newPipes capacity n).Sourced site := by
  induction n with
  | zero => exact .pure
  | succ n ih => exact .bind (.act trivial) fun _ ↦ .bind ih fun _ ↦ .pure

/-- A stage begins a strand of its own. -/
theorem stage {reads writes : Option Pipe} {m : Comp Unit} (h : m.Sourced site) :
    (stageProgram reads writes m).Sourced (.start site) :=
  h _ _ rfl fun _ _ _ ↦ ⟨trivial, fun _ _ ↦ trivial⟩

section Engine

variable (heng : eng.Sourced)

include heng

/-! ## Bodies -/

theorem callBody (hfm : fm.Owns site) {body : Value} : (eng.callBody fm body).Sourced site :=
  heng.call hfm

theorem runBody (hfm : fm.Owns site) {word : Comp (List Value)} (h : word.Sourced site) :
    (eng.runBody fm word).Sourced site :=
  .bind h fun _ ↦ .bind .single fun _ ↦ callBody heng hfm

theorem round (hfm : fm.Owns site) {body : Value} : (eng.round fm body).Sourced site :=
  .bind (.result (callBody heng hfm)) fun _ ↦ .ofExcept

theorem rounds (hfm : fm.Owns site) {c : CellId} {body : Value} {items : List Value} :
    (eng.rounds fm c body items).Sourced site := by
  induction items with
  | nil => exact .pure
  | cons item items ih =>
    refine .bind .checkInterrupt fun _ ↦ .bind (.act trivial) fun _ ↦ .bind (round heng hfm) fun again ↦ ?_
    cases again with
    | false => exact .pure
    | true => exact ih

/-! ## Forms with bodies -/

section Bodies

variable {here : CallSite} {body : Expr} {otherwise : Option Expr} (hhere : here.source = fm.source)
  (hbody : (body.eval eng { fm with site := some here }).Sourced (some here))
  (hotherwise : (ValueShell.runOptional eng { fm with site := some here } otherwise).Sourced (some here))

include hhere hbody hotherwise

theorem whileForm {cond : Expr} (hcond : (cond.eval eng { fm with site := some here }).Sourced (some here)) :
    ((Op.whileForm here cond body otherwise).exec eng fm).Sourced site := by
  have hround {f : Value} : (eng.round { fm with site := some here } f).Sourced (some here) :=
    round heng (.here hhere)
  simp only [Op.exec]
  refine .atSite hhere (.bind hbody fun _ ↦ .bind .single fun f ↦ ?_)
  refine .bind .checkInterrupt fun _ ↦ .bind hcond fun vs ↦ ?_
  split
  · refine .bind hround fun again ↦ ?_
    cases again with
    | false => exact .pure
    | true =>
      refine .repeatWhile (.bind .checkInterrupt fun _ ↦ .bind hcond fun vs ↦ ?_) _
      split
      · exact hround
      · exact .pure
  · exact hotherwise

theorem forForm {var : String} {iterable : Expr}
    (hiterable : (iterable.eval eng { fm with site := some here }).Sourced (some here)) :
    ((Op.forForm here var iterable body otherwise).exec eng fm).Sourced site := by
  simp only [Op.exec]
  refine .atSite hhere (.bind hiterable fun _ ↦ .bind .single fun v ↦ ?_)
  refine .bind .itemsOf fun items ↦ .bind .declare fun c ↦ .bind hbody fun _ ↦ ?_
  refine .bind .single fun f ↦ .bind (rounds heng (.here hhere)) fun _ ↦ ?_
  split
  · exact hotherwise
  · exact .pure

theorem tryForm {handler : Option (Option String × Expr)} {last : Option Expr}
    (hhandler : ∀ e, (ValueShell.runHandler eng { fm with site := some here } e handler).Sourced (some here))
    (hlast : ∀ e, last = some e → (e.eval eng { fm with site := some here }).Sourced (some here)) :
    ((Op.tryForm here body handler otherwise last).exec eng fm).Sourced site := by
  have hfm := Frame.Owns.here hhere
  -- the kernel cannot see that the equation of this case holds by computation alone
  rw [Op.exec]
  refine .atSite hhere (.bind (.result (.bind (.result (runBody heng hfm hbody)) fun o ↦ ?_)) fun o ↦ ?_)
  · split
    · exact hotherwise
    · exact hhandler _
    · exact .fail
  · cases last with
    | none => exact .ofExcept
    | some e => exact .bind (.result (runBody heng hfm (hlast e rfl))) fun _ ↦ .ofExcept

end Bodies

set_option linter.unusedSectionVars false

/-! ## Words and operations -/

mutual

theorem eval {fm : Frame} {site : Option CallSite} (hfm : fm.Owns site) : ∀ e : Expr, e.WidensTo fm.source e →
    (e.eval eng fm).Sourced site
  | .literal _, _ => by
    simp only [Expr.eval]
    exact .pure
  | .variable name explode, _ => by
    simp only [Expr.eval]
    refine .bind .value fun v ↦ ?_
    cases explode with
    | false => exact .pure
    | true =>
      cases v with
      | list items => exact .pure
      | _ => exact .throw
  | .capture op, he => by
    simp only [Expr.eval]
    refine .captured fun wiring ↦ ?_
    have hwired : op.IsOf (fm.withWiring wiring).source := by rwa [Expr.WidensTo] at he
    exact exec op hwired
  | .list items, he => by
    simp only [Expr.WidensTo] at he
    simp only [Expr.eval]
    exact .bind (evalAll hfm items he) fun _ ↦ .pure
  | .map pairs, he => by
    simp only [Expr.WidensTo] at he
    simp only [Expr.eval]
    exact .bind (evalPairs hfm pairs he) fun _ ↦ .pure
  | .lambda l, he => by
    simp only [Expr.WidensTo] at he
    simp only [Expr.eval]
    exact .bind (instantiate hfm l he) fun _ ↦ .pure
  | .indexed head indices, he => by
    simp only [Expr.WidensTo] at he
    simp only [Expr.eval]
    exact .bind (eval hfm head he.1) fun vs ↦ evalIndices hfm indices he.2 vs
  | .compound parts, he => by
    simp only [Expr.WidensTo] at he
    simp only [Expr.eval]
    exact .bind (evalParts hfm parts he [""]) fun _ ↦ .pure

theorem evalAll {fm : Frame} {site : Option CallSite} (hfm : fm.Owns site) : ∀ es : List Expr,
    Expr.AllWiden fm.source es es → (ValueShell.evalAll eng fm es).Sourced site
  | [], _ => by
    simp only [ValueShell.evalAll]
    exact .pure
  | e :: es, he => by
    simp only [Expr.AllWiden] at he
    simp only [ValueShell.evalAll]
    exact .bind (eval hfm e he.1) fun _ ↦ .bind (evalAll hfm es he.2) fun _ ↦ .pure

theorem evalEach {fm : Frame} {site : Option CallSite} (hfm : fm.Owns site) (what : String) : ∀ es : List Expr,
    Expr.AllWiden fm.source es es → (ValueShell.evalEach eng fm what es).Sourced site
  | [], _ => by
    simp only [ValueShell.evalEach]
    exact .pure
  | e :: es, he => by
    simp only [Expr.AllWiden] at he
    simp only [ValueShell.evalEach]
    refine .bind (eval hfm e he.1) fun _ ↦ .bind .single fun _ ↦ ?_
    exact .bind (evalEach hfm what es he.2) fun _ ↦ .pure

theorem evalPairs {fm : Frame} {site : Option CallSite} (hfm : fm.Owns site) : ∀ pairs : List (Expr × Expr),
    Expr.PairsWiden fm.source pairs pairs → (ValueShell.evalPairs eng fm pairs).Sourced site
  | [], _ => by
    simp only [ValueShell.evalPairs]
    exact .pure
  | (k, v) :: pairs, he => by
    simp only [Expr.PairsWiden] at he
    simp only [ValueShell.evalPairs]
    refine .bind (eval hfm k he.1.1) fun _ ↦ .bind .single fun _ ↦ ?_
    refine .bind (eval hfm v he.1.2) fun _ ↦ .bind .single fun _ ↦ ?_
    exact .bind (evalPairs hfm pairs he.2) fun _ ↦ .pure

theorem evalIndices {fm : Frame} {site : Option CallSite} (hfm : fm.Owns site) : ∀ indices : List (List Expr),
    Expr.ListsWiden fm.source indices indices → ∀ vs, (ValueShell.evalIndices eng fm vs indices).Sourced site
  | [], _, _ => by
    simp only [ValueShell.evalIndices]
    exact .pure
  | index :: indices, he, vs => by
    simp only [Expr.ListsWiden] at he
    simp only [ValueShell.evalIndices]
    refine .bind (evalAll hfm index he.1) fun keys ↦ .bind .indexAll fun elements ↦ ?_
    exact evalIndices hfm indices he.2 elements

theorem evalParts {fm : Frame} {site : Option CallSite} (hfm : fm.Owns site) : ∀ parts : List Expr,
    Expr.AllWiden fm.source parts parts → ∀ texts, (ValueShell.evalParts eng fm texts parts).Sourced site
  | [], _, _ => by
    simp only [ValueShell.evalParts]
    exact .pure
  | part :: parts, he, texts => by
    simp only [Expr.AllWiden] at he
    simp only [ValueShell.evalParts]
    exact .bind (eval hfm part he.1) fun vs ↦ .bind .check fun texts ↦ evalParts hfm parts he.2 texts

theorem evalOptions {fm : Frame} {site : Option CallSite} (hfm : fm.Owns site) :
    ∀ opts : List (String × Option Expr), Expr.OptionsWiden fm.source opts opts →
      (ValueShell.evalOptions eng fm opts).Sourced site
  | [], _ => by
    simp only [ValueShell.evalOptions]
    exact .pure
  | (name, none) :: opts, he => by
    simp only [Expr.OptionsWiden] at he
    simp only [ValueShell.evalOptions]
    exact .bind (evalOptions hfm opts he.2) fun _ ↦ .pure
  | (name, some e) :: opts, he => by
    simp only [Expr.OptionsWiden] at he
    simp only [ValueShell.evalOptions]
    refine .bind (eval hfm e he.1.2) fun _ ↦ .bind .single fun _ ↦ ?_
    exact .bind (evalOptions hfm opts he.2) fun _ ↦ .pure

theorem evalDefaults {fm : Frame} {site : Option CallSite} (hfm : fm.Owns site) :
    ∀ options : List (String × Expr), Expr.DefaultsWiden fm.source options options →
      (ValueShell.evalDefaults eng fm options).Sourced site
  | [], _ => by
    simp only [ValueShell.evalDefaults]
    exact .pure
  | (name, e) :: options, he => by
    simp only [Expr.DefaultsWiden] at he
    simp only [ValueShell.evalDefaults]
    refine .bind (eval hfm e he.1.2) fun _ ↦ .bind .single fun _ ↦ ?_
    exact .bind (evalDefaults hfm options he.2) fun _ ↦ .pure

/-- The closure of a lambda is given the source that the lambda names. -/
theorem instantiate {fm : Frame} {site : Option CallSite} (hfm : fm.Owns site) : ∀ l : LambdaDef,
    l.WidensTo fm.source l → (l.instantiate eng fm).Sourced site
  | .mk source params rest options restOptions body, hl => by
    simp only [LambdaDef.WidensTo] at hl
    obtain ⟨⟨rfl, -⟩, -, -, hoptions, -, hbody⟩ := hl
    simp only [LambdaDef.instantiate]
    exact .bind (evalDefaults hfm options hoptions) fun _ ↦ .close hbody

theorem runOptional {fm : Frame} {site : Option CallSite} (hfm : fm.Owns site) : ∀ e : Option Expr,
    Expr.BodyWidens fm.source e e → (ValueShell.runOptional eng fm e).Sourced site
  | none, _ => by
    simp only [ValueShell.runOptional]
    exact .pure
  | some e, he => by
    simp only [Expr.BodyWidens] at he
    simp only [ValueShell.runOptional]
    exact runBody heng hfm (eval hfm e he)

theorem redirected {fm : Frame} {site : Option CallSite} (hfm : fm.Owns site) : ∀ redirs : List Redirect,
    Redirect.AllWiden fm.source redirs redirs → ∀ wiring, (ValueShell.redirected eng fm wiring redirs).Sourced site
  | [], _, _ => by
    simp only [ValueShell.redirected]
    exact .pure
  | .dup fd source :: redirs, hr, wiring => by
    simp only [Redirect.AllWiden] at hr
    simp only [ValueShell.redirected]
    exact .bind .outletOf fun outlet ↦ .bind .check fun wiring ↦ redirected hfm redirs hr.2.2 wiring
  | .file fd path append :: redirs, hr, wiring => by
    simp only [Redirect.AllWiden] at hr
    simp only [ValueShell.redirected]
    refine .bind (eval hfm path hr.2.1) fun _ ↦ .bind .single fun _ ↦ .bind .openFile fun outlet ↦ ?_
    exact .bind .check fun wiring ↦ redirected hfm redirs hr.2.2.2 wiring

theorem head {fm : Frame} {site : Option CallSite} (hfm : fm.Owns site) : ∀ h : Head, h.WidensTo fm.source h →
    (h.eval eng fm).Sourced site
  | .function var, _ => by
    simp only [Head.eval]
    exact .value
  | .external program, _ => by
    simp only [Head.eval]
    exact .pure
  | .word e, he => by
    simp only [Head.WidensTo] at he
    simp only [Head.eval]
    exact .bind (eval hfm e he) fun _ ↦ .single

theorem assignAll {fm : Frame} {site : Option CallSite} (hfm : fm.Owns site) : ∀ places : List Place,
    Place.AllWiden fm.source places places → ∀ vs, (ValueShell.assignAll eng fm places vs).Sourced site
  | .mk name indices :: places, hp, v :: vs => by
    simp only [Place.AllWiden, Place.WidensTo] at hp
    simp only [ValueShell.assignAll]
    refine .bind .cell fun c ↦ .bind (evalEach hfm "index" indices hp.1.2) fun path ↦ ?_
    exact .bind .assign fun _ ↦ assignAll hfm places hp.2 vs
  | [], _, _ | _ :: _, _, [] => by
    simp only [ValueShell.assignAll]
    exact .pure

theorem evalLogic {fm : Frame} {site : Option CallSite} (hfm : fm.Owns site) (stopOn : Bool) : ∀ es : List Expr,
    Expr.AllWiden fm.source es es → ∀ last, (ValueShell.evalLogic eng fm stopOn last es).Sourced site
  | [], _, _ => by
    simp only [ValueShell.evalLogic]
    exact .put
  | e :: es, he, last => by
    simp only [Expr.AllWiden] at he
    simp only [ValueShell.evalLogic]
    refine .bind (eval hfm e he.1) fun vs ↦ ?_
    split
    · exact .put
    · exact evalLogic hfm stopOn es he.2 _

theorem runBranches {fm : Frame} {site : Option CallSite} (hfm : fm.Owns site) {otherwise : Comp Unit}
    (hotherwise : otherwise.Sourced site) : ∀ branches : List (Expr × Expr),
    Expr.PairsWiden fm.source branches branches → (ValueShell.runBranches eng fm otherwise branches).Sourced site
  | [], _ => by
    simp only [ValueShell.runBranches]
    exact hotherwise
  | (cond, body) :: branches, he => by
    simp only [Expr.PairsWiden] at he
    simp only [ValueShell.runBranches]
    refine .bind (eval hfm cond he.1.1) fun vs ↦ ?_
    split
    · exact runBody heng hfm (eval hfm body he.1.2)
    · exact runBranches hfm hotherwise branches he.2

theorem runHandler {fm : Frame} {site : Option CallSite} (hfm : fm.Owns site) (e : Exception) :
    ∀ handler : Option (Option String × Expr), Expr.HandlerWidens fm.source handler handler →
      (ValueShell.runHandler eng fm e handler).Sourced site
  | none, _ => by
    simp only [ValueShell.runHandler]
    exact .fail
  | some (none, body), he => by
    simp only [Expr.HandlerWidens] at he
    simp only [ValueShell.runHandler]
    exact runBody heng hfm (eval hfm body he.2)
  | some (some name, body), he => by
    simp only [Expr.HandlerWidens] at he
    simp only [ValueShell.runHandler]
    exact .bind (.discard .declare) fun _ ↦ runBody heng hfm (eval hfm body he.2)

/-- **Running code of the frame's source runs code in its own source**, in whatever form this happens. -/
theorem exec {fm : Frame} {site : Option CallSite} : ∀ op : Op, op.IsOf fm.source → (op.exec eng fm).Sourced site
  | .chunk ops, h => by
    simp only [Op.IsOf, Op.WidensTo] at h
    simp only [Op.exec]
    exact .bind .starting fun _ ↦ execChunk ops h
  | .pipeline here stages, h => by
    simp only [Op.IsOf, Op.WidensTo] at h
    simp only [Op.exec]
    refine .atSite h.1.1 (.bind .newPipes fun pipes ↦ .bind (.fork fun p hp ↦ ?_) fun os ↦ .ofExcept)
    have hstages : Op.AllWiden { fm with site := some here }.source stages stages := h.2
    exact execStages stages hstages none pipes p hp
  | .form here command args opts redirs, h => by
    simp only [Op.IsOf, Op.WidensTo] at h
    obtain ⟨⟨hhere, -⟩, hcommand, hargs, hopts, hredirs⟩ := h
    have hfm := Frame.Owns.here hhere
    simp only [Op.exec]
    refine .atSite hhere (.bind .checkInterrupt fun _ ↦ .bind (head hfm command hcommand) fun _ ↦ ?_)
    refine .bind (evalAll hfm args hargs) fun _ ↦ .bind (evalOptions hfm opts hopts) fun _ ↦ ?_
    exact .bind (redirected hfm redirs hredirs _) fun wiring ↦ heng.call hfm
  | .var here targets rest none, h => by
    simp only [Op.IsOf, Op.WidensTo] at h
    simp only [Op.exec]
    exact .atSite h.1.1 .declareAll
  | .var here targets rest (some values), h => by
    simp only [Op.IsOf, Op.WidensTo, Expr.ValuesWiden] at h
    obtain ⟨⟨hhere, -⟩, -, -, hvalues⟩ := h
    simp only [Op.exec]
    refine .atSite hhere (.bind (evalAll (.here hhere) values hvalues) fun _ ↦ ?_)
    exact .bind .check fun _ ↦ .declareAll
  | .set here targets rest values, h => by
    simp only [Op.IsOf, Op.WidensTo] at h
    obtain ⟨⟨hhere, -⟩, htargets, -, hvalues⟩ := h
    simp only [Op.exec]
    refine .atSite hhere (.bind (evalAll (.here hhere) values hvalues) fun _ ↦ ?_)
    exact .bind .check fun vs ↦ assignAll (.here hhere) targets htargets vs
  | .del here (.mk name []), h => by
    simp only [Op.IsOf, Op.WidensTo] at h
    simp only [Op.exec]
    refine .atSite h.1.1 (.bind (.act trivial) fun found ↦ ?_)
    cases found with
    | true => exact .pure
    | false => exact .throw
  | .del here (.mk name (index :: indices)), h => by
    simp only [Op.IsOf, Op.WidensTo, Place.WidensTo] at h
    obtain ⟨⟨hhere, -⟩, -, hindices⟩ := h
    simp only [Op.exec]
    refine .atSite hhere (.bind .cell fun c ↦ ?_)
    refine .bind (evalEach (.here hhere) "index" (index :: indices) hindices) fun path ↦ ?_
    refine .bind (.act trivial) fun base ↦ .bind (.act trivial) fun r ↦ ?_
    exact .bind .check fun updated ↦ .act trivial
  | .fn here var lambda, h => by
    simp only [Op.IsOf, Op.WidensTo] at h
    obtain ⟨⟨hhere, -⟩, -, hlambda⟩ := h
    simp only [Op.exec]
    refine .atSite hhere (.bind .declare fun c ↦ ?_)
    exact .bind (instantiate (.here hhere) lambda hlambda) fun f ↦ .act trivial
  | .fnBody body, h => by
    simp only [Op.IsOf, Op.WidensTo] at h
    simp only [Op.exec]
    exact .bind .starting fun _ ↦ .bind (.result (exec body h)) fun _ ↦ .ofExcept
  | .use here spec var, h => by
    simp only [Op.IsOf, Op.WidensTo] at h
    simp only [Op.exec]
    refine .atSite h.1.1 (.bind (.useModule heng (.here h.1.1)) fun space ↦ ?_)
    exact .discard .declare
  | .ifForm here branches otherwise, h => by
    simp only [Op.IsOf, Op.WidensTo] at h
    obtain ⟨⟨hhere, -⟩, hbranches, hotherwise⟩ := h
    have hfm := Frame.Owns.here hhere
    simp only [Op.exec]
    exact .atSite hhere (runBranches hfm (runOptional hfm otherwise hotherwise) branches hbranches)
  | .whileForm here cond body otherwise, h => by
    simp only [Op.IsOf, Op.WidensTo] at h
    obtain ⟨⟨hhere, -⟩, hcond, hbody, hotherwise⟩ := h
    have hfm := Frame.Owns.here hhere
    exact whileForm heng hhere (eval hfm body hbody) (runOptional hfm otherwise hotherwise) (eval hfm cond hcond)
  | .forForm here var iterable body otherwise, h => by
    simp only [Op.IsOf, Op.WidensTo] at h
    obtain ⟨⟨hhere, -⟩, -, hiterable, hbody, hotherwise⟩ := h
    have hfm := Frame.Owns.here hhere
    exact forForm heng hhere (eval hfm body hbody) (runOptional hfm otherwise hotherwise)
      (eval hfm iterable hiterable)
  | .tryForm here body handler otherwise none, h => by
    simp only [Op.IsOf, Op.WidensTo] at h
    obtain ⟨⟨hhere, -⟩, hbody, hhandler, hotherwise, -⟩ := h
    have hfm := Frame.Owns.here hhere
    exact tryForm heng hhere (eval hfm body hbody) (runOptional hfm otherwise hotherwise)
      (fun e ↦ runHandler hfm e handler hhandler) nofun
  | .tryForm here body handler otherwise (some last), h => by
    simp only [Op.IsOf, Op.WidensTo, Expr.BodyWidens] at h
    obtain ⟨⟨hhere, -⟩, hbody, hhandler, hotherwise, hlast⟩ := h
    have hfm := Frame.Owns.here hhere
    exact tryForm heng hhere (eval hfm body hbody) (runOptional hfm otherwise hotherwise)
      (fun e ↦ runHandler hfm e handler hhandler) fun _ he ↦ Option.some.inj he ▸ eval hfm last hlast
  | .logic here stopOn args, h => by
    simp only [Op.IsOf, Op.WidensTo] at h
    simp only [Op.exec]
    exact .atSite h.1.1 (evalLogic (.here h.1.1) stopOn args h.2.2 _)

theorem execChunk {fm : Frame} {site : Option CallSite} : ∀ ops : List Op, Op.AllWiden fm.source ops ops →
    (ValueShell.execChunk eng fm ops).Sourced site
  | [], _ => by
    simp only [ValueShell.execChunk]
    exact .pure
  | op :: ops, h => by
    simp only [Op.AllWiden] at h
    simp only [ValueShell.execChunk]
    exact .bind .checkInterrupt fun _ ↦ .bind (exec op h.1) fun _ ↦ execChunk ops h.2

theorem execStages {fm : Frame} {site : Option CallSite} : ∀ ops : List Op, Op.AllWiden fm.source ops ops →
    ∀ (reads : Option Pipe) (pipes : List Pipe), ∀ p ∈ ValueShell.execStages eng fm reads pipes ops,
      p.Sourced (.start site)
  | [], _, _, _ => by
    simp [ValueShell.execStages]
  | op :: ops, h, reads, pipes => by
    simp only [Op.AllWiden] at h
    simp only [ValueShell.execStages]
    have hbetween : op.IsOf (fm.between reads pipes.head?).source := h.1
    exact List.forall_mem_cons.2 ⟨stage (exec op hbetween), execStages ops h.2 _ _⟩

end

end Engine

end Comp.Sourced

/-! ## Engines and requests -/

/-- **Engines run code in its own source**, with any number of steps. -/
theorem engine_sourced : ∀ n : Nat, (engine n).Sourced
  | 0 => ⟨fun _ ↦ .spent, fun _ ↦ .spent⟩
  | n + 1 => ⟨fun h ↦ .exec (engine_sourced n) _ h, fun hfm ↦ .callValue (engine_sourced n) hfm⟩

namespace Request

theorem topLevel_sourced (n : Nat) (config : Config) (global : NsId) (source : Source) (wiring : Wiring)
    (site : Option CallSite) : ((engine n).topLevel config global source wiring).Sourced site :=
  .compileFor_bind fun _ hop ↦ .runChunk (engine_sourced n) hop

theorem run_sourced (n : Nat) : ∀ r : Request, r.frame.Owns r.frame.site →
    (r.run (engine n)).Sourced r.frame.site
  | .source .., _ => topLevel_sourced n _ _ _ _ _
  | .text .., _ => .bind (.act trivial) fun _ ↦ topLevel_sourced n _ _ _ _ _
  | .file .., _ => by
    refine .bind (.act trivial) fun text ↦ ?_
    cases text with
    | error fault => exact .raise
    | ok code => exact .bind (.act trivial) fun _ ↦ topLevel_sourced n _ _ _ _ _
  | .call .., hr => (engine_sourced n).call hr
  | .use .., hr => .discard (.useModule (engine_sourced n) hr)

/-- **Every request runs code in its own source**, if the form in which it is made stands in the source of its frame. -/
theorem sourced (r : Request) (hr : r.frame.Owns r.frame.site) (n : Nat) :
    (r.program n).Sourced (.start r.frame.site) :=
  (r.run_sourced n hr).program

end Request

end ValueShell
