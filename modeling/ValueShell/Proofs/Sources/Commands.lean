import ValueShell.Eval
import ValueShell.Proofs.Sources

/-!
# Commands run code in its own source

One lemma for each operation of frames, for the builtin commands and for calls.  Each says that the operation runs
code in its own source while the form at a site is being run (`Comp.Sourced`).

Most do so in any frame.  Only what looks for modules asks that the form stands in the source of the frame
(`Frame.Owns`), and with it whatever may come to `use-mod`.  An engine has to run code of the frame's source, in
whatever form this happens, and to call values in frames that own the form (`Engine.Sourced`).

Other code is entered at three places: where a closure is called, where text is evaluated and where a module is
loaded.  What is entered is code of the source that the new frame is given (`callClosure`, `evalText`,
`loadModule`).
-/

set_option autoImplicit false

namespace ValueShell

/-- If the form at the site is being run, then it stands in the source of the frame. -/
def Frame.Owns (fm : Frame) (site : Option CallSite) : Prop :=
  ∀ here, site = some here → here.source = fm.source

/-- Running code of the frame's source and calling values runs code in its own source. -/
structure Engine.Sourced (eng : Engine) : Prop where
  run : ∀ {op : Op} {fm : Frame} {site : Option CallSite}, op.IsOf fm.source → (eng.run op fm).Sourced site
  call : ∀ {fm : Frame} {f : Value} {args : List Value} {opts : Options} {site : Option CallSite}, fm.Owns site →
    (eng.call fm f args opts).Sourced site

namespace Comp.Sourced

variable {α : Type} {site : Option CallSite} {fm : Frame} {eng : Engine}

/-! ## Failures -/

theorem raise {reason : Reason} : (Comp.throw reason : Comp α).Sourced site :=
  .bind (.note trivial fun s ↦ s.le_add _) fun _ ↦ .fail

theorem throw {reason : Reason} : (fm.throw reason : Comp α).Sourced site :=
  .bind (.note trivial fun s ↦ s.le_add _) fun _ ↦ .fail

theorem check {r : Except Reason α} : (fm.check r).Sourced site := by
  cases r with
  | ok a => exact .pure
  | error reason => exact .throw

theorem checkInterrupt : fm.checkInterrupt.Sourced site := by
  refine .bind (.act trivial) fun flag ↦ ?_
  cases flag with
  | false => exact .pure
  | true => exact .throw

/-! ## Variables -/

theorem find? {name : String} : (fm.find? name).Sourced site :=
  .act trivial

theorem declare {name : String} {v : Value} : (fm.declare name v).Sourced site :=
  .act trivial

theorem cell {name : String} : (fm.cell name).Sourced site := by
  refine .bind .find? fun c ↦ ?_
  cases c with
  | some c => exact .pure
  | none => exact .throw

theorem value {name : String} : (fm.value name).Sourced site := by
  have hvalue : (fm.value? name).Sourced site := by
    refine .bind .find? fun c ↦ ?_
    cases c with
    | some c => exact .bind (.act trivial) fun _ ↦ .pure
    | none => exact .pure
  refine .bind hvalue fun v ↦ ?_
  cases v with
  | some v => exact .pure
  | none => exact .throw

/-- A closure is made of code of the source it is given. -/
theorem close {signature : Signature} {body : Op} {source : Source} (h : body.IsOf source) :
    (fm.close signature body source).Sourced site :=
  .bind (.act h) fun _ ↦ .pure

theorem derivedSpace : fm.derivedSpace.Sourced site :=
  .bind (.bind (.act trivial) fun _ ↦ .pure) fun _ ↦ .act trivial

/-- What follows gets a frame for the source. -/
theorem enter_bind {space : NsId} {outer : List Bindings} {source : Source} {g : Frame → Comp α}
    (h : ∀ inside : Frame, inside.source = source → (g inside).Sourced site) :
    (fm.enter space outer source >>= g).Sourced site := by
  intro s k hs hk
  unfold Frame.enter
  split
  next inside hinside =>
    rw [Frame.inner] at hinside
    split at hinside <;> cases hinside
    exact h _ rfl s k hs hk
  next => exact ⟨trivial, hk _ (s.le_add _) _⟩

theorem captured {f : Frame → Comp Unit} (h : ∀ wiring, (f (fm.withWiring wiring)).Sourced site) :
    (fm.captured f).Sourced site :=
  .bind (.act trivial) fun _ ↦ .bind (h _) fun _ ↦ .act trivial

/-! ## Input and output -/

theorem put {v : Value} : (fm.put v).Sourced site :=
  .bind (.act trivial) fun _ ↦ .check

theorem putAll {vs : List Value} : (fm.putAll vs).Sourced site :=
  .forEach fun _ ↦ .put

theorem write {text : String} : (fm.write text).Sourced site :=
  .bind (.act trivial) fun _ ↦ .check

theorem writeError {text : String} : (fm.writeError text).Sourced site :=
  .bind (.act trivial) fun _ ↦ .check

theorem warn {message : String} : (fm.warn message).Sourced site := by
  unfold Frame.warn
  split
  · refine .bind (.act trivial) fun first ↦ ?_
    cases first with
    | true => exact .writeError
    | false => exact .pure
  · exact .writeError

theorem iterate {f : Value → Comp Unit} {line n : Nat} {p : Inlet.Progress} (h : ∀ v, (f v).Sourced site) :
    (Inlet.iterate line f n p).Sourced site := by
  induction n generalizing p with
  | zero => exact .spent
  | succ n ih =>
    rw [Inlet.iterate]
    split
    · exact .forEach fun _ ↦ h _
    · refine .bind (.act trivial) fun e ↦ ?_
      cases e with
      | interrupted => exact .raise
      | _ => exact .bind (.forEach h) fun _ ↦ ih

theorem iterateInput {f : Value → Comp Unit} {n : Nat} (h : ∀ v, (f v).Sourced site) :
    (fm.iterateInput n f).Sourced site :=
  .bind (.act trivial) fun _ ↦ .mapFailure (.iterate h)

/-! ## Code of sources -/

/-- What follows gets code of the source. -/
theorem compileFor_bind {source : Source} {space : NsId} {g : Op → Comp α}
    (h : ∀ op : Op, op.IsOf source → (g op).Sourced site) :
    (Engine.compileFor source space >>= g).Sourced site := by
  intro s k hs hk
  refine ⟨trivial, fun scope _ ↦ ?_⟩
  dsimp only [Comp.ofExcept]
  cases hop : compile source scope with
  | ok op => exact h op (compile_isOf hop) s k hs hk
  | error f => exact hk s le_rfl _

theorem settle {o : Outcome} : (fm.settle o).Sourced site := by
  unfold Frame.settle
  split
  · exact .pure
  · exact .throw
  · exact .ofExcept

theorem runChunk (heng : eng.Sourced) {op : Op} (h : op.IsOf fm.source) : (eng.runChunk op fm).Sourced site :=
  .bind (.result (heng.run h)) fun _ ↦ .settle

theorem loadModule (heng : eng.Sourced) {path : FilePath} : (eng.loadModule fm path).Sourced site := by
  refine .bind (.act trivial) fun text ↦ ?_
  cases text with
  | error fault => exact .throw
  | ok code =>
    refine .bind (.act trivial) fun source ↦ .bind (.act trivial) fun space ↦ ?_
    refine .compileFor_bind fun op hop ↦ .enter_bind fun inside hinside ↦ ?_
    have hinside' : op.IsOf (inside.loadingModule path).source := hinside ▸ hop
    exact .bind (.runChunk heng hinside') fun _ ↦ .pure

theorem loadClaimed (heng : eng.Sourced) {path : FilePath} : (eng.loadClaimed fm path).Sourced site := by
  refine .bind (.result (.loadModule heng)) fun r ↦ ?_
  cases r with
  | ok space => exact .bind (.act trivial) fun _ ↦ .pure
  | error f => exact .bind (.act trivial) fun _ ↦ .fail

theorem useFile (heng : eng.Sourced) {spec : String} {path : FilePath} : (eng.useFile fm spec path).Sourced site := by
  unfold Engine.useFile
  split
  · exact .throw
  · refine .bind (.act trivial) fun told ↦ ?_
    cases told with
    | ready space => exact .pure
    | load => exact .loadClaimed heng
    | wait waiter =>
      refine .bind (.act trivial) fun told ↦ ?_
      cases told with
      | ready space => exact .pure
      | load => exact .loadClaimed heng
      | _ => exact .throw
    | _ => exact .throw

theorem nativeSpace {spec : String} : (Engine.nativeSpace spec).Sourced site := by
  unfold Engine.nativeSpace
  split
  · exact .pure
  · exact .act trivial

/-- **A module is looked for from where the form stands.** -/
theorem useModule (heng : eng.Sourced) (hfm : fm.Owns site) {spec : String} :
    (eng.useModule fm spec).Sourced site := by
  have hbase : (Act.resolveModule spec (fm.source.path.bind parentPath)).Minds site :=
    fun here hhere ↦ by rw [hfm here hhere]
  refine .bind (.note trivial fun _ ↦ le_rfl) fun _ ↦ .bind .nativeSpace fun space ↦ ?_
  cases space with
  | some space => exact .pure
  | none => exact .bind (.act hbase) fun _ ↦ .bind .check fun _ ↦ .useFile heng

/-! ## Builtin commands -/

theorem textArg {what : String} {v : Value} : (fm.textArg what v).Sourced site := by
  cases v with
  | str text => exact .pure
  | _ => exact .throw

theorem numArg {v : Value} : (fm.numArg v).Sourced site := by
  unfold Frame.numArg
  cases v.toNum? with
  | some n => exact .pure
  | none => exact .throw

theorem textPairs {what : String} {entries : List (Value × Value)} :
    (Comp.mapEach (fun (k, v) ↦ do return (← fm.textArg what k, v)) entries).Sourced site :=
  .mapEach fun _ ↦ .bind .textArg fun _ ↦ .pure

theorem makeSpace {v : Value} : (Engine.makeSpace fm v).Sourced site := by
  cases v with
  | map entries => exact .bind .textPairs fun _ ↦ .bind (.act trivial) fun _ ↦ .put
  | _ => exact .throw

theorem evalSpace {given : Option Value} : (Engine.evalSpace fm given).Sourced site := by
  cases given with
  | none => exact .derivedSpace
  | some v =>
    cases v with
    | ns space => exact .pure
    | _ => exact .throw

theorem command {name : String} :
    (Name.command name fun var ↦ do return (← fm.find? var).isSome).Sourced site := by
  have hvisible (var : String) : (do return (← fm.find? var).isSome : Comp Bool).Sourced site :=
    .bind .find? fun _ ↦ .pure
  unfold Name.command
  split
  · exact .pure
  · split
    · exact .bind (hvisible _) fun _ ↦ .pure
    · exact .bind (hvisible _) fun _ ↦ .pure

theorem resolveWord {name : String} : (Engine.resolveWord fm name).Sourced site := by
  unfold Engine.resolveWord
  split
  · exact .put
  · refine .bind .command fun command ↦ ?_
    cases command with
    | external program => exact .put
    | unbound var => exact .throw
    | function var =>
      refine .bind .value fun v ↦ ?_
      split
      · exact .put
      · exact .throw

theorem sleepFor {v : Value} : (Engine.sleepFor fm v).Sourced site := by
  refine .bind .check fun nanos ↦ .bind (.act trivial) fun timer ↦ ?_
  refine .bind (.act trivial) fun line ↦ .bind (.act trivial) fun rung ↦ ?_
  cases rung with
  | true => exact .pure
  | false => exact .throw

section Engine

variable (heng : eng.Sourced) (hfm : fm.Owns site)

include heng hfm

theorem withCallback {body : Outcome} {callback : Option Value} {arg : Value} :
    (eng.withCallback fm body callback arg).Sourced site := by
  cases callback with
  | none => exact .ofExcept
  | some f => exact .bind (.result (heng.call hfm)) fun _ ↦ .ofExcept

theorem evalText {args : Args} : (eng.evalText fm args).Sourced site := by
  refine .bind .textArg fun code ↦ .bind .evalSpace fun space ↦ .bind (.act trivial) fun source ↦ ?_
  refine .compileFor_bind fun op hop ↦ .enter_bind fun inside hinside ↦ ?_
  exact .bind (.result (.runChunk heng (hinside ▸ hop))) fun _ ↦ withCallback heng hfm

theorem timeBody {args : Args} : (eng.timeBody fm args).Sourced site := by
  refine .bind (.act trivial) fun start ↦ .bind (.result (heng.call hfm)) fun body ↦ ?_
  exact .bind (.act trivial) fun stop ↦ withCallback heng hfm

theorem callWith {f args opts : Value} : (eng.callWith fm f args opts).Sourced site := by
  cases args with
  | list vs =>
    cases opts with
    | map entries => exact .bind .textPairs fun pairs ↦ heng.call hfm
    | _ => exact .throw
  | _ => exact .throw

/-- **Builtin commands run code in its own source.** -/
theorem runBuiltin {b : Builtin} {args : Args} : (eng.runBuiltin fm b args).Sourced site := by
  cases b with
  | put => exact .putAll
  | echo => exact .write
  | print => exact .write
  | nop => exact .pure
  | all =>
    unfold Engine.runBuiltin
    dsimp only
    split
    · exact .iterateInput fun _ ↦ .put
    · exact .putAll
  | kindOf => exact .putAll
  | constantly => exact .put
  | ns => exact .makeSpace
  | num => exact .bind .numArg fun _ ↦ .put
  | float64 => exact .bind .numArg fun _ ↦ .put
  | external => exact .bind .textArg fun _ ↦ .put
  | fail => exact .throw
  | leave => exact .fail
  | stop => exact .fail
  | next => exact .fail
  | eval => exact evalText heng hfm
  | call => exact callWith heng hfm
  | resolve => exact .bind .textArg fun _ ↦ .resolveWord
  | useMod => exact .bind .textArg fun _ ↦ .bind (.useModule heng hfm) fun _ ↦ .put
  | warn => exact .warn
  | sleep => exact .sleepFor
  | time => exact timeBody heng hfm

end Engine

/-! ## Calls -/

theorem callClosure (heng : eng.Sourced) {c : Closure} (hc : c.body.IsOf c.source) {args : List Value}
    {opts : Options} : (eng.callClosure fm c args opts).Sourced site :=
  .bind .check fun _ ↦ .bind (.act trivial) fun _ ↦ .enter_bind fun _ hinside ↦ heng.run (hinside ▸ hc)

/-- **Calls run code in its own source.**  A closure that is called is found in the store, as code of its source. -/
theorem callValue (heng : eng.Sourced) (hfm : fm.Owns site) {f : Value} {args : List Value} {opts : Options} :
    (eng.callValue fm f args opts).Sourced site := by
  cases f with
  | closure id =>
    refine .closure_bind fun found hfound ↦ ?_
    cases found with
    | none => exact .throw
    | some c => exact .callClosure heng (hfound c rfl)
  | builtin b => exact .bind .check fun _ ↦ .runBuiltin heng hfm
  | constantly vs => exact .bind (.discard .check) fun _ ↦ .putAll
  | external program => exact .throw
  | _ => exact .throw

end Comp.Sourced

end ValueShell
