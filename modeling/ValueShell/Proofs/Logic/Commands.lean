import ValueShell.Proofs.Dialect.Lowered
import ValueShell.Proofs.Logic
import ValueShell.Proofs.Weights

/-!
# What holds of commands

One lemma for each operation of frames, for the builtin commands and for calls, in any logic.  Most of them hold in
every setting.  Where further code is run or called the lemma asks for what holds of that code: `Serves` says what
engines have to do for a setting.

A builtin command calls values in the frame of its own caller, so nobody can ask beforehand that all calls in this
frame are as they should be.  `callValue` asks it only of those that weigh less.
-/

set_option autoImplicit false

namespace ValueShell

namespace Comp.Logic

/-- The engines do as they should when code of the dialect is run in a frame of the setting. -/
def Runs (L : Logic) (S : Setting) (eng : Nat → Engine) : Prop :=
  ∀ {op : Op} {fm : Frame}, op.isIn L.dialect = true → L.Fits S fm →
    L.Holds S (fun n ↦ (eng n).run op fm) fun _ ↦ True

/-- They do so when a value is called there. -/
def Calls (L : Logic) (S : Setting) (eng : Nat → Engine) : Prop :=
  ∀ {fm : Frame} {f : Value} {args : List Value} {opts : Options}, L.Fits S fm →
    L.Holds S (fun n ↦ (eng n).call fm f args opts) fun _ ↦ True

/-- What commands in the setting need of the engines, calls of values aside. -/
structure Serves (L : Logic) (S : Setting) (eng : Nat → Engine) : Prop where
  /-- The code of a call is run one level deeper, if that is not too deep. -/
  run : S.depth < S.config.maxCallDepth → L.Runs S.deeper eng
  use : ∀ {fm : Frame} {spec : String}, L.Fits S fm →
    L.Holds S (fun n ↦ (eng n).useModule fm spec) fun _ ↦ True
  read : ∀ {fm : Frame}, L.Fits S fm →
    L.Holds S (fun n ↦ fm.iterateInput (eng n).turns fm.put) fun _ ↦ True

/-- Calls in the frame that weigh less are as they should be. -/
def CallsBelow (L : Logic) (S : Setting) (eng : Nat → Engine) (fm : Frame) (weight : Nat) : Prop :=
  ∀ {f : Value} {args : List Value} {opts : Options}, Value.callWeight f args opts < weight →
    L.Holds S (fun n ↦ (eng n).call fm f args opts) fun _ ↦ True

namespace Holds

variable {α : Type} {L : Logic} {S : Setting} {P : α → Prop} {fm : Frame} {eng : Nat → Engine}

/-! ## Failures -/

theorem raise {reason : Reason} : L.Holds S (fun _ ↦ (Comp.throw reason : Comp α)) P :=
  .bind L.raises fun _ _ ↦ .fail

theorem throw {reason : Reason} : L.Holds S (fun _ ↦ (fm.throw reason : Comp α)) P :=
  .bind L.raises fun _ _ ↦ .fail

theorem check {r : Except Reason α} (h : ∀ a, r = .ok a → P a) : L.Holds S (fun _ ↦ fm.check r) P := by
  cases r with
  | ok a => exact .pure (h a rfl)
  | error reason => exact .throw

/-- A result that is checked, whatever it is. -/
theorem checked {r : Except Reason α} : L.Holds S (fun _ ↦ fm.check r) fun _ ↦ True :=
  .check fun _ _ ↦ trivial

theorem starting (hfm : L.Fits S fm) {site : Option CallSite} :
    L.Holds S (fun _ ↦ fm.starting site) fun _ ↦ True := by
  rw [Frame.starting, hfm.loading]
  exact L.starts

theorem atSite (hfm : L.Fits S fm) {site : CallSite} {f : Nat → Frame → Comp α}
    (h : L.Holds S (fun n ↦ f n { fm with site := some site }) P) : L.Holds S (fun n ↦ fm.atSite site (f n)) P :=
  .bind (.starting hfm) fun _ _ ↦ .bind (.result (.mapFailure h)) fun _ hr ↦ .bind L.ends fun _ _ ↦ .ofExcept hr

theorem checkInterrupt : L.Holds S (fun _ ↦ fm.checkInterrupt) fun _ ↦ True := by
  refine .bind (.done rfl rfl) fun flag _ ↦ ?_
  cases flag with
  | false => exact .pure trivial
  | true => exact .throw

/-! ## Variables -/

theorem find? {name : String} : L.Holds S (fun _ ↦ fm.find? name) fun _ ↦ True :=
  .done rfl rfl

theorem declare {name : String} {v : Value} : L.Holds S (fun _ ↦ fm.declare name v) fun _ ↦ True :=
  .done rfl rfl

theorem cell {name : String} : L.Holds S (fun _ ↦ fm.cell name) fun _ ↦ True := by
  refine .bind .find? fun c _ ↦ ?_
  cases c with
  | some c => exact .pure trivial
  | none => exact .throw

theorem value {name : String} : L.Holds S (fun _ ↦ fm.value name) fun _ ↦ True := by
  have hvalue : L.Holds S (fun _ ↦ fm.value? name) fun _ ↦ True := by
    refine .bind .find? fun c _ ↦ ?_
    cases c with
    | some c => exact .bind (.done rfl rfl) fun _ _ ↦ .pure trivial
    | none => exact .pure trivial
  refine .bind hvalue fun v _ ↦ ?_
  cases v with
  | some v => exact .pure trivial
  | none => exact .throw

theorem close {signature : Signature} {body : Op} {source : Source} (h : body.isIn L.dialect = true) :
    L.Holds S (fun _ ↦ fm.close signature body source) fun _ ↦ True :=
  .bind (.done rfl h) fun _ _ ↦ .pure trivial

theorem derivedSpace : L.Holds S (fun _ ↦ fm.derivedSpace) fun _ ↦ True := by
  have hscope : L.Holds S (fun _ ↦ fm.scope) fun _ ↦ True := .bind (.done rfl rfl) fun _ _ ↦ .pure trivial
  exact .bind hscope fun _ _ ↦ .done rfl rfl

/-- A frame for other code is one level deeper, whatever the setting in which it is entered. -/
theorem enter (hfm : L.Fits S fm) {S' : Setting} {space : NsId} {outer : List Bindings} {source : Source} :
    L.Holds S' (fun _ ↦ fm.enter space outer source) fun inside ↦
      S.depth < S.config.maxCallDepth ∧ L.Fits S.deeper inside := by
  unfold Frame.enter
  split
  next hinside => exact .pure (hfm.inner hinside)
  next => exact .throw

theorem captured (hfm : L.Fits S fm) {f : Nat → Frame → Comp Unit}
    (h : ∀ inside, L.Fits S inside → L.Holds S (fun n ↦ f n inside) fun _ ↦ True) :
    L.Holds S (fun n ↦ fm.captured (f n)) fun _ ↦ True := by
  refine .bind (.done rfl rfl) fun id _ ↦ .bind (h _ ?_) fun _ _ ↦ .done rfl rfl
  exact hfm.withWiring rfl (L.accepts_capture id) hfm.error

/-! ## Output -/

theorem put (hfm : L.Fits S fm) {v : Value} : L.Holds S (fun _ ↦ fm.put v) fun _ ↦ True :=
  .bind (L.put hfm.output) fun _ _ ↦ .checked

theorem putAll (hfm : L.Fits S fm) {vs : List Value} : L.Holds S (fun _ ↦ fm.putAll vs) fun _ ↦ True :=
  .forEach fun _ _ ↦ .put hfm

theorem write (hfm : L.Fits S fm) {text : String} : L.Holds S (fun _ ↦ fm.write text) fun _ ↦ True :=
  .bind (L.writeBytes hfm.output) fun _ _ ↦ .checked

theorem writeError (hfm : L.Fits S fm) {text : String} : L.Holds S (fun _ ↦ fm.writeError text) fun _ ↦ True :=
  .bind (L.writeBytes hfm.error) fun _ _ ↦ .checked

theorem warn (hfm : L.Fits S fm) {message : String} : L.Holds S (fun _ ↦ fm.warn message) fun _ ↦ True := by
  unfold Frame.warn
  split
  · refine .bind (.done rfl rfl) fun first _ ↦ ?_
    cases first with
    | true => exact .writeError hfm
    | false => exact .pure trivial
  · exact .writeError hfm

/-! ## Code of sources -/

/-- A source that is made is in the dialect. -/
theorem newSource {name code : String} {path : Option String} :
    L.Holds S (fun _ ↦ Comp.act (.newSource name code path)) fun source ↦ L.dialect.has source.code = true := by
  refine .consequence (L.act rfl rfl) ?_
  rintro _ ⟨he, w, rfl⟩
  exact he

/-- What is made of a source is in the dialect of its text. -/
theorem compileFor {source : Source} {space : NsId} (h : L.dialect.has source.code = true) :
    L.Holds S (fun _ ↦ Engine.compileFor source space) fun op ↦ op.isIn L.dialect = true :=
  .bind (.done rfl rfl) fun _ _ ↦ .ofExcept fun _ hop ↦ compile_isIn h hop

/-- The code of a call is run in a frame that has been entered. -/
theorem run (hrun : S.depth < S.config.maxCallDepth → L.Runs S.deeper eng) {op : Op}
    (hop : op.isIn L.dialect = true) (hinside : S.depth < S.config.maxCallDepth ∧ L.Fits S.deeper fm) :
    L.Holds S (fun n ↦ (eng n).run op fm) fun _ ↦ True :=
  L.deeper (hrun hinside.1 hop hinside.2)

theorem runChunk {op : Op} (h : L.Holds S (fun n ↦ (eng n).run op fm) fun _ ↦ True) :
    L.Holds S (fun n ↦ (eng n).runChunk op fm) fun _ ↦ True := by
  refine .bind (.result h) fun o _ ↦ ?_
  unfold Frame.settle
  split
  next => exact .pure trivial
  next => exact .throw
  next => exact .ofExcept fun _ _ ↦ trivial

/-- A module is run while it is being loaded. -/
theorem loadModule (hfm : L.Fits S fm) {path : FilePath}
    (hrun : S.depth < S.config.maxCallDepth → L.Runs (S.loadingModule path).deeper eng) :
    L.Holds (S.loadingModule path) (fun n ↦ (eng n).loadModule fm path) fun _ ↦ True := by
  refine .bind (.done rfl rfl) fun text _ ↦ ?_
  cases text with
  | error fault => exact .throw
  | ok code =>
    refine .bind .newSource fun source hsource ↦ .bind (.done rfl rfl) fun space _ ↦ ?_
    refine .bind (.compileFor hsource) fun op hop ↦ .bind (.enter hfm) fun inside hinside ↦ ?_
    have hfits : L.Fits (S.loadingModule path).deeper (inside.loadingModule path) := hinside.2.loadingModule path
    exact .bind (.runChunk (.run hrun hop ⟨hinside.1, hfits⟩)) fun _ _ ↦ .pure trivial

/-! ## Arguments -/

theorem textArg {what : String} {v : Value} : L.Holds S (fun _ ↦ fm.textArg what v) fun _ ↦ True := by
  cases v with
  | str text => exact .pure trivial
  | _ => exact .throw

theorem numArg {v : Value} : L.Holds S (fun _ ↦ fm.numArg v) fun _ ↦ True := by
  unfold Frame.numArg
  cases v.toNum? with
  | some n => exact .pure trivial
  | none => exact .throw

/-- The pairs of a map, with keys that have to be text. -/
theorem textPairs {what : String} {entries : Entries} :
    L.Holds S (fun _ ↦ Comp.mapEach (fun (k, v) ↦ do return (← fm.textArg what k, v)) entries)
      (List.Forall₂ (fun e p ↦ p.2 = e.2) entries) :=
  .mapEach fun _ _ ↦ .bind .textArg fun _ _ ↦ .pure rfl

/-! ## Builtin commands -/

theorem makeSpace (hfm : L.Fits S fm) {v : Value} : L.Holds S (fun _ ↦ Engine.makeSpace fm v) fun _ ↦ True := by
  cases v with
  | map entries => exact .bind .textPairs fun _ _ ↦ .bind (.done rfl rfl) fun _ _ ↦ .put hfm
  | _ => exact .throw

theorem evalSpace {given : Option Value} : L.Holds S (fun _ ↦ Engine.evalSpace fm given) fun _ ↦ True := by
  cases given with
  | none => exact .derivedSpace
  | some v =>
    cases v with
    | ns space => exact .pure trivial
    | _ => exact .throw

theorem command {name : String} :
    L.Holds S (fun _ ↦ Name.command name fun var ↦ do return (← fm.find? var).isSome) fun _ ↦ True := by
  have hvisible (var : String) : L.Holds S (fun _ ↦ (do return (← fm.find? var).isSome : Comp Bool)) fun _ ↦ True :=
    .bind .find? fun _ _ ↦ .pure trivial
  unfold Name.command
  split
  · exact .pure trivial
  · split
    · exact .bind (hvisible _) fun _ _ ↦ .pure trivial
    · exact .bind (hvisible _) fun _ _ ↦ .pure trivial

theorem resolveWord (hfm : L.Fits S fm) {name : String} :
    L.Holds S (fun _ ↦ Engine.resolveWord fm name) fun _ ↦ True := by
  unfold Engine.resolveWord
  split
  · exact .put hfm
  · refine .bind .command fun command _ ↦ ?_
    cases command with
    | external program => exact .put hfm
    | unbound var => exact .throw
    | function var =>
      refine .bind .value fun v _ ↦ ?_
      split
      · exact .put hfm
      · exact .throw

theorem withCallback {body : Outcome} {callback : Option Value} {arg : Value}
    (hcall : ∀ f, callback = some f → L.Holds S (fun n ↦ (eng n).call fm f [arg] []) fun _ ↦ True) :
    L.Holds S (fun n ↦ (eng n).withCallback fm body callback arg) fun _ ↦ True := by
  cases callback with
  | none => exact .ofExcept fun _ _ ↦ trivial
  | some f => exact .bind (.result (hcall f rfl)) fun _ _ ↦ .ofExcept fun _ _ ↦ trivial

theorem evalText (heng : L.Serves S eng) (hfm : L.Fits S fm) {args : Args}
    (hcall : ∀ f space, args.option? "on-end" = some f →
      L.Holds S (fun n ↦ (eng n).call fm f [.ns space] []) fun _ ↦ True) :
    L.Holds S (fun n ↦ (eng n).evalText fm args) fun _ ↦ True := by
  refine .bind .textArg fun code _ ↦ .bind .evalSpace fun space _ ↦ ?_
  refine .bind .newSource fun source hsource ↦ .bind (.compileFor hsource) fun op hop ↦ ?_
  refine .bind (.enter hfm) fun inside hinside ↦ ?_
  refine .bind (.result (.runChunk (.run heng.run hop hinside))) fun _ _ ↦ ?_
  exact .withCallback fun f hf ↦ hcall f space hf

theorem timeBody {args : Args} (hbody : L.Holds S (fun n ↦ (eng n).call fm (args.param 0) [] []) fun _ ↦ True)
    (hcall : ∀ f seconds, args.option? "on-end" = some f →
      L.Holds S (fun n ↦ (eng n).call fm f [.num seconds] []) fun _ ↦ True) :
    L.Holds S (fun n ↦ (eng n).timeBody fm args) fun _ ↦ True := by
  refine .bind (.done rfl rfl) fun _ _ ↦ .bind (.result hbody) fun _ _ ↦ .bind (.done rfl rfl) fun _ _ ↦ ?_
  exact .withCallback fun f hf ↦ hcall f _ hf

/-- The arguments and the options that are taken out of a list and a map weigh less than these. -/
theorem callWith {f args opts : Value}
    (hcall : ∀ args' opts', weights args' + Options.weight opts' < args.weight + opts.weight →
      L.Holds S (fun n ↦ (eng n).call fm f args' opts') fun _ ↦ True) :
    L.Holds S (fun n ↦ (eng n).callWith fm f args opts) fun _ ↦ True := by
  cases args with
  | list vs =>
    cases opts with
    | map entries =>
      refine .bind .textPairs fun pairs hpairs ↦ hcall vs _ ?_
      have hweight := Options.weight_ofPairs_le pairs
      rw [Options.weight_of_entries hpairs] at hweight
      rw [Value.weight, Value.weight]
      omega
    | _ => exact .throw
  | _ => exact .throw

section Below

variable {args : List Value} {opts : Options} {bound : Args}

theorem runEval (heng : L.Serves S eng) (hfm : L.Fits S fm)
    (hbound : Builtin.eval.signature.bind args opts = .ok bound)
    (hcall : L.CallsBelow S eng fm (Value.callWeight (.builtin .eval) args opts)) :
    L.Holds S (fun n ↦ (eng n).runBuiltin fm .eval bound) fun _ ↦ True := by
  obtain ⟨-, hargs⟩ := Signature.bind_positional hbound rfl
  obtain ⟨code, rfl⟩ := List.length_eq_one_iff.1 hargs
  have hdefault : ∀ w, ("on-end", w) ∈ Builtin.eval.signature.options → w = .nil := by
    simp [Builtin.signature, Signature.option, Signature.param, Signature.empty]
  refine .evalText heng hfm fun f space hf ↦ ?_
  have hgiven := Signature.bind_option hbound hdefault hf
  exact hcall (Value.callWeight_callback_lt hgiven rfl)

theorem runCall (hbound : Builtin.call.signature.bind args opts = .ok bound)
    (hcall : L.CallsBelow S eng fm (Value.callWeight (.builtin .call) args opts)) :
    L.Holds S (fun n ↦ (eng n).runBuiltin fm .call bound) fun _ ↦ True := by
  obtain ⟨hplaces, hargs⟩ := Signature.bind_positional hbound rfl
  obtain ⟨f, vs, v, rfl⟩ := List.length_eq_three.1 hargs
  have hparam (i : Nat) : bound.param i = [f, vs, v].getD i .nil := by rw [Args.param, hplaces]
  unfold Engine.runBuiltin
  dsimp only
  rw [hparam, hparam, hparam]
  exact .callWith fun args' opts' hless ↦ hcall (Value.callWeight_call_lt hless)

theorem runTime (hbound : Builtin.time.signature.bind args opts = .ok bound)
    (hcall : L.CallsBelow S eng fm (Value.callWeight (.builtin .time) args opts)) :
    L.Holds S (fun n ↦ (eng n).runBuiltin fm .time bound) fun _ ↦ True := by
  obtain ⟨hplaces, hargs⟩ := Signature.bind_positional hbound rfl
  obtain ⟨body, rfl⟩ := List.length_eq_one_iff.1 hargs
  have hparam : bound.param 0 = body := by rw [Args.param, hplaces]; rfl
  have hdefault : ∀ w, ("on-end", w) ∈ Builtin.time.signature.options → w = .nil := by
    simp [Builtin.signature, Signature.option, Signature.param, Signature.empty]
  refine .timeBody ?_ fun f seconds hf ↦ ?_
  · rw [hparam]
    exact hcall (Value.callWeight_body_lt body)
  · have hgiven := Signature.bind_option hbound hdefault hf
    exact hcall (Value.callWeight_callback_lt hgiven rfl)

/-- A builtin command is as it should be if all calls in the same frame are that weigh less than its own. -/
theorem runBuiltin (heng : L.Serves S eng) (hfm : L.Fits S fm) {b : Builtin}
    (hbound : b.signature.bind args opts = .ok bound)
    (hcall : L.CallsBelow S eng fm (Value.callWeight (.builtin b) args opts)) :
    L.Holds S (fun n ↦ (eng n).runBuiltin fm b bound) fun _ ↦ True := by
  cases b with
  | put => exact .putAll hfm
  | echo => exact .write hfm
  | print => exact .write hfm
  | nop => exact .pure trivial
  | all =>
    unfold Engine.runBuiltin
    dsimp only
    split
    · exact heng.read hfm
    · exact .putAll hfm
  | kindOf => exact .putAll hfm
  | constantly => exact .put hfm
  | ns => exact .makeSpace hfm
  | num => exact .bind .numArg fun _ _ ↦ .put hfm
  | float64 => exact .bind .numArg fun _ _ ↦ .put hfm
  | external => exact .bind .textArg fun _ _ ↦ .put hfm
  | fail => exact .throw
  | leave => exact .fail
  | stop => exact .fail
  | next => exact .fail
  | eval => exact .runEval heng hfm hbound hcall
  | call => exact .runCall hbound hcall
  | resolve => exact .bind .textArg fun _ _ ↦ .resolveWord hfm
  | useMod => exact .bind .textArg fun _ _ ↦ .bind (heng.use hfm) fun _ _ ↦ .put hfm
  | warn => exact .warn hfm
  | sleep => exact L.sleepFor
  | time => exact .runTime hbound hcall

end Below

/-! ## Calls -/

/-- The code of a closure is run one level deeper. -/
theorem callClosure (heng : L.Serves S eng) (hfm : L.Fits S fm) {c : Closure} {args : List Value} {opts : Options}
    (hc : c.body.isIn L.dialect = true) :
    L.Holds S (fun n ↦ (eng n).callClosure fm c args opts) fun _ ↦ True := by
  refine .bind .checked fun bound _ ↦ .bind (.done rfl rfl) fun space _ ↦ .bind (.enter hfm) fun inside hinside ↦ ?_
  exact .run heng.run hc hinside

/-- A call is as it should be if all calls in the same frame are that weigh less. -/
theorem callValue (heng : L.Serves S eng) (hfm : L.Fits S fm) {f : Value} {args : List Value} {opts : Options}
    (hcall : L.CallsBelow S eng fm (Value.callWeight f args opts)) :
    L.Holds S (fun n ↦ (eng n).callValue fm f args opts) fun _ ↦ True := by
  cases f with
  | closure id =>
    refine .bind (L.act rfl rfl) fun r hr ↦ ?_
    cases r with
    | none => exact .throw
    | some c => exact .callClosure heng hfm hr.1
  | builtin b =>
    refine .bind (.check (P := fun bound ↦ b.signature.bind args opts = .ok bound) fun _ ↦ id) fun bound hbound ↦ ?_
    exact .runBuiltin heng hfm hbound hcall
  | constantly vs => exact .bind (.discard .checked) fun _ _ ↦ .putAll hfm
  | external program => exact .throw
  | _ => exact .throw

end Holds

end Comp.Logic

end ValueShell
