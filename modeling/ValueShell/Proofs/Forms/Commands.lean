import ValueShell.Eval
import ValueShell.Proofs.Forms.Programs

/-!
# Commands keep the log

One lemma for each operation of frames, for the builtin commands and for calls.  Each says that the operation keeps the
log in every strand in which the form at a site is being run (`Comp.KeepsLog`), if its frame knows this form or none
(`Frame.Suits`).

Frames know no form at first and when code of its own is entered, and know the right one as soon as a form begins.
What is raised in between bears no site; the form gets on the stack when the exception leaves it.
-/

set_option autoImplicit false

namespace ValueShell

/-- In every strand in which the form at the site is being run, the computation keeps the log, and the property holds of
what it gives. -/
def Comp.KeepsLog {α : Type} (site : Option CallSite) (m : Comp α) (P : α → Prop) : Prop :=
  ∀ s : Strand, s.site = site → m.Traces s fun _ a ↦ P a

/-- The frame knows the form at the site as the one that is being run, or it knows none. -/
def Frame.Suits (fm : Frame) (site : Option CallSite) : Prop :=
  fm.site = none ∨ fm.site = site

theorem Frame.Suits.here (site : CallSite) (fm : Frame) : Frame.Suits { fm with site := some site } (some site) :=
  .inr rfl

/-- Running code and calling values keeps the log. -/
structure Engine.KeepsLog (eng : Engine) : Prop where
  run : ∀ {op : Op} {fm : Frame} {site : Option CallSite}, fm.Suits site →
    (eng.run op fm).KeepsLog site fun _ ↦ True
  call : ∀ {fm : Frame} {f : Value} {args : List Value} {opts : Options} {site : Option CallSite}, fm.Suits site →
    (eng.call fm f args opts).KeepsLog site fun _ ↦ True

theorem Frame.raise_eq (fm : Frame) (reason : Reason) : fm.raise reason = .exception (.mk reason fm.site.toList) := by
  unfold Frame.raise
  cases fm.site <;> rfl

/-- A form that is known asks whether it is to warn, and warns if it is told so. -/
theorem Frame.warn_eq (fm : Frame) {site : CallSite} (h : fm.site = some site) (message : String)
    (k : Except Failure Unit → Prog) : fm.warn message k = .act (.firstWarning site) fun first ↦
      if first = true then fm.writeError s!"deprecation: {message}\n  {site.line}\n" k else k (.ok ()) := by
  unfold Frame.warn
  rw [h]
  refine congrArg (Prog.act (.firstWarning site)) (funext fun first ↦ ?_)
  cases first <;> rfl

/-- An exception without a stack gets the form that is being run for one. -/
theorem Strand.Leaves.annotate {s : Strand} {f : Failure} {fm : Frame} (hfm : fm.Suits s.site) (h : s.Leaves f) :
    s.Leaves (fm.annotate f) := by
  unfold Frame.annotate
  split
  next reason site hsite =>
    have hs : s.site = some site := by
      rcases hfm with hfm | hfm
      · rw [hsite] at hfm
        cases hfm
      · rw [← hfm, hsite]
    rintro _ ⟨⟩ hc
    obtain ⟨e₀, forms, hcame, hextends, hstack⟩ := h _ rfl hc
    refine ⟨e₀, forms, hcame, hextends.trans (Exception.extends_through site _), ?_⟩
    rw [← hstack, hs]
    simp [Exception.outOf, Exception.through, Exception.stack, CallSite.same_refl]
  next => exact h

namespace Comp.KeepsLog

variable {α β : Type} {site : Option CallSite} {fm : Frame} {eng : Engine} {m : Comp α} {P P' : α → Prop}

/-! ## Rules -/

theorem consequence (h : m.KeepsLog site P) (hp : ∀ a, P a → P' a) : m.KeepsLog site P' :=
  fun s hs ↦ (h s hs).consequence fun _ _ a ↦ hp a

theorem pure {a : α} (h : P a) : (Pure.pure a : Comp α).KeepsLog site P :=
  fun _ _ ↦ .pure h

theorem bind {g : α → Comp β} {Q : β → Prop} (h : m.KeepsLog site P) (hg : ∀ a, P a → (g a).KeepsLog site Q) :
    (m >>= g).KeepsLog site Q :=
  fun s hs ↦ (h s hs).bind fun s' hs' a ha ↦ hg a ha s' ((Strand.site_eq hs').trans hs)

theorem discard (h : m.KeepsLog site P) : (discard m).KeepsLog site fun _ ↦ True :=
  h.bind fun _ _ ↦ pure trivial

theorem spent : (Comp.spent : Comp α).KeepsLog site P :=
  fun _ _ ↦ .spent

/-- A failure that is not an exception. -/
theorem fail_flow (flow : Flow) : (Comp.fail (.flow flow) : Comp α).KeepsLog site P :=
  fun s _ ↦ .fail (s.leaves_flow flow)

theorem act {a : Act} (h : ∀ next s, a.Asks next s) : (Comp.act a).KeepsLog site fun _ ↦ True :=
  fun _ _ ↦ .act h

/-- What is done with a result, whatever it is. -/
theorem result_bind {g : Except Failure α → Comp β} {Q : β → Prop} (h : m.KeepsLog site P)
    (hg : ∀ (s : Strand) r, s.site = site → (∀ f, r = .error f → s.Leaves f) → (g r).Traces s fun _ b ↦ Q b) :
    (m.result >>= g).KeepsLog site Q :=
  fun s hs ↦ (h s hs).result.bind fun s' hs' r hr ↦ hg s' r ((Strand.site_eq hs').trans hs) hr.2

theorem forEach {g : α → Comp Unit} {items : List α} (h : ∀ a ∈ items, (g a).KeepsLog site fun _ ↦ True) :
    (Comp.forEach g items).KeepsLog site fun _ ↦ True :=
  fun _ hs ↦ .forEach items fun s' hs' a ha ↦ h a ha s' ((Strand.site_eq hs').trans hs)

theorem mapEach {g : α → Comp β} {items : List α} (h : ∀ a ∈ items, (g a).KeepsLog site fun _ ↦ True) :
    (Comp.mapEach g items).KeepsLog site fun _ ↦ True :=
  fun _ hs ↦ .mapEach items fun s' hs' a ha ↦ h a ha s' ((Strand.site_eq hs').trans hs)

theorem repeatWhile {body : Comp Bool} (h : body.KeepsLog site fun _ ↦ True) (n : Nat) :
    (Comp.repeatWhile body n).KeepsLog site fun _ ↦ True :=
  fun _ hs ↦ .repeatWhile (fun s' hs' ↦ h s' ((Strand.site_eq hs').trans hs)) n

/-! ## Failures -/

/-- What is raised is in the log when it leaves. -/
theorem raised {known : Option CallSite} (hknown : known = none ∨ known = site) (reason : Reason) :
    (do
      Comp.note (.raises known reason)
      Comp.fail (.exception (.mk reason known.toList)) : Comp α).KeepsLog site P := by
  rintro s rfl
  refine .bind (.note trivial (s.le_add _)) fun s' _ _ hs' ↦ ?_
  subst hs'
  exact .fail (s.leaves_raised hknown reason)

theorem raise {reason : Reason} : (Comp.throw reason : Comp α).KeepsLog site P :=
  raised (.inl rfl) reason

theorem throw (hfm : fm.Suits site) {reason : Reason} : (fm.throw reason : Comp α).KeepsLog site P := by
  unfold Frame.throw
  rw [Frame.raise_eq]
  exact raised hfm reason

theorem check (hfm : fm.Suits site) {r : Except Reason α} : (fm.check r).KeepsLog site fun _ ↦ True := by
  cases r with
  | ok a => exact .pure trivial
  | error reason => exact .throw hfm

theorem checkInterrupt (hfm : fm.Suits site) : fm.checkInterrupt.KeepsLog site fun _ ↦ True := by
  refine .bind (.act fun _ _ ↦ trivial) fun flag _ ↦ ?_
  cases flag with
  | false => exact .pure trivial
  | true => exact .throw hfm

/-- **A form keeps the log**: what is run in it keeps the log of its own, and what leaves it shows its site. -/
theorem atSite {here : CallSite} {f : Frame → Comp Unit}
    (h : (f { fm with site := some here }).KeepsLog (some here) fun _ ↦ True) :
    (fm.atSite here f).KeepsLog site fun _ ↦ True := by
  rintro s -
  have hinside : (f { fm with site := some here }).Traces (s.enter here) fun _ _ ↦ True := h _ rfl
  intro k hok herr
  refine ⟨trivial, hinside _ (fun s₁ hs₁ _ _ ↦ ⟨⟨⟨_, _, hs₁.1⟩, nofun⟩, ?_⟩) fun s₁ hs₁ f hf ↦
    ⟨⟨⟨_, _, hs₁.1⟩, ?_⟩, ?_⟩⟩
  · change (k (.ok ())).Traced (s₁.leave _)
    rw [s.leave_eq hs₁]
    exact hok _ (s.le_add _) () trivial
  · intro e he hc
    obtain ⟨e', rfl, rfl⟩ : ∃ e', f = .exception e' ∧ e = e'.through here := by
      cases f <;> cases he
      exact ⟨_, rfl, rfl⟩
    rw [Exception.reason_through] at hc
    obtain ⟨e₀, forms, hcame, hextends, hstack⟩ := hf _ rfl hc
    rw [Strand.site_eq hs₁] at hstack
    exact ⟨e₀, forms, hcame, hextends.trans (e'.extends_through here), hstack⟩
  · change (k (.error (f.through here))).Traced (s₁.leave _)
    rw [s.leave_eq hs₁]
    exact herr _ (s.le_add _) _ (s.leaves_form hs₁ hf)

/-! ## Variables -/

theorem find? {name : String} : (fm.find? name).KeepsLog site fun _ ↦ True :=
  .act fun _ _ ↦ trivial

theorem declare {name : String} {v : Value} : (fm.declare name v).KeepsLog site fun _ ↦ True :=
  .act fun _ _ ↦ trivial

theorem cell (hfm : fm.Suits site) {name : String} : (fm.cell name).KeepsLog site fun _ ↦ True := by
  refine .bind .find? fun c _ ↦ ?_
  cases c with
  | some c => exact .pure trivial
  | none => exact .throw hfm

theorem value (hfm : fm.Suits site) {name : String} : (fm.value name).KeepsLog site fun _ ↦ True := by
  have hvalue : (fm.value? name).KeepsLog site fun _ ↦ True := by
    refine .bind .find? fun c _ ↦ ?_
    cases c with
    | some c => exact .bind (.act fun _ _ ↦ trivial) fun _ _ ↦ .pure trivial
    | none => exact .pure trivial
  refine .bind hvalue fun v _ ↦ ?_
  cases v with
  | some v => exact .pure trivial
  | none => exact .throw hfm

theorem close {signature : Signature} {body : Op} {source : Source} :
    (fm.close signature body source).KeepsLog site fun _ ↦ True :=
  .bind (.act fun _ _ ↦ trivial) fun _ _ ↦ .pure trivial

theorem derivedSpace : fm.derivedSpace.KeepsLog site fun _ ↦ True := by
  have hscope : fm.scope.KeepsLog site fun _ ↦ True := .bind (.act fun _ _ ↦ trivial) fun _ _ ↦ .pure trivial
  exact .bind hscope fun _ _ ↦ .act fun _ _ ↦ trivial

/-- A frame for other code knows no form. -/
theorem enter (hfm : fm.Suits site) {space : NsId} {outer : List Bindings} {source : Source} :
    (fm.enter space outer source).KeepsLog site fun inside ↦ inside.site = none := by
  unfold Frame.enter
  split
  next inside hinside =>
    rw [Frame.inner] at hinside
    split at hinside <;> cases hinside
    exact .pure rfl
  next => exact .throw hfm

theorem captured {f : Frame → Comp Unit} (h : ∀ wiring, (f (fm.withWiring wiring)).KeepsLog site fun _ ↦ True) :
    (fm.captured f).KeepsLog site fun _ ↦ True :=
  .bind (.act fun _ _ ↦ trivial) fun _ _ ↦ .bind (h _) fun _ _ ↦ .act fun _ _ ↦ trivial

/-! ## Input and output -/

theorem put (hfm : fm.Suits site) {v : Value} : (fm.put v).KeepsLog site fun _ ↦ True :=
  .bind (.act fun _ _ ↦ trivial) fun _ _ ↦ .check hfm

theorem putAll (hfm : fm.Suits site) {vs : List Value} : (fm.putAll vs).KeepsLog site fun _ ↦ True :=
  .forEach fun _ _ ↦ .put hfm

theorem write (hfm : fm.Suits site) {text : String} : (fm.write text).KeepsLog site fun _ ↦ True :=
  .bind (.act fun _ _ ↦ trivial) fun _ _ ↦ .check hfm

theorem writeError (hfm : fm.Suits site) {text : String} : (fm.writeError text).KeepsLog site fun _ ↦ True :=
  .bind (.act fun _ _ ↦ trivial) fun _ _ ↦ .check hfm

/-- A form that warns asks first whether it is to, and it is the form that is being run. -/
theorem warn (hfm : fm.Suits site) {message : String} : (fm.warn message).KeepsLog site fun _ ↦ True := by
  cases hsite : fm.site with
  | none =>
    unfold Frame.warn
    rw [hsite]
    exact .writeError hfm
  | some here =>
    have hhere : site = some here := by
      rcases hfm with hnone | hknown
      · rw [hsite] at hnone
        cases hnone
      · rw [← hknown, hsite]
    intro s hs k hok herr
    have hwarn := fm.warn_eq hsite message k
    rw [hwarn]
    refine ⟨⟨hs.trans hhere, fm, message, k, hsite, hwarn⟩, fun first ↦ ?_⟩
    cases first with
    | true => exact writeError hfm s hs k hok herr
    | false => exact hok s le_rfl () trivial

theorem iterate {f : Value → Comp Unit} {line n : Nat} {p : Inlet.Progress}
    (h : ∀ v, (f v).KeepsLog site fun _ ↦ True) : (Inlet.iterate line f n p).KeepsLog site fun _ ↦ True := by
  induction n generalizing p with
  | zero => exact .spent
  | succ n ih =>
    rw [Inlet.iterate]
    split
    · exact .forEach fun text _ ↦ h _
    · refine .bind (.act fun _ _ ↦ trivial) fun e _ ↦ ?_
      have hnext : (do
          Comp.forEach f (p.after e).1
          Inlet.iterate line f n (p.after e).2).KeepsLog site fun _ ↦ True :=
        .bind (.forEach fun v _ ↦ h v) fun _ _ ↦ ih
      cases e with
      | interrupted => exact .raise
      | _ => exact hnext

theorem iterateInput (hfm : fm.Suits site) {f : Value → Comp Unit} {n : Nat}
    (h : ∀ v, (f v).KeepsLog site fun _ ↦ True) : (fm.iterateInput n f).KeepsLog site fun _ ↦ True := by
  refine .bind (.act fun _ _ ↦ trivial) fun line _ s hs ↦ ?_
  refine .mapFailure (iterate h s hs) fun s' hs' f hf ↦ hf.annotate ?_
  rwa [Strand.site_eq hs', hs]

/-! ## Code of sources -/

theorem compileFor {source : Source} {space : NsId} : (Engine.compileFor source space).KeepsLog site fun _ ↦ True := by
  refine .bind (.act fun _ _ ↦ trivial) fun scope _ s _ ↦ .ofExcept (fun _ _ ↦ trivial) ?_
  rintro f hf _ rfl
  unfold compile at hf
  split at hf
  · cases hf
  · split at hf <;> cases hf

theorem settle {s : Strand} (hs : s.site = site) (hfm : fm.Suits site) {o : Outcome}
    (ho : ∀ f, o = .error f → s.Leaves f) : (fm.settle o).Traces s fun _ _ ↦ True := by
  unfold Frame.settle
  split
  next => exact .pure trivial
  next => exact throw hfm s hs
  next => exact .ofExcept (fun _ _ ↦ trivial) ho

theorem runChunk (heng : eng.KeepsLog) (hfm : fm.Suits site) {op : Op} :
    (eng.runChunk op fm).KeepsLog site fun _ ↦ True :=
  .result_bind (heng.run hfm) fun _ _ hs ho ↦ settle hs hfm ho

theorem loadModule (heng : eng.KeepsLog) (hfm : fm.Suits site) {path : FilePath} :
    (eng.loadModule fm path).KeepsLog site fun _ ↦ True := by
  refine .bind (.act fun _ _ ↦ trivial) fun text _ ↦ ?_
  cases text with
  | error fault => exact .throw hfm
  | ok code =>
    refine .bind (.act fun _ _ ↦ trivial) fun source _ ↦ .bind (.act fun _ _ ↦ trivial) fun space _ ↦ ?_
    refine .bind .compileFor fun op _ ↦ .bind (.enter hfm) fun inside hinside ↦ ?_
    have hsuits : (inside.loadingModule path).Suits site := .inl hinside
    exact .bind (.runChunk heng hsuits) fun _ _ ↦ .pure trivial

theorem loadClaimed (heng : eng.KeepsLog) (hfm : fm.Suits site) {path : FilePath} :
    (eng.loadClaimed fm path).KeepsLog site fun _ ↦ True := by
  refine .result_bind (.loadModule heng hfm) fun s r _ hr ↦ ?_
  cases r with
  | ok space => exact .bind (.act fun _ _ ↦ trivial) fun _ _ _ _ ↦ .pure trivial
  | error f => exact .bind (.act fun _ _ ↦ trivial) fun _ hs' _ _ ↦ .fail ((hr f rfl).mono hs')

theorem useFile (heng : eng.KeepsLog) (hfm : fm.Suits site) {spec : String} {path : FilePath} :
    (eng.useFile fm spec path).KeepsLog site fun _ ↦ True := by
  unfold Engine.useFile
  split
  · exact .throw hfm
  · refine .bind (.act fun _ _ ↦ trivial) fun told _ ↦ ?_
    cases told with
    | ready space => exact .pure trivial
    | load => exact .loadClaimed heng hfm
    | wait waiter =>
      refine .bind (.act fun _ _ ↦ trivial) fun told _ ↦ ?_
      cases told with
      | ready space => exact .pure trivial
      | load => exact .loadClaimed heng hfm
      | _ => exact .throw hfm
    | _ => exact .throw hfm

theorem nativeSpace {spec : String} : (Engine.nativeSpace spec).KeepsLog site fun _ ↦ True := by
  unfold Engine.nativeSpace
  split
  · exact .pure trivial
  · exact .act fun _ _ ↦ trivial

theorem useModule (heng : eng.KeepsLog) (hfm : fm.Suits site) {spec : String} :
    (eng.useModule fm spec).KeepsLog site fun _ ↦ True := by
  refine .bind (P := fun _ ↦ True) (fun s _ ↦ ?_) fun _ _ ↦ .bind .nativeSpace fun space _ ↦ ?_
  · exact .consequence (.note trivial le_rfl) fun _ _ _ _ ↦ trivial
  · cases space with
    | some space => exact .pure trivial
    | none =>
      refine .bind (.act fun _ _ ↦ trivial) fun r _ ↦ .bind (.check hfm) fun path _ ↦ ?_
      exact .useFile heng hfm

/-! ## Builtin commands -/

theorem textArg (hfm : fm.Suits site) {what : String} {v : Value} : (fm.textArg what v).KeepsLog site fun _ ↦ True := by
  cases v with
  | str text => exact .pure trivial
  | _ => exact .throw hfm

theorem numArg (hfm : fm.Suits site) {v : Value} : (fm.numArg v).KeepsLog site fun _ ↦ True := by
  unfold Frame.numArg
  cases v.toNum? with
  | some n => exact .pure trivial
  | none => exact .throw hfm

theorem textPairs (hfm : fm.Suits site) {what : String} {entries : List (Value × Value)} :
    (Comp.mapEach (fun (k, v) ↦ do return (← fm.textArg what k, v)) entries).KeepsLog site fun _ ↦ True :=
  .mapEach fun _ _ ↦ .bind (.textArg hfm) fun _ _ ↦ .pure trivial

theorem makeSpace (hfm : fm.Suits site) {v : Value} : (Engine.makeSpace fm v).KeepsLog site fun _ ↦ True := by
  cases v with
  | map entries => exact .bind (.textPairs hfm) fun _ _ ↦ .bind (.act fun _ _ ↦ trivial) fun _ _ ↦ .put hfm
  | _ => exact .throw hfm

theorem evalSpace (hfm : fm.Suits site) {given : Option Value} :
    (Engine.evalSpace fm given).KeepsLog site fun _ ↦ True := by
  cases given with
  | none => exact .derivedSpace
  | some v =>
    cases v with
    | ns space => exact .pure trivial
    | _ => exact .throw hfm

theorem command {name : String} :
    (Name.command name fun var ↦ do return (← fm.find? var).isSome).KeepsLog site fun _ ↦ True := by
  have hvisible (var : String) : (do return (← fm.find? var).isSome : Comp Bool).KeepsLog site fun _ ↦ True :=
    .bind .find? fun _ _ ↦ .pure trivial
  unfold Name.command
  split
  · exact .pure trivial
  · split
    · exact .bind (hvisible _) fun _ _ ↦ .pure trivial
    · exact .bind (hvisible _) fun _ _ ↦ .pure trivial

theorem resolveWord (hfm : fm.Suits site) {name : String} :
    (Engine.resolveWord fm name).KeepsLog site fun _ ↦ True := by
  unfold Engine.resolveWord
  split
  · exact .put hfm
  · refine .bind .command fun command _ ↦ ?_
    cases command with
    | external program => exact .put hfm
    | unbound var => exact .throw hfm
    | function var =>
      refine .bind (.value hfm) fun v _ ↦ ?_
      split
      · exact .put hfm
      · exact .throw hfm

theorem sleepFor (hfm : fm.Suits site) {v : Value} : (Engine.sleepFor fm v).KeepsLog site fun _ ↦ True := by
  refine .bind (.check hfm) fun nanos _ ↦ .bind (.act fun _ _ ↦ trivial) fun timer _ ↦ ?_
  refine .bind (.act fun _ _ ↦ trivial) fun line _ ↦ .bind (.act fun _ _ ↦ trivial) fun rung _ ↦ ?_
  cases rung with
  | true => exact .pure trivial
  | false => exact .throw hfm

end Comp.KeepsLog

/-- Of the outcomes of a body and of what ran after it, that of both may leave if each of them may. -/
theorem Strand.leaves_withCallback {s : Strand} {body callback : Outcome} (hbody : ∀ f, body = .error f → s.Leaves f)
    (hcallback : ∀ f, callback = .error f → s.Leaves f) :
    ∀ f, Outcome.withCallback body callback = .error f → s.Leaves f := by
  intro f hf
  unfold Outcome.withCallback at hf
  split at hf
  · exact hcallback f hf
  · exact hbody f hf
  · exact hcallback f hf
  · cases hf
    exact s.leaves_composite rfl

namespace Comp.KeepsLog

variable {site : Option CallSite} {fm : Frame} {eng : Engine}

theorem withCallback (heng : eng.KeepsLog) (hfm : fm.Suits site) {s : Strand} (hs : s.site = site) {body : Outcome}
    (hbody : ∀ f, body = .error f → s.Leaves f) {callback : Option Value} {arg : Value} :
    (eng.withCallback fm body callback arg).Traces s fun _ _ ↦ True := by
  cases callback with
  | none => exact .ofExcept (fun _ _ ↦ trivial) hbody
  | some f =>
    refine .bind (heng.call hfm s hs).result fun s' hs' ended hended ↦ .ofExcept (fun _ _ ↦ trivial) ?_
    exact Strand.leaves_withCallback (fun f hf ↦ (hbody f hf).mono hs') hended.2

theorem evalText (heng : eng.KeepsLog) (hfm : fm.Suits site) {args : Args} :
    (eng.evalText fm args).KeepsLog site fun _ ↦ True := by
  refine .bind (.textArg hfm) fun code _ ↦ .bind (.evalSpace hfm) fun space _ ↦ ?_
  refine .bind (.act fun _ _ ↦ trivial) fun source _ ↦ .bind .compileFor fun op _ ↦ ?_
  refine .bind (.enter hfm) fun inside hinside ↦ .result_bind (.runChunk heng (.inl hinside)) fun s body hs hbody ↦ ?_
  exact withCallback heng hfm hs hbody

theorem timeBody (heng : eng.KeepsLog) (hfm : fm.Suits site) {args : Args} :
    (eng.timeBody fm args).KeepsLog site fun _ ↦ True := by
  refine .bind (.act fun _ _ ↦ trivial) fun start _ ↦ .result_bind (heng.call hfm) fun s body hs hbody ↦ ?_
  refine .bind (.act fun _ _ ↦ trivial) fun s' hs' stop _ ↦ ?_
  exact withCallback heng hfm ((Strand.site_eq hs').trans hs) fun f hf ↦ (hbody f hf).mono hs'

theorem callWith (heng : eng.KeepsLog) (hfm : fm.Suits site) {f args opts : Value} :
    (eng.callWith fm f args opts).KeepsLog site fun _ ↦ True := by
  cases args with
  | list vs =>
    cases opts with
    | map entries => exact .bind (.textPairs hfm) fun pairs _ ↦ heng.call hfm
    | _ => exact .throw hfm
  | _ => exact .throw hfm

/-- **Builtin commands keep the log.** -/
theorem runBuiltin (heng : eng.KeepsLog) (hfm : fm.Suits site) {b : Builtin} {args : Args} :
    (eng.runBuiltin fm b args).KeepsLog site fun _ ↦ True := by
  cases b with
  | put => exact .putAll hfm
  | echo => exact .write hfm
  | print => exact .write hfm
  | nop => exact .pure trivial
  | all =>
    unfold Engine.runBuiltin
    dsimp only
    split
    · exact .iterateInput hfm fun _ ↦ .put hfm
    · exact .putAll hfm
  | kindOf => exact .putAll hfm
  | constantly => exact .put hfm
  | ns => exact .makeSpace hfm
  | num => exact .bind (.numArg hfm) fun _ _ ↦ .put hfm
  | float64 => exact .bind (.numArg hfm) fun _ _ ↦ .put hfm
  | external => exact .bind (.textArg hfm) fun _ _ ↦ .put hfm
  | fail => exact .throw hfm
  | leave => exact .fail_flow _
  | stop => exact .fail_flow _
  | next => exact .fail_flow _
  | eval => exact .evalText heng hfm
  | call => exact .callWith heng hfm
  | resolve => exact .bind (.textArg hfm) fun _ _ ↦ .resolveWord hfm
  | useMod => exact .bind (.textArg hfm) fun _ _ ↦ .bind (.useModule heng hfm) fun _ _ ↦ .put hfm
  | warn => exact .warn hfm
  | sleep => exact .sleepFor hfm
  | time => exact .timeBody heng hfm

/-! ## Calls -/

theorem callClosure (heng : eng.KeepsLog) (hfm : fm.Suits site) {c : Closure} {args : List Value} {opts : Options} :
    (eng.callClosure fm c args opts).KeepsLog site fun _ ↦ True :=
  .bind (.check hfm) fun _ _ ↦ .bind (.act fun _ _ ↦ trivial) fun _ _ ↦ .bind (.enter hfm) fun _ hinside ↦
    heng.run (.inl hinside)

/-- **Calls keep the log.** -/
theorem callValue (heng : eng.KeepsLog) (hfm : fm.Suits site) {f : Value} {args : List Value} {opts : Options} :
    (eng.callValue fm f args opts).KeepsLog site fun _ ↦ True := by
  cases f with
  | closure id =>
    refine .bind (.act fun _ _ ↦ trivial) fun c _ ↦ ?_
    cases c with
    | none => exact .throw hfm
    | some c => exact .callClosure heng hfm
  | builtin b => exact .bind (.check hfm) fun _ _ ↦ .runBuiltin heng hfm
  | constantly vs => exact .bind (.discard (.check hfm)) fun _ _ ↦ .putAll hfm
  | external program => exact .throw hfm
  | _ => exact .throw hfm

end Comp.KeepsLog

end ValueShell
