import ValueShell.Proofs.Logic.Execution
import ValueShell.Proofs.Orderly

/-!
# Sequential code loads one module inside another

That running code ends all loads it begins is a logic (`Comp.balances`): nearly all that computations are put
together from leaves the table of modules alone.  What is left is the use of a module.  It is where the chain of a
frame grows, and `Comp.Balances.useModule` says that it ends all loads it begins if the engine does so.  Since
engines are made of nothing but execution and calls, all engines do so (`engine_balances`).
-/

set_option autoImplicit false

namespace ValueShell

/-- The engine ends all loads it begins, when it is given sequential code or a value to call, in a frame that
knows which modules are being loaded. -/
structure Engine.Balances d (eng : Engine) : Prop where
  run : ∀ {op : Op} {fm : Frame}, op.isIn d = true →
    (eng.run op fm).Balances d fm.loading fun _ ↦ True
  call : ∀ {fm : Frame} {f : Value} {args : List Value} {opts : Options},
    (eng.call fm f args opts).Balances d fm.loading fun _ ↦ True

/-- What the use of the module at a place leaves behind.  All loads that were begun have ended, and what had been
loaded still is.  A failure leaves what was known of the module as it was; else the module is loaded, and its
namespace is given. -/
structure LoadState.Uses (s : LoadState) (path : FilePath) (s' : LoadState) (r : Except Failure NsId) : Prop where
  balanced : s.Balanced s'
  failed : ∀ e, r = .error e → s'.status? path = s.status? path
  given : ∀ ns, r = .ok ns → s'.status? path = some (.done ns)

theorem Act.not_concerned_of_isPlain {a : Act} (h : a.isPlain = true) : a.concernsModules = false := by
  cases a with
  | resolveModule | attemptLoad | awaitLoad | finishLoad | abandonLoad => cases h
  | _ => rfl

/-! ## What has nothing to do with modules -/

namespace Comp.Balances

variable {α : Type} {d : Dialect} {P : α → Prop} {chain : List FilePath} {fm : Frame} {eng : Engine}

/-- An act that has nothing to do with modules, whatever it replies. -/
theorem done {a : Act} (h : a.concernsModules = false) : (Comp.act a).Balances d chain fun _ ↦ True :=
  (act h).consequence fun _ _ ↦ trivial

theorem raise {reason : Reason} : (Comp.throw reason : Comp α).Balances d chain P :=
  .bind (.note fun _ _ ↦ trivial) fun _ _ ↦ .fail

theorem throw {reason : Reason} : (fm.throw reason : Comp α).Balances d chain P :=
  .bind (.note fun _ _ ↦ trivial) fun _ _ ↦ .fail

/-- A result that is checked, whatever it is. -/
theorem checked {r : Except Reason α} : (fm.check r).Balances d chain fun _ ↦ True := by
  cases r with
  | ok a => exact .pure trivial
  | error reason => exact .throw

theorem sleepFor {v : Value} : (Engine.sleepFor fm v).Balances d chain fun _ ↦ True := by
  refine .bind .checked fun nanos _ ↦ .bind (.done rfl) fun timer _ ↦ .bind (.done rfl) fun line _ ↦ ?_
  refine .bind (.done rfl) fun rung _ ↦ ?_
  cases rung with
  | true => exact .pure trivial
  | false => exact .throw

theorem iterate {f : Value → Comp Unit} {line n : Nat} {p : Inlet.Progress}
    (h : ∀ v, (f v).Balances d chain fun _ ↦ True) : (Inlet.iterate line f n p).Balances d chain fun _ ↦ True := by
  induction n generalizing p with
  | zero => exact .spent
  | succ n ih =>
    rw [Inlet.iterate]
    split
    · exact .forEach fun text _ ↦ h _
    · refine .bind (.done rfl) fun e _ ↦ ?_
      have hnext : (do
          Comp.forEach f (p.after e).1
          Inlet.iterate line f n (p.after e).2).Balances d chain fun _ ↦ True :=
        .bind (.forEach fun v _ ↦ h v) fun _ _ ↦ ih
      cases e with
      | interrupted => exact .raise
      | _ => exact hnext

theorem iterateInput {f : Value → Comp Unit} {n : Nat} (h : ∀ v, (f v).Balances d chain fun _ ↦ True) :
    (fm.iterateInput n f).Balances d chain fun _ ↦ True :=
  .bind (.done rfl) fun _ _ ↦ .mapFailure (.iterate h)

end Comp.Balances

/-- The logic of ending all loads that are begun. -/
def Comp.balances {d : Dialect} (hd : d.pipelines = false) : Comp.Logic where
  dialect := d
  sequential := hd
  Accepts _ := True
  accepts_capture _ := trivial
  accepts_file _ := trivial
  Holds S m P := ∀ n, (m n).Balances d S.loading P
  deeper h := h
  consequence h hp n := (h n).consequence hp
  ofExcept h _ := .ofExcept h
  bind h hf n := .bind (h n) fun a ha ↦ hf a ha n
  result h n := (h n).result
  mapFailure _ h n := (h n).mapFailure
  act hplain _ _ := .act (Act.not_concerned_of_isPlain hplain)
  put _ _ := .done rfl
  writeBytes _ _ := .done rfl
  sleepFor _ := .sleepFor
  raises _ := .note fun _ _ ↦ trivial
  starts _ := .note fun _ hs ↦ hs
  ends _ := .note fun _ _ ↦ trivial
  repeatWhile _ _ h n := .repeatWhile (h n)

theorem Comp.balances_fits {d : Dialect} (hd : d.pipelines = false) (fm : Frame) :
    (Comp.balances hd).Fits fm.setting fm :=
  ⟨rfl, trivial, trivial⟩

theorem Engine.Balances.runs {d : Dialect} (hd : d.pipelines = false) {eng : Engine} (heng : eng.Balances d)
    (S : Setting) : (Comp.balances hd).Runs S fun _ ↦ eng :=
  fun hop hfm _ ↦ hfm.loading ▸ heng.run hop

/-! ## Modules -/

namespace Comp.Balances

variable {d : Dialect} {chain : List FilePath} {fm : Frame} {eng : Engine}

/-- The module is run in a frame that has it in its chain. -/
theorem loadModule (hd : d.pipelines = false) (heng : eng.Balances d) {path : FilePath} :
    (eng.loadModule fm path).Balances d (fm.loading ++ [path]) fun _ ↦ True := by
  have hload : (Comp.balances hd).Holds (fm.setting.loadingModule path) (fun _ ↦ eng.loadModule fm path)
      fun _ ↦ True :=
    .loadModule (Comp.balances_fits hd fm) fun _ ↦ heng.runs hd _
  exact hload 0

/-- However the load of a module ends, it is reported. -/
theorem loadClaimed (hd : d.pipelines = false) (heng : eng.Balances d) {s : LoadState} {path : FilePath}
    (hs : s.LoadsExactly fm.loading) (hpath : s.status? path = none) :
    (eng.loadClaimed fm path).Orderly d (s.setStatus path .loading) (s.Uses path) := by
  have hloading {s' : LoadState} (hbalanced : (s.setStatus path .loading).Balanced s') :
      s'.status? path = some .loading :=
    (hbalanced.loading path).2 LoadState.status?_setStatus_self
  refine .bind (loadModule hd heng _ (hs.start hpath)).result ?_ ?_
  · rintro s' r ⟨r', hr, hbalanced, -⟩
    obtain rfl := Except.ok.inj hr
    cases r with
    | ok space =>
      have hfinish : (Comp.act (.finishLoad path space)).Orderly d s' fun s'' r ↦
          r = .ok () ∧ s.Balanced s'' ∧ s''.status? path = some (.done space) := by
        refine .act (hloading hbalanced) (fun _ _ ↦ trivial) fun w hw _ ↦ ?_
        rw [Act.perform, hw]
        exact ⟨rfl, hbalanced.finish hpath space, LoadState.status?_finish_self⟩
      refine .bind hfinish ?_ fun _ _ hr ↦ by cases hr.1
      rintro s'' _ ⟨-, hs'', hdone⟩
      refine .ofExcept (r := .ok space) ⟨hs'', ?_, ?_⟩
      · rintro _ ⟨⟩
      · rintro _ ⟨⟩
        exact hdone
    | error e =>
      have habandon : (Comp.act (.abandonLoad path)).Orderly d s' fun s'' r ↦
          r = .ok () ∧ s.Balanced s'' ∧ s''.status? path = none := by
        refine .act (hloading hbalanced) (fun _ _ ↦ trivial) fun w hw _ ↦ ?_
        rw [Act.perform, hw]
        exact ⟨rfl, hbalanced.abandon hpath, LoadState.status?_abandon_self⟩
      refine .bind habandon ?_ fun _ _ hr ↦ by cases hr.1
      rintro s'' _ ⟨-, hs'', hnone⟩
      refine .ofExcept (r := .error e) ⟨hs'', fun _ _ ↦ hnone.trans hpath.symm, ?_⟩
      rintro _ ⟨⟩
  · rintro s' e ⟨r, ⟨⟩, -⟩

/-- Whoever asks to load a module that is not on the way there does not find it being loaded. -/
theorem attemptLoad {s : LoadState} {path : FilePath} (hs : s.LoadsExactly chain) (hpath : path ∉ chain) :
    (Comp.act (.attemptLoad path chain)).Orderly d s fun s' r ↦
      (r = .ok .load ∧ s.status? path = none ∧ s' = s.setStatus path .loading) ∨
        ∃ ns, r = .ok (.ready ns) ∧ s.status? path = some (.done ns) ∧ s' = s := by
  have hsafe : s.status? path ≠ some .loading := fun hloading ↦ hpath ((hs.mem path).2 hloading)
  refine .act hsafe (fun _ _ ↦ trivial) fun w hw _ ↦ ?_
  rw [Act.perform, hw]
  obtain ⟨hnone, hattempt⟩ | ⟨ns, hdone, hattempt⟩ := s.attempt_of_not_loading chain hsafe
  · rw [hattempt]
    exact .inl ⟨rfl, hnone, rfl⟩
  · rw [hattempt]
    exact .inr ⟨ns, rfl, hdone, rfl⟩

theorem useFile (hd : d.pipelines = false) (heng : eng.Balances d) {spec : String} {path : FilePath} {s : LoadState}
    (hs : s.LoadsExactly fm.loading) : (eng.useFile fm spec path).Orderly d s (s.Uses path) := by
  rw [Engine.useFile]
  split
  · exact .bind (Q := fun s' _ ↦ s' = s) (fun _ _ hk ↦ ⟨trivial, hk s _ rfl⟩)
      (by rintro s' _ rfl; exact .ofExcept (r := .error _) ⟨.refl s', fun _ _ ↦ rfl, nofun⟩)
      (by rintro s' _ rfl; exact ⟨.refl s', fun _ _ ↦ rfl, nofun⟩)
  · rename_i hpath
    refine .bind (attemptLoad hs (by simpa using hpath)) ?_ ?_
    · rintro s' claim (⟨hclaim, hnone, rfl⟩ | ⟨ns, hclaim, hdone, rfl⟩)
      · cases hclaim
        exact loadClaimed hd heng hs hnone
      · cases hclaim
        refine .ofExcept (r := .ok ns) ⟨.refl s', nofun, ?_⟩
        rintro _ ⟨⟩
        exact hdone
    · rintro s' e (⟨⟨⟩, -⟩ | ⟨ns, ⟨⟩, -⟩)

/-- A module on the way to the code that asks for it is refused. -/
theorem refusesModule {k : Except Failure NsId → Prog} {spec : String} {path : FilePath}
    (h : path ∈ fm.loading) :
    RefusesModule (fun r ↦ (do eng.useFile fm spec (← fm.check r) : Comp NsId) k) spec path := by
  refine ⟨fm, k, fun _ ↦ rfl, ?_⟩
  change eng.useFile fm spec path k = _
  rw [Engine.useFile, if_pos (by simpa using h)]

theorem useModule (hd : d.pipelines = false) (heng : eng.Balances d) {spec : String} :
    (eng.useModule fm spec).Balances d fm.loading fun _ ↦ True := by
  have hnative : (Engine.nativeSpace spec).Balances d fm.loading fun _ ↦ True := by
    rw [Engine.nativeSpace]
    split
    · exact .pure trivial
    · exact .done rfl
  refine .bind (.note fun _ hs ↦ hs) fun _ _ ↦ .bind hnative fun native _ ↦ ?_
  cases native with
  | some space => exact .pure trivial
  | none =>
    -- the answer decides what follows it, so the act cannot be looked at alone
    intro s hs post k hk
    refine ⟨trivial, fun w hw _ _ ↦ ?_⟩
    have hfile (path : FilePath) : (eng.useFile fm spec path).Balances d fm.loading fun _ ↦ True :=
      fun s hs ↦ (useFile hd heng hs).consequence fun _ _ hr ↦ ⟨hr.balanced, fun _ _ ↦ trivial⟩
    have hrest (r : Except Reason FilePath) :
        (do eng.useFile fm spec (← fm.check r)).Balances d fm.loading fun _ ↦ True :=
      .bind .checked fun path _ ↦ hfile path
    refine ⟨?_, hrest _ _ (hw ▸ hs) post k fun s' r hr ↦ hk s' r (hw ▸ hr)⟩
    generalize (Act.perform (.resolveModule spec _) w).1 = r
    cases r with
    | error reason => trivial
    | ok path => exact fun hloading ↦ refusesModule ((hs.mem path).2 hloading)

end Comp.Balances

/-! ## Engines -/

section Engines

variable {d : Dialect} (hd : d.pipelines = false) {eng : Engine}

theorem Engine.Balances.serves (heng : eng.Balances d) (S : Setting) :
    (Comp.balances hd).Serves S fun _ ↦ eng where
  run _ := heng.runs hd S.deeper
  use hfm _ := hfm.loading ▸ .useModule hd heng
  read _ _ := .iterateInput fun _ ↦ .bind (.done rfl) fun _ _ ↦ .checked

theorem Engine.Balances.calls (heng : eng.Balances d) (S : Setting) : (Comp.balances hd).Calls S fun _ ↦ eng :=
  fun hfm _ ↦ hfm.loading ▸ heng.call

include hd

/-- **All engines end all loads they begin.** -/
theorem engine_balances (n : Nat) : (engine n).Balances d := by
  induction n with
  | zero => exact ⟨fun _ ↦ .spent, .spent⟩
  | succ n ih =>
    constructor
    · intro op fm hop
      have hexec : (Comp.balances hd).Holds fm.setting (fun _ ↦ op.exec (engine n) fm) fun _ ↦ True :=
        .exec (ih.serves hd _) (ih.calls hd _) (Comp.balances_fits hd fm) op hop
      exact hexec 0
    · intro fm f args opts
      have hfm := Comp.balances_fits hd fm
      have hcall : (Comp.balances hd).Holds fm.setting (fun _ ↦ (engine n).callValue fm f args opts) fun _ ↦ True :=
        .callValue (ih.serves hd _) hfm fun _ ↦ ih.calls hd _ hfm
      exact hcall 0

end Engines

end ValueShell
