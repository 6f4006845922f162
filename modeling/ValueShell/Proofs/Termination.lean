import ValueShell.Proofs.Logic.Execution
import ValueShell.Proofs.ModuleUse
import ValueShell.Proofs.Termination.Ends

/-!
# Code without loops ends

Without `while` forms and pipelines, whatever is asked of an evaluator comes to an end, however it calls itself.

* A call of a closure, evaluated text and a module are all run one level deeper, and there are only so many levels.
  The outer induction, in `engine_ends`, is on the number of levels that are left.
* A builtin command calls what it is given in the frame of its own caller, on the same level.  The inner induction is
  on the weight of the call (`Value.callWeight`).
* Everything else follows the syntax of operations, which is `Comp.Logic.Holds.exec`.

`Request.terminates` is the result for programs.  What it needs of the run is that no text that is made a source in
it has a loop or a pipeline; that a closure is called which has one is impossible if there is none to begin with.
-/

set_option autoImplicit false

namespace ValueShell

/-! ## Modules -/

namespace Comp

variable {S : Setting} {fm : Frame} {eng : Nat → Engine}

/-- Whoever waits for a module strays. -/
theorem Ends.awaitLoad {d : Dialect} {input : Inlet} {waiter : Nat} {path : FilePath} :
    Ends d input (fun _ ↦ Comp.act (.awaitLoad waiter path)) fun _ ↦ False :=
  fun w _ ↦ .inr ⟨0, fun _ _ _ ↦ ⟨_, _, w, .refl, rfl⟩⟩

theorem Ends.nativeSpace {d : Dialect} {input : Inlet} {spec : String} :
    Ends d input (fun _ ↦ Engine.nativeSpace spec) fun _ ↦ True := by
  unfold Engine.nativeSpace
  split
  · exact .pure trivial
  · exact .done (fun _ ↦ rfl) rfl

/-- Using a module ends if running its code does, one level deeper. -/
theorem ending_use (hfm : ending.Fits S fm) {spec : String}
    (hrun : S.depth < S.config.maxCallDepth → ∀ path, ending.Runs (S.loadingModule path).deeper eng) :
    Ends .loopless S.input (fun n ↦ (eng n).useModule fm spec) fun _ ↦ True := by
  have hload (path : FilePath) : Ends .loopless S.input (fun n ↦ (eng n).loadModule fm path) fun _ ↦ True :=
    Logic.Holds.loadModule hfm fun hdepth ↦ hrun hdepth path
  have hclaimed (path : FilePath) :
      Ends .loopless S.input (fun n ↦ (eng n).loadClaimed fm path) fun _ ↦ True := by
    refine .bind (.result (hload path)) fun r _ ↦ ?_
    cases r with
    | ok space => exact .bind (.done (fun _ ↦ rfl) rfl) fun _ _ ↦ .pure trivial
    | error e => exact .bind (.done (fun _ ↦ rfl) rfl) fun _ _ ↦ .fail
  have hfile (path : FilePath) : Ends .loopless S.input (fun n ↦ (eng n).useFile fm spec path) fun _ ↦ True := by
    unfold Engine.useFile
    split
    · exact .throw
    · refine .bind (.done (fun _ ↦ rfl) rfl) fun claim _ ↦ ?_
      cases claim with
      | ready space => exact .pure trivial
      | load => exact hclaimed path
      | wait waiter => exact .bind .awaitLoad fun _ hfalse ↦ hfalse.elim
      | cycle => exact .throw
      | givenUp => exact .throw
  refine .bind .note fun _ _ ↦ .bind .nativeSpace fun native _ ↦ ?_
  cases native with
  | some space => exact .pure trivial
  | none =>
    exact .bind (.done (fun _ ↦ rfl) rfl) fun _ _ ↦ .bind .checked fun path _ ↦ hfile path

/-! ## Engines -/

/-- What commands need of engines they do if running code ends one level deeper. -/
theorem ending_serves
    (hrun : S.depth < S.config.maxCallDepth → ∀ S' : Setting, S'.config = S.config → S'.depth = S.depth + 1 →
      ending.Runs S' engine) : ending.Serves S engine where
  run hdepth := hrun hdepth S.deeper rfl rfl
  use hfm := ending_use hfm fun hdepth path ↦ hrun hdepth (S.loadingModule path).deeper rfl rfl
  read {fm} hfm := by
    obtain rfl : fm.setting = S := hfm.setting
    exact Ends.shift (Ends.iterateInput (Bool.and_eq_true_iff.1 hfm.output).1)

/-- **Running code ends and calls end**, in every setting: there are only so many levels of calls, and less is
called by each command on one level. -/
theorem engine_ends (S : Setting) : ending.Runs S engine ∧ ending.Calls S engine := by
  generalize hlevels : S.config.maxCallDepth - S.depth = levels
  induction levels using Nat.strongRecOn generalizing S with
  | ind levels ihLevels =>
    have hserves : ending.Serves S engine := by
      refine ending_serves fun hdepth S' hconfig hdeeper ↦ ?_
      refine (ihLevels (S'.config.maxCallDepth - S'.depth) ?_ S' rfl).1
      rw [hconfig, hdeeper]
      omega
    have hcalls : ending.Calls S engine := by
      intro fm f args opts hfm
      generalize hweight : Value.callWeight f args opts = weight
      induction weight using Nat.strongRecOn generalizing f args opts with
      | ind weight ihWeight =>
        have hcall : ending.Holds S (fun n ↦ (engine n).callValue fm f args opts) fun _ ↦ True := by
          refine .callValue hserves hfm fun hless ↦ ?_
          exact ihWeight _ (hweight ▸ hless) rfl
        exact Ends.shift hcall
    refine ⟨fun hop hfm ↦ ?_, hcalls⟩
    exact Ends.shift (Logic.Holds.exec hserves hcalls hfm _ hop)

end Comp

/-! ## Requests -/

/-- A program that is orderly stays so when it is run by itself. -/
theorem Prog.Orderly.comes {d : Dialect} {post : LoadState → Prop} {p p' : Prog} {w w' : World}
    (h : p.Orderly d post w.loads) (hcomes : Prog.Comes d p w p' w') : p'.Orderly d post w'.loads := by
  induction hcomes with
  | refl => exact h
  | act hready he _ ih => exact ih (h.2 _ rfl hready he).2
  | note _ ih => exact ih h.2
  | sleep _ _ _ ih => exact ih h

/-- **Without `while` forms and pipelines every program comes to an end.**  In any world whose closures have none of
these, and in which no module is being loaded but those on the way to the request, let the input be closed and the
outlets open.  If no text that the program makes a source of has any of these either, then there is an outcome to
which the program comes with any number of steps that is large enough, in any run with enough rounds. -/
theorem Request.terminates {r : Request} {w : World} (hcode : r.isIn .loopless = true)
    (hclosures : ∀ id c, w.store.closure? id = some c → c.body.isIn .loopless = true)
    (hinput : w.streams.Supplies r.frame.wiring.input) (houtput : r.frame.wiring.output.isOpen = true)
    (herror : r.frame.wiring.error.isOpen = true) (hloads : w.loads.LoadsExactly r.frame.loading)
    (hmade : ∀ n, (r.program n).MakesOnly .loopless w) :
    ∃ o w' steps, ∀ n ≥ steps, ∃ rounds, ∀ m ≥ rounds, (r.program n).run m w = (.ended o, w') := by
  have hends : Comp.Ends .loopless r.frame.wiring.input (fun n ↦ r.run (engine n)) fun _ ↦ True := by
    obtain ⟨hruns, hcalls⟩ := Comp.engine_ends r.frame.setting
    have hserves : Comp.ending.Serves r.frame.setting engine :=
      Comp.ending_serves fun _ S' _ _ ↦ (Comp.engine_ends S').1
    have hfits : Comp.ending.Fits r.frame.setting r.frame := ⟨rfl, houtput, herror⟩
    exact Comp.Logic.Holds.request hruns hcalls hserves r hfits hcode
  obtain ⟨o, w', -, steps, hcomes⟩ | ⟨steps, hstrays⟩ := hends w ⟨hclosures, hinput⟩
  · exact ⟨o, w', steps, fun n hn ↦ (hcomes n hn .done).run⟩
  · obtain ⟨a, next, w', hcomes, hout⟩ := hstrays steps (Nat.le_refl steps) .done
    exfalso
    cases a with
    | newSource name code path =>
      have hin := hmade steps name code path next w' hcomes
      rw [Act.leadsOut, hin] at hout
      cases hout
    | awaitLoad waiter path =>
      have horderly := (Request.balances rfl hcode steps).program hloads
      exact (horderly.comes hcomes).1
    | _ => cases hout

/-! ## Sessions -/

/-- Whatever a session is given to read is closed. -/
theorem World.supply_supplies (w : World) (feed : Feed) :
    (w.supply feed).2.streams.Supplies (w.supply feed).1 := by
  obtain ⟨values, bytes⟩ := feed
  constructor
  · intro id hid
    cases values with
    | none => cases hid
    | some vs =>
      obtain rfl := Option.some.inj hid
      refine ⟨Channel.filled vs, ?_, rfl⟩
      cases bytes <;> simp [supply, supplyValues, supplyBytes, Streams.addValueChannel, Streams.addByteChannel]
  · intro id hid
    cases bytes with
    | none => cases hid
    | some chunks =>
      obtain rfl := Option.some.inj hid
      refine ⟨Channel.filled chunks, ?_, rfl⟩
      cases values <;> simp [supply, supplyValues, supplyBytes, Streams.addValueChannel, Streams.addByteChannel]

theorem Recording.outlet_isOpen (r : Recording) (printing : Bool) : (r.outlet printing).isOpen = true := by
  cases printing <;> rfl

/-- Every session reads a closed input and writes to open outlets. -/
theorem World.wired_closed (w : World) (feed : Feed) (printing : Bool) :
    (w.wired feed printing).2.streams.Supplies (w.wired feed printing).1.input ∧
      (w.wired feed printing).1.output.isOpen = true ∧ (w.wired feed printing).1.error.isOpen = true :=
  ⟨(w.supply_supplies feed).continues ⟨.refl _, .refl _⟩, Recording.outlet_isOpen _ _, Recording.outlet_isOpen _ _⟩

/-! ## Commands that call commands -/

/-- `call $call~ [$eval~ [''] [&on-end=$put~]] [&]`: empty text is run as code, and then a callback is called with its
namespace. -/
def Request.callEval (global : NsId) (wiring : Wiring) : Request :=
  .call (.top .default global wiring default) (.builtin .call)
    [.builtin .call, .list [.builtin .eval, .list [.str ""], .map [(.str "on-end", .builtin .put)]], .map []] []

/-- The empty text is all that is made a source. -/
theorem Request.callEval_makesOnly (n : Nat) (global : NsId) {wiring : Wiring}
    (hopen : wiring.output.isOpen = true) (w : World) :
    ((Request.callEval global wiring).program n).MakesOnly .loopless w := by
  match n with
  | 0 | 1 | 2 => exact .spent
  | n + 3 =>
    have hempty : Dialect.loopless.has "" = true := by decide +kernel
    refine Prog.MakesOnly.act (a := .bindings global) rfl nofun ?_
    refine .act (a := .newSpace _) rfl nofun ?_
    refine .act (a := .newSource "[eval]" "" none) rfl (fun _ _ _ h ↦ by cases h; exact hempty) ?_
    change Prog.MakesOnly .loopless (Engine.compileFor _ _ _) _
    rw [Engine.compileFor_empty rfl]
    refine .act (a := .scope _) rfl nofun ?_
    cases n with
    | zero => exact .spent
    | succ n =>
      change Prog.MakesOnly .loopless ((engine (n + 1)).run (.chunk []) _ _) _
      rw [Engine.run_empty]
      refine .note ?_
      have hready : wiring.output.values.isOpen = true := (Bool.and_eq_true_iff.1 hopen).1
      refine .act (a := .put wiring.output.values _) (World.putReady_of_isOpen hready) nofun ?_
      generalize (Act.put wiring.output.values _).perform _ = answer
      obtain ⟨reply, w'⟩ := answer
      cases reply with
      | ok _ => exact .done
      | error _ => exact .note .done

/-- It is run in a fresh world, with something to read. -/
theorem Request.terminates_callEval :
    let start := (World.fresh .default).wired ⟨some [.str "a"], some []⟩ false
    let r := Request.callEval start.2.global start.1
    start.2.streams.Supplies start.1.input ∧ (∀ n, (r.program n).MakesOnly .loopless start.2) ∧
      ∃ o w' steps, ∀ n ≥ steps, ∃ rounds, ∀ m ≥ rounds, (r.program n).run m start.2 = (.ended o, w') := by
  intro start r
  obtain ⟨hinput, houtput, herror⟩ := (World.fresh .default).wired_closed ⟨some [.str "a"], some []⟩ false
  have hempty : (World.fresh .default).store.closures = #[] := by
    simp [World.fresh, Store.empty]
  have hclosures : ∀ id c, start.2.store.closure? id = some c → c.body.isIn .loopless = true := by
    intro id c hc
    change (World.fresh .default).store.closure? id = some c at hc
    rw [Store.closure?, hempty] at hc
    cases hc
  have hmade (n : Nat) : (r.program n).MakesOnly .loopless start.2 := Request.callEval_makesOnly n _ houtput _
  have hloads : start.2.loads.LoadsExactly [] := LoadState.loadsExactly_nil.2 (by rintro _ ⟨⟩)
  exact ⟨hinput, hmade, Request.terminates rfl hclosures hinput houtput herror hloads hmade⟩

end ValueShell
