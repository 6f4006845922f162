import ValueShell.Proofs.Logic.Commands
import ValueShell.Session

/-!
# What may be asked of an evaluator

A `Request` is what is run from outside.  Sessions run text and files, each time with an engine that has very many
steps (`World.patience`); here a request is made to any engine, so that it can be said what happens with more and
more steps.  `World.eval_halt` and `World.evalFile_halt` say that sessions make such requests.
-/

set_option autoImplicit false

namespace ValueShell

/-- Compiles a source and runs it at the top level. -/
def Engine.topLevel (eng : Engine) (config : Config) (global : NsId) (source : Source) (wiring : Wiring) :
    Comp Unit := do
  let op ← Engine.compileFor source global
  eng.runChunk op (Frame.top config global wiring source)

/-- What may be asked of an evaluator: to run a source, text or a file at the top level, to call a value, or to use a
module. -/
inductive Request where
  | source (config : Config) (global : NsId) (source : Source) (wiring : Wiring)
  | text (config : Config) (global : NsId) (name code : String) (wiring : Wiring)
  | file (config : Config) (global : NsId) (path : String) (wiring : Wiring)
  | call (fm : Frame) (f : Value) (args : List Value) (opts : Options)
  | use (fm : Frame) (spec : String)

namespace Request

/-- Does what is asked. -/
def run (eng : Engine) : Request → Comp Unit
  | source config global src wiring => eng.topLevel config global src wiring
  | text config global name code wiring => do
    let src ← Comp.act (.newSource name code none)
    eng.topLevel config global src wiring
  | file config global path wiring => do
    match ← Comp.act (.readText path) with
    | .error fault => .throw (.fault s!"{path}: {fault.message}")
    | .ok code =>
      let src ← Comp.act (.newSource path code (some path))
      eng.topLevel config global src wiring
  | call fm f args opts => eng.call fm f args opts
  | use fm spec => discard (eng.useModule fm spec)

/-- The program that an engine with `n` steps makes of the request. -/
def program (r : Request) (n : Nat) : Prog :=
  (r.run (engine n)).program

/-- The frame in which the request is met, whatever the source of its code is. -/
def frame : Request → Frame
  | source config global _ wiring | text config global _ _ wiring | file config global _ wiring =>
    Frame.top config global wiring default
  | call fm .. | use fm _ => fm

/-- Is the source in the dialect, if the request is to run one? -/
def isIn (d : Dialect) : Request → Bool
  | source _ _ src _ => d.has src.code
  | _ => true

end Request

/-! ## Sessions -/

/-- What a session sets up: an inlet that holds the feed, and outlets that are recorded. -/
def World.wired (w : World) (feed : Feed) (printing : Bool) : Wiring × World :=
  let (input, w) := w.supply feed
  let (output, w) := w.record
  let (error, w) := w.record
  (⟨input, output.outlet printing, error.outlet printing⟩, w)

namespace Request

variable {config : Config} {global : NsId} {wiring : Wiring}

theorem run_text (name code : String) :
    (Request.text config global name code wiring).run (engine World.patience) =
      World.runText config global name code wiring :=
  rfl

theorem run_file (path : String) :
    (Request.file config global path wiring).run (engine World.patience) =
      World.runFile config global path wiring :=
  rfl

end Request

namespace World

variable (w : World) (feed : Feed) (printing : Bool)

theorem observe_halt (run : Wiring → Comp Unit) :
    (w.observe feed printing run).1.halt =
      ((run (w.wired feed printing).1).program.run patience (w.wired feed printing).2).1 := by
  rw [observe]
  generalize patience = n
  rfl

/-- A session that runs text ends as the request does. -/
theorem eval_halt (name code : String) :
    (w.eval name code feed printing).1.halt =
      (((Request.text w.config w.global name code (w.wired feed printing).1).program patience).run patience
        (w.wired feed printing).2).1 := by
  rw [eval, observe_halt, Request.program, Request.run_text]

/-- A session that runs a file ends as the request does. -/
theorem evalFile_halt (path : String) :
    (w.evalFile path feed printing).1.halt =
      (((Request.file w.config w.global path (w.wired feed printing).1).program patience).run patience
        (w.wired feed printing).2).1 := by
  rw [evalFile, observe_halt, Request.program, Request.run_file]

end World

/-! ## Logics -/

namespace Comp.Logic.Holds

variable {L : Logic} {S : Setting} {eng : Nat → Engine}

theorem topLevel (hrun : L.Runs S eng) {config : Config} {global : NsId} {source : Source} {wiring : Wiring}
    (hfits : L.Fits S (Frame.top config global wiring source)) (h : L.dialect.has source.code = true) :
    L.Holds S (fun n ↦ (eng n).topLevel config global source wiring) fun _ ↦ True :=
  .bind (.compileFor h) fun _ hop ↦ .runChunk (hrun hop hfits)

/-- **What a logic is about holds of every request**, if it holds of running code and of calls. -/
theorem request (hrun : L.Runs S eng) (hcall : L.Calls S eng) (heng : L.Serves S eng) :
    ∀ r : Request, L.Fits S r.frame → r.isIn L.dialect = true →
      L.Holds S (fun n ↦ r.run (eng n)) fun _ ↦ True
  | .source .., hfits, h => .topLevel hrun ⟨hfits.setting, hfits.output, hfits.error⟩ h
  | .text .., hfits, _ =>
    .bind .newSource fun _ hsource ↦ .topLevel hrun ⟨hfits.setting, hfits.output, hfits.error⟩ hsource
  | .file .., hfits, _ => by
    refine .bind (.done rfl rfl) fun text _ ↦ ?_
    cases text with
    | error fault => exact .raise
    | ok code =>
      exact .bind .newSource fun _ hsource ↦ .topLevel hrun ⟨hfits.setting, hfits.output, hfits.error⟩ hsource
  | .call .., hfits, _ => hcall hfits
  | .use .., hfits, _ => .discard (heng.use hfits)

end Comp.Logic.Holds

end ValueShell
