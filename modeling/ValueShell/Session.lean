import ValueShell.Eval
import ValueShell.World.Schedule

/-!
# Sessions

Using an evaluator from outside.  A run is given something to read (`Feed`) and outlets of its own, and
leaves a `Transcript`: how it ended and what it wrote.  The world it leaves behind is the one the next
run starts from, so variables, modules, files and warnings last from run to run.
-/

set_option autoImplicit false

namespace ValueShell

/-- What a run can read.  A lane that is there holds all that will ever come on it. -/
structure Feed where
  values : Option (List Value)
  bytes : Option (List Bytes)

/-- Nothing to read. -/
def Feed.empty : Feed :=
  ⟨none, none⟩

/-- How a run ended, and what it did that can be seen outside. -/
structure Transcript where
  halt : Task.Halt
  /-- The values put on the output -/
  values : List Value
  /-- The bytes written to the output -/
  out : Bytes
  /-- The values put on the error output -/
  errorValues : List Value
  /-- The bytes written to the error output -/
  err : Bytes
  /-- The nanoseconds each sleep asked for -/
  sleeps : List Nat

/-- The two places where what goes to an outlet is kept. -/
structure Recording where
  values : ValueBufferId
  bytes : ByteBufferId

/-- The outlet whose output is kept.  If values are printed, all of them go to the bytes. -/
def Recording.outlet (r : Recording) (printing : Bool) : Outlet :=
  ⟨if printing then .print (.buffer r.bytes) else .buffer r.values, .buffer r.bytes⟩

namespace World

/-- The number of steps a run is given: more than anyone can wait for. -/
def patience : Nat := 1 <<< 60

/-! ## Streams that lead outside -/

/-- A lane that holds these values, if there is to be one. -/
def supplyValues (w : World) : Option (List Value) → Option ValueChannelId × World
  | some vs =>
    let (id, streams) := w.streams.addValueChannel (Channel.filled vs)
    (some id, { w with streams })
  | none => (none, w)

/-- A lane that holds these chunks of bytes, if there is to be one. -/
def supplyBytes (w : World) : Option (List Bytes) → Option ByteChannelId × World
  | some chunks =>
    let (id, streams) := w.streams.addByteChannel (Channel.filled chunks)
    (some id, { w with streams })
  | none => (none, w)

/-- An inlet from which the feed can be read. -/
def supply (w : World) (feed : Feed) : Inlet × World :=
  let (values, w) := w.supplyValues feed.values
  let (bytes, w) := w.supplyBytes feed.bytes
  (⟨values, bytes⟩, w)

/-- A new place to keep what goes to an outlet. -/
def record (w : World) : Recording × World :=
  let (values, streams) := w.streams.addValueBuffer
  let (bytes, streams) := streams.addByteBuffer
  (⟨values, bytes⟩, { w with streams })

/-! ## Runs -/

/-- Runs a computation with an inlet and outlets of its own. -/
def observe (w : World) (feed : Feed) (printing : Bool) (run : Wiring → Comp Unit) :
    Transcript × World :=
  let (input, w) := w.supply feed
  let (output, w) := w.record
  let (error, w) := w.record
  let slept := w.clock.asked.size
  let program := (run ⟨input, output.outlet printing, error.outlet printing⟩).program
  let (halt, w) := program.run patience w
  ({ halt
     values := w.streams.buffered output.values
     out := w.streams.bufferedBytes output.bytes
     errorValues := w.streams.buffered error.values
     err := w.streams.bufferedBytes error.bytes
     sleeps := w.clock.asked.toList.drop slept }, w)

/-- Compiles a source and runs it at the top level. -/
def topLevel (config : Config) (global : NsId) (source : Source) (wiring : Wiring) : Comp Unit := do
  let op ← Engine.compileFor source global
  (engine patience).runChunk op (Frame.top config global wiring source)

/-- Compiles text as a new source and runs it at the top level. -/
def runText (config : Config) (global : NsId) (name code : String) (wiring : Wiring) : Comp Unit := do
  let source ← Comp.act (.newSource name code none)
  topLevel config global source wiring

/-- Reads a file and runs it at the top level. -/
def runFile (config : Config) (global : NsId) (path : String) (wiring : Wiring) : Comp Unit := do
  match ← Comp.act (.readText path) with
  | .error fault => .throw (.fault s!"{path}: {fault.message}")
  | .ok code =>
    let source ← Comp.act (.newSource path code (some path))
    topLevel config global source wiring

/-- Runs code at the top level. -/
def eval (w : World) (name code : String) (feed : Feed) (printing : Bool) : Transcript × World :=
  w.observe feed printing (runText w.config w.global name code)

/-- Runs a file at the top level. -/
def evalFile (w : World) (path : String) (feed : Feed) (printing : Bool) : Transcript × World :=
  w.observe feed printing (runFile w.config w.global path)

/-! ## Variables, modules and the interrupt -/

/-- The value of a top-level variable. -/
def globalValue? (w : World) (name : String) : Option Value :=
  ((w.store.bindings w.global).find? name).map w.store.read

/-- Declares a top-level variable. -/
def declareGlobal (w : World) (name : String) (v : Value) : World :=
  { w with store := (w.store.declare w.global name v).2 }

/-- The names of the top-level variables, in the order they were declared. -/
def globalNames (w : World) : List String :=
  (w.store.bindings w.global).names

/-- Makes a module available that needs no file. -/
def registerModule (w : World) (name : String) (space : NsId) : World :=
  { w with native := (name, space) :: w.native }

/-- Arms the interrupt again. -/
def resetInterrupt (w : World) : World :=
  { w with interrupt := w.interrupt.reset }

end World

end ValueShell
