import ValueShell.World.Program

/-!
# Frames

What a piece of running code can see: the namespace its declarations go to, the bindings captured around
it, its wiring, its source, the form being run, and how it got here.  Frames are only read.  Running a form
means running its parts with a frame in which that form is the current one, so the current form is always
known and is the right one again afterwards.

There are three ways from one frame to the next: a closure's own scope (`Frame.enter`), a namespace
alone for evaluated code, and the same for a module, which also joins the chain of modules being loaded.
-/

set_option autoImplicit false

namespace ValueShell

/-- What a piece of running code can see. -/
structure Frame where
  config : Config
  /-- The namespace that declarations go to -/
  space : NsId
  /-- The bindings around it, innermost first -/
  outer : List Bindings
  wiring : Wiring
  source : Source
  /-- The form being run -/
  site : Option CallSite
  /-- The number of calls between this frame and the top level -/
  depth : Nat
  /-- The modules being loaded on the way here, outermost first -/
  loading : List FilePath

/-- Fails for a reason, where no form is being run. -/
def Comp.throw {α : Type} (reason : Reason) : Comp α := do
  Comp.note (.raises none reason)
  .fail (.ofReason reason)

namespace Frame

variable {α : Type}

/-- A frame for top-level code. -/
def top (config : Config) (space : NsId) (wiring : Wiring) (source : Source) : Frame :=
  { config, space, wiring, source, outer := [], site := none, depth := 0, loading := [] }

/-! ## Failures -/

/-- The failure for a reason, raised by the form being run. -/
def raise (fm : Frame) (reason : Reason) : Failure :=
  match fm.site with
  | some site => (Failure.ofReason reason).through site
  | none => .ofReason reason

/-- Fails for a reason. -/
def throw (fm : Frame) (reason : Reason) : Comp α := do
  Comp.note (.raises fm.site reason)
  .fail (fm.raise reason)

/-- The value of a result, or a failure for its reason. -/
def check (fm : Frame) (r : Except Reason α) : Comp α :=
  match r with
  | .ok a => pure a
  | .error reason => fm.throw reason

/-- Makes known that an operation starts. -/
def starting (fm : Frame) (site : Option CallSite) : Comp Unit :=
  Comp.note (.starts site fm.source fm.loading)

/-- Runs with a form as the current one.  An exception that leaves it has gone through its site. -/
def atSite (fm : Frame) (site : CallSite) (f : Frame → Comp α) : Comp α := do
  fm.starting site
  ((f { fm with site := some site }).mapFailure (·.through site)).noting (.ends site)

/-- Fails if the evaluator has been interrupted. -/
def checkInterrupt (fm : Frame) : Comp Unit := do
  if ← Comp.act .interrupted then fm.throw .interrupted

/-! ## Variables -/

/-- The cell a name leads to. -/
def find? (fm : Frame) (name : String) : Comp (Option CellId) :=
  Comp.act (.find fm.space fm.outer name)

/-- The value of a variable. -/
def value? (fm : Frame) (name : String) : Comp (Option Value) := do
  match ← fm.find? name with
  | some c => return some (← Comp.act (.read c))
  | none => return none

/-- The cell a name leads to, which has to be there. -/
def cell (fm : Frame) (name : String) : Comp CellId := do
  match ← fm.find? name with
  | some c => return c
  | none => fm.throw (.noSuchVariable name)

/-- The value of a variable, which has to be there. -/
def value (fm : Frame) (name : String) : Comp Value := do
  match ← fm.value? name with
  | some v => return v
  | none => fm.throw (.noSuchVariable name)

/-- Declares a variable. -/
def declare (fm : Frame) (name : String) (v : Value) : Comp CellId :=
  Comp.act (.declare fm.space name v)

/-- The bindings that can be seen, innermost first. -/
def scope (fm : Frame) : Comp (List Bindings) := do
  return (← Comp.act (.bindings fm.space)) :: fm.outer

/-- A closure of code and of what can be seen from here at this moment. -/
def close (fm : Frame) (signature : Signature) (body : Op) (source : Source) : Comp Value := do
  return .closure (← Comp.act (.newClosure fm.space fm.outer signature body source))

/-- A new namespace with every cell that can be seen from here, the builtin ones aside. -/
def derivedSpace (fm : Frame) : Comp NsId := do
  Comp.act (.newSpace (Bindings.flatten (← fm.scope)))

/-! ## Frames for other code -/

/-- A frame for code with a scope of its own, unless calls are nested too deeply already. -/
def inner (fm : Frame) (space : NsId) (outer : List Bindings) (source : Source) :
    Except Failure Frame :=
  if fm.depth + 1 > fm.config.maxCallDepth then
    .error (fm.raise (.stackOverflow fm.config.maxCallDepth))
  else .ok { fm with space, outer, source, site := none, depth := fm.depth + 1 }

/-- Goes on to a frame for code with a scope of its own. -/
def enter (fm : Frame) (space : NsId) (outer : List Bindings) (source : Source) : Comp Frame :=
  match fm.inner space outer source with
  | .ok inside => pure inside
  | .error _ => fm.throw (.stackOverflow fm.config.maxCallDepth)

/-- The frame with a module added to those being loaded. -/
def loadingModule (fm : Frame) (path : FilePath) : Frame :=
  { fm with loading := fm.loading ++ [path] }

/-- The frame wired differently. -/
def withWiring (fm : Frame) (wiring : Wiring) : Frame :=
  { fm with wiring }

/-- Runs with the output collected, and gives what was collected. -/
def captured (fm : Frame) (f : Frame → Comp Unit) : Comp (List Value) := do
  let id ← Comp.act .newCapture
  f (fm.withWiring { fm.wiring with output := Outlet.capture id })
  Comp.act (.takeCapture id)

/-! ## Input and output -/

/-- Puts a value on the output. -/
def put (fm : Frame) (v : Value) : Comp Unit := do
  fm.check (← Comp.act (.put fm.wiring.output.values v))

/-- Puts values on the output, one after another. -/
def putAll (fm : Frame) (vs : List Value) : Comp Unit :=
  Comp.forEach fm.put vs

/-- Writes bytes to the output. -/
def writeBytes (fm : Frame) (bytes : Bytes) : Comp Unit := do
  fm.check (← Comp.act (.writeBytes fm.wiring.output.bytes bytes))

/-- Writes bytes to the error output. -/
def writeErrorBytes (fm : Frame) (bytes : Bytes) : Comp Unit := do
  fm.check (← Comp.act (.writeBytes fm.wiring.error.bytes bytes))

/-- Writes text to the output. -/
def write (fm : Frame) (text : String) : Comp Unit :=
  fm.writeBytes (Utf8.encode text)

/-- Writes text to the error output. -/
def writeError (fm : Frame) (text : String) : Comp Unit :=
  fm.writeErrorBytes (Utf8.encode text)

/-- Warns of something deprecated.  A form warns only the first time it is run. -/
def warn (fm : Frame) (message : String) : Comp Unit := do
  match fm.site with
  | some site =>
    if ← Comp.act (.firstWarning site) then
      fm.writeError s!"deprecation: {message}\n  {site.line}\n"
  | none => fm.writeError s!"deprecation: {message}\n"

/-- The failure with the current form as its place, if it is an exception without one. -/
def annotate (fm : Frame) (e : Failure) : Failure :=
  match e, fm.site with
  | .exception (.mk reason []), some site => (Failure.ofReason reason).through site
  | e, _ => e

end Frame

/-! ## Reading the input -/

namespace Inlet

/-- What a reader of input has so far: the lanes that are not finished, and the bytes of a line that is
not complete. -/
structure Progress where
  lanes : Inlet
  pending : Bytes

/-- Has every lane finished? -/
def isFinished (lanes : Inlet) : Bool :=
  lanes.values.isNone && lanes.bytes.isNone

/-- What an event delivers, and how far the reader is then. -/
def Progress.after (p : Progress) : World.InputEvent → List Value × Progress
  | .value v => ([v], p)
  | .bytes chunk =>
    let (lines, rest) := Lines.split (p.pending ++ chunk)
    (lines.map fun line ↦ .str (Utf8.decodeLossy line), { p with pending := rest })
  | .valuesDone => ([], { p with lanes := { p.lanes with values := none } })
  | .bytesDone => ([], { p with lanes := { p.lanes with bytes := none } })
  | .interrupted => ([], p)

/-- Hands everything that comes in to `f`, in at most `n` rounds: values as they are and bytes as lines,
and what is left of the bytes at the end. -/
def iterate (line : Nat) (f : Value → Comp Unit) : Nat → Progress → Comp Unit
  | 0, _ => .spent
  | n + 1, p => do
    if p.lanes.isFinished then
      Comp.forEach (fun s ↦ f (.str s)) (Lines.unfinished? p.pending).toList
    else
      match ← Comp.act (.receive p.lanes line) with
      | .interrupted => .throw .interrupted
      | event =>
        let (vs, p) := p.after event
        Comp.forEach f vs
        iterate line f n p

end Inlet

/-- Hands everything that comes in on the input to `f`, in at most `n` rounds. -/
def Frame.iterateInput (fm : Frame) (n : Nat) (f : Value → Comp Unit) : Comp Unit := do
  let line ← Comp.act .interruptLine
  (Inlet.iterate line f n ⟨fm.wiring.input, []⟩).mapFailure fm.annotate

end ValueShell
