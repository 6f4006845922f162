import ValueShell.Frame

/-!
# Running code from inside code

Operations call closures, closures run operations, and evaluated text and modules bring new operations
along, so evaluation cannot be one recursion over operations alone.  An `Engine` is what evaluation has
for everything beyond the operation in hand: how to run another operation, how to call a value, and how
often loops may go round.  Each call inside a call is given an engine with fewer steps left.

This file has what needs nothing but an engine: compiling and running a chunk in a frame of its own, and
loading modules.
-/

set_option autoImplicit false

namespace ValueShell

/-- The operation a source stands for in a scope.  Nothing runs if there is a fault. -/
def compile (source : Source) (scope : Scope) : Except Failure Op :=
  match parse source.code.toList with
  | .error (fault, offset) => .error (.parse fault (source.location offset))
  | .ok tree =>
    match tree.lower source scope with
    | .error (fault, offset) => .error (.compile fault (source.location offset))
    | .ok op => .ok op

/-- What evaluation uses for everything beyond the operation in hand. -/
structure Engine where
  /-- Runs an operation in a frame -/
  run : Op → Frame → Comp Unit
  /-- Calls a value with arguments and options -/
  call : Frame → Value → List Value → Options → Comp Unit
  /-- The number of rounds loops may take -/
  turns : Nat

/-- Ends a chunk in a frame of its own with its outcome: a `return` ends it well, and any other jump has got
out of what it belongs to. -/
def Frame.settle (fm : Frame) : Outcome → Comp Unit
  | .error (.flow .leave) => pure ()
  | .error (.flow f) => fm.throw (.strayFlow f)
  | o => .ofExcept o

namespace Engine

/-- Compiles a source to run in a namespace with only the builtins around it. -/
def compileFor (source : Source) (space : NsId) : Comp Op := do
  Comp.ofExcept (compile source (← Comp.act (.scope space)))

/-- Runs a chunk in a frame of its own. -/
def runChunk (eng : Engine) (op : Op) (fm : Frame) : Comp Unit := do
  fm.settle (← (eng.run op fm).result)

/-! ## Modules -/

/-- Reads, compiles and runs the module at a place, and gives its namespace. -/
def loadModule (eng : Engine) (fm : Frame) (path : FilePath) : Comp NsId := do
  match ← Comp.act (.readText path.text) with
  | .error fault => fm.throw (.fault s!"{path.text}: {fault.message}")
  | .ok code =>
    let source ← Comp.act (.newSource path.text code (some path.text))
    let space ← Comp.act (.newSpace [])
    let op ← compileFor source space
    let inside ← fm.enter space [] source
    eng.runChunk op (inside.loadingModule path)
    return space

/-- Loads a module this caller has been given to load, and reports how that ended. -/
def loadClaimed (eng : Engine) (fm : Frame) (path : FilePath) : Comp NsId := do
  match ← (eng.loadModule fm path).result with
  | .ok space =>
    Comp.act (.finishLoad path space)
    return space
  | .error e =>
    Comp.act (.abandonLoad path)
    Comp.fail e

/-- The namespace of a module: it is loaded unless that has been done. -/
def useFile (eng : Engine) (fm : Frame) (spec : String) (path : FilePath) : Comp NsId := do
  if fm.loading.contains path then fm.throw (.moduleCycle spec)
  else
    match ← Comp.act (.attemptLoad path fm.loading) with
    | .ready space => return space
    | .load => eng.loadClaimed fm path
    | .wait waiter =>
      match ← Comp.act (.awaitLoad waiter path) with
      | .ready space => return space
      | .load => eng.loadClaimed fm path
      | _ => fm.throw .interrupted
    | _ => fm.throw (.moduleCycle spec)

/-- The native module with a name.  The specifier of a file is never one. -/
def nativeSpace (spec : String) : Comp (Option NsId) :=
  if Modules.isPath spec then pure none else Comp.act (.nativeModule spec)

/-- The module that a specifier in this frame's code means. -/
def useModule (eng : Engine) (fm : Frame) (spec : String) : Comp NsId := do
  Comp.note (.uses spec fm.loading)
  match ← nativeSpace spec with
  | some space => return space
  | none =>
    let path ← fm.check (← Comp.act (.resolveModule spec (fm.source.path.bind parentPath)))
    eng.useFile fm spec path

end Engine

end ValueShell
