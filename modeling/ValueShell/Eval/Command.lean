import ValueShell.Duration
import ValueShell.Eval.Engine

/-!
# What the builtin commands do

Builtin commands run in the frame of the form that calls them, so they see its wiring, its variables and
its call site.  Their arguments fit their signatures already.
-/

set_option autoImplicit false

namespace ValueShell

/-! ## Arguments -/

/-- The text of an argument that has to be text. -/
def Frame.textArg (fm : Frame) (what : String) (v : Value) : Comp String :=
  match v with
  | .str s => return s
  | v => fm.throw (.wrongKind what "string" v)

/-- The number an argument stands for. -/
def Frame.numArg (fm : Frame) (v : Value) : Comp Num :=
  match v.toNum? with
  | some n => return n
  | none => fm.throw (.wrongKind "argument" "number" v)

/-- The texts of values with a separator between them; none when it is nil. -/
def joinTexts (vs : List Value) (separator : Option Value) : String :=
  ((separator.map Value.text).getD "").intercalate (vs.map Value.text)

/-- How long a value asks to sleep, in nanoseconds. -/
def sleepNanos (v : Value) : Except Reason Nat :=
  let duration := match v with
    | .num n => Duration.ofNum n
    | .str s => Duration.ofText s
    | _ => .error .invalid
  match duration with
  | .ok nanos => .ok nanos
  | .error .invalid => .error .invalidSleepDuration
  | .error .negative => .error .negativeSleepDuration

namespace Engine

/-! ## Commands that need more than a line -/

/-- Makes a namespace of the entries of a map, whose keys have to be text. -/
def makeSpace (fm : Frame) : Value → Comp Unit
  | .map entries => do
    let pairs ← Comp.mapEach (fun (k, v) ↦ do return (← fm.textArg "namespace key" k, v)) entries
    fm.put (.ns (← Comp.act (.newSpaceOf pairs)))
  | v => fm.throw (.wrongKind "argument" "map" v)

/-- The outcome of a body and of a callback, which is called only if it is given. -/
def withCallback (eng : Engine) (fm : Frame) (body : Outcome) (callback : Option Value) (arg : Value) :
    Comp Unit :=
  match callback with
  | none => .ofExcept body
  | some f => do
    let ended ← (eng.call fm f [arg] []).result
    Comp.ofExcept (Outcome.withCallback body ended)

/-- The namespace in which text is run as code: one with every cell that can be seen from here, or one
that is given. -/
def evalSpace (fm : Frame) : Option Value → Comp NsId
  | none => fm.derivedSpace
  | some (.ns space) => pure space
  | some v => fm.throw (.wrongKind "&ns" "namespace" v)

/-- Runs text as code. -/
def evalText (eng : Engine) (fm : Frame) (args : Args) : Comp Unit := do
  let code ← fm.textArg "code" (args.param 0)
  let space ← evalSpace fm (args.option? "ns")
  let source ← Comp.act (.newSource "[eval]" code none)
  let op ← compileFor source space
  let inside ← fm.enter space [] source
  let body ← (eng.runChunk op inside).result
  eng.withCallback fm body (args.option? "on-end") (.ns space)

/-- Calls a value with a list of arguments and a map of options. -/
def callWith (eng : Engine) (fm : Frame) (f : Value) : Value → Value → Comp Unit
  | .list args, .map entries => do
    let pairs ← Comp.mapEach (fun (k, v) ↦ do return (← fm.textArg "option key" k, v)) entries
    eng.call fm f args (Options.ofPairs pairs)
  | .list _, opts => fm.throw (.wrongKind "option map" "map" opts)
  | args, _ => fm.throw (.wrongKind "argument list" "list" args)

/-- Says what a command word would run. -/
def resolveWord (fm : Frame) (name : String) : Comp Unit := do
  if Name.isSpecial name then fm.put (.str "special")
  else
    match ← Name.command name fun var ↦ do return (← fm.find? var).isSome with
    | .external program => fm.put (.str s!"(external {program})")
    | .unbound var => fm.throw (.noSuchVariable var)
    | .function var =>
      let v ← fm.value var
      if v.callable then fm.put (.str s!"${var}")
      else fm.throw (.wrongKind "command" "callable" v)

/-- Waits as long as is asked for, or until the evaluator is interrupted. -/
def sleepFor (fm : Frame) (v : Value) : Comp Unit := do
  let nanos ← fm.check (sleepNanos v)
  let timer ← Comp.act (.startTimer nanos)
  let line ← Comp.act .interruptLine
  if ← Comp.act (.awaitTimer timer line) then pure () else fm.throw .interrupted

/-- Runs a body, and tells a callback how many seconds it took. -/
def timeBody (eng : Engine) (fm : Frame) (args : Args) : Comp Unit := do
  let start ← Comp.act .now
  let body ← (eng.call fm (args.param 0) [] []).result
  let stop ← Comp.act .now
  eng.withCallback fm body (args.option? "on-end")
    (.num (.float (Float.ofNat (stop - start) / 1000)))

/-! ## All commands -/

/-- Runs a builtin command. -/
def runBuiltin (eng : Engine) (fm : Frame) (b : Builtin) (args : Args) : Comp Unit :=
  match b with
  | .put => fm.putAll (args.items 0)
  | .echo => fm.write (joinTexts (args.items 0) (args.option? "sep") ++ "\n")
  | .print => fm.write (joinTexts (args.items 0) (args.option? "sep"))
  | .nop => pure ()
  | .all =>
    match args.items 0 with
    | [] => fm.iterateInput eng.turns fm.put
    | vs => fm.putAll vs
  | .kindOf => fm.putAll ((args.items 0).map fun v ↦ .str v.kind)
  | .constantly => fm.put (.constantly (args.items 0))
  | .ns => makeSpace fm (args.param 0)
  | .num => do fm.put (.num (← fm.numArg (args.param 0)))
  | .float64 => do fm.put (.num (.float (← fm.numArg (args.param 0)).toFloat))
  | .external => do fm.put (.external (← fm.textArg "external name" (args.param 0)))
  | .fail => fm.throw (.fail (args.param 0))
  | .leave => .fail (.flow .leave)
  | .stop => .fail (.flow .stop)
  | .next => .fail (.flow .next)
  | .eval => eng.evalText fm args
  | .call => eng.callWith fm (args.param 0) (args.param 1) (args.param 2)
  | .resolve => do resolveWord fm (← fm.textArg "command" (args.param 0))
  | .useMod => do
    let spec ← fm.textArg "module spec" (args.param 0)
    fm.put (.ns (← eng.useModule fm spec))
  | .warn => fm.warn (args.param 0).text
  | .sleep => sleepFor fm (args.param 0)
  | .time => eng.timeBody fm args

/-! ## Calls -/

/-- The variables a call of a closure starts with. -/
def callVariables (sig : Signature) (args : Args) : List (String × Value) :=
  sig.params.zip args.positional ++ args.options ++
    match sig.restOptions with
    | some name => [(name, Value.ofPairs (args.extra.map fun (n, v) ↦ (Value.str n, v)))]
    | none => []

/-- Calls a closure in a scope of its own. -/
def callClosure (eng : Engine) (fm : Frame) (c : Closure) (args : List Value) (opts : Options) :
    Comp Unit := do
  let bound ← fm.check (c.signature.bind args opts)
  let space ← Comp.act (.newSpaceOf (callVariables c.signature bound))
  let inside ← fm.enter space c.captured c.source
  eng.run c.body inside

/-- Calls a value as a command. -/
def callValue (eng : Engine) (fm : Frame) (f : Value) (args : List Value) (opts : Options) :
    Comp Unit := do
  match f with
  | .closure id =>
    match ← Comp.act (.closure id) with
    | some c => eng.callClosure fm c args opts
    | none => fm.throw (.wrongKind "command" "callable" f)
  | .builtin b =>
    let bound ← fm.check (b.signature.bind args opts)
    eng.runBuiltin fm b bound
  | .constantly vs =>
    discard (fm.check (Signature.empty.bind args opts))
    fm.putAll vs
  | .external program => fm.throw (.externalCommand program)
  | f => fm.throw (.wrongKind "command" "callable" f)

end Engine

end ValueShell
