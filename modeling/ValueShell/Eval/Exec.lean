import ValueShell.Eval.Command

/-!
# Running operations

`Op.exec` runs an operation in a frame and `Expr.eval` gives the values of a word.  Both follow the
structure of what they run; whatever leads out of it, such as a call or another round of a loop, goes
through the engine.

Bodies of special forms are lambdas.  They are evaluated to closures and called without arguments, so
each has a scope of its own.
-/

set_option autoImplicit false

namespace ValueShell

/-! ## Pieces without recursion -/

/-- The values for `count` targets, of which the one at `rest` takes a list; none if their number does
not fit. -/
def distribute (count : Nat) (rest : Option Nat) (vs : List Value) : Except Reason (List Value) :=
  match rest with
  | some i =>
    if count - 1 ≤ vs.length then .ok (gather i (vs.length - (count - 1)) vs)
    else .error (.arityMismatch "assignment right-hand-side" s!"{count - 1} or more" vs.length)
  | none =>
    if vs.length = count then .ok vs
    else .error (.arityMismatch "assignment right-hand-side" (toString count) vs.length)

/-- The one value a word gives. -/
def Frame.single (fm : Frame) (what : String) : List Value → Comp Value
  | [v] => pure v
  | vs => fm.throw (.arityMismatch what "1" vs.length)

/-- The text of a value as a part of a word. -/
def partText (v : Value) : Except Reason String :=
  match v with
  | .str s => .ok s
  | .num n => .ok n.text
  | v => .error (.wrongKind "compound part" "string or number" v)

/-- Every text so far with every value of the next part behind it. -/
def appendPart (texts : List String) (vs : List Value) : Except Reason (List String) :=
  match texts with
  | [] => .ok []
  | texts => do
    let pieces ← vs.mapM partText
    return texts.flatMap fun t ↦ pieces.map (t ++ ·)

/-- What a loop does after a round: whether there is another one. -/
def anotherRound (o : Outcome) : Except Failure Bool :=
  match o with
  | .ok () | .error (.flow .next) => .ok true
  | .error (.flow .stop) => .ok false
  | .error e => .error e

/-- The outcome of a declared function's body: a `return` ends it well. -/
def stopReturn : Outcome → Outcome
  | .error (.flow .leave) => .ok ()
  | o => o

/-- The elements at every key, of every value in turn. -/
def Frame.indexAll (fm : Frame) (keys : List Value) : List Value → Comp (List Value)
  | [] => return []
  | base :: bases => do
    let first ← Comp.mapEach (fun key ↦ do fm.check (← Comp.act (.index base key))) keys
    let others ← fm.indexAll keys bases
    return first ++ others

/-- What a loop goes over. -/
def Frame.itemsOf (fm : Frame) : Value → Comp (List Value)
  | .list items => return items
  | .map entries => return entries.map (·.1)
  | v => fm.throw (.wrongKind "iterable" "list or map" v)

/-- Puts a value into the place named by a cell and a path. -/
def Frame.assign (fm : Frame) (c : CellId) (path : List Value) (v : Value) : Comp Unit := do
  match path with
  | [] => Comp.act (.write c v)
  | path =>
    let base ← Comp.act (.read c)
    let updated ← fm.check (← Comp.act (.assoc base path v))
    Comp.act (.write c updated)

/-- Declares variables with values; a target without a name throws its value away. -/
def Frame.declareAll (fm : Frame) : List (Option String) → List Value → Comp Unit
  | some name :: targets, v :: vs => do
    discard (fm.declare name v)
    fm.declareAll targets vs
  | none :: targets, _ :: vs => fm.declareAll targets vs
  | _, _ => pure ()

/-- Opens the file of a redirection. -/
def Frame.openFile (fm : Frame) (path : Value) (append : Bool) : Comp Outlet := do
  match path with
  | .str name =>
    match ← Comp.act (.openFile name append) with
    | .ok id => return .file id
    | .error fault => fm.throw (.fault s!"{name}: {fault.message}")
  | v => fm.throw (.wrongKind "redirection target" "string" v)

/-- The outlet another stream leads to. -/
def Frame.outletOf (fm : Frame) (wiring : Wiring) (fd : Nat) : Comp Outlet :=
  match wiring.outlet? fd with
  | some outlet => return outlet
  | none => fm.throw (.badValue "redirection source" "1 or 2" (toString fd))

/-- The frame of a stage that reads one pipe and writes another; the ends of a pipeline are wired
like the pipeline itself. -/
def Frame.between (fm : Frame) (reads writes : Option Pipe) : Frame :=
  let input := match reads with
    | some p => { values := some p.values, bytes := some p.bytes : Inlet }
    | none => fm.wiring.input
  let output := match writes with
    | some p => { values := .channel p.values, bytes := .channel p.bytes : Outlet }
    | none => fm.wiring.output
  fm.withWiring { fm.wiring with input, output }

/-- As many new pipes. -/
def newPipes (capacity : Nat) : Nat → Comp (List Pipe)
  | 0 => return []
  | n + 1 => do
    let pipe ← Comp.act (.newPipe capacity)
    let others ← newPipes capacity n
    return pipe :: others

/-- A stage as a program: it closes its ends of the pipes when it ends, however it ends. -/
def stageProgram (reads writes : Option Pipe) (m : Comp Unit) : Prog :=
  m fun o ↦ .act (.endStage reads writes) fun _ ↦ .done o

/-- Calls a body without arguments. -/
def Engine.callBody (eng : Engine) (fm : Frame) (body : Value) : Comp Unit :=
  eng.call fm body [] []

/-- Runs a body that is given as a word. -/
def Engine.runBody (eng : Engine) (fm : Frame) (word : Comp (List Value)) : Comp Unit := do
  let body ← fm.single "body" (← word)
  eng.callBody fm body

/-- One round of a loop. -/
def Engine.round (eng : Engine) (fm : Frame) (body : Value) : Comp Bool := do
  Comp.ofExcept (anotherRound (← (eng.callBody fm body).result))

/-- The rounds of a loop over items. -/
def Engine.rounds (eng : Engine) (fm : Frame) (c : CellId) (body : Value) : List Value → Comp Unit
  | [] => pure ()
  | item :: items => do
    fm.checkInterrupt
    Comp.act (.write c item)
    if ← eng.round fm body then eng.rounds fm c body items

/-! ## Words and operations -/

mutual

/-- The values of a word. -/
def Expr.eval (eng : Engine) (fm : Frame) : Expr → Comp (List Value)
  | .literal text => return [.str text]
  | .variable name explode => do
    let v ← fm.value name
    if explode then
      match v with
      | .list items => return items
      | v => fm.throw (.wrongKind "exploded value" "list" v)
    else return [v]
  | .capture op => fm.captured fun fm ↦ op.exec eng fm
  | .list items => return [.list (← evalAll eng fm items)]
  | .map pairs => return [Value.ofPairs (← evalPairs eng fm pairs)]
  | .lambda l => return [← l.instantiate eng fm]
  | .indexed head indices => do
    let vs ← head.eval eng fm
    evalIndices eng fm vs indices
  | .compound parts => return (← evalParts eng fm [""] parts).map .str

/-- The values of several words. -/
def evalAll (eng : Engine) (fm : Frame) : List Expr → Comp (List Value)
  | [] => return []
  | e :: es => do
    let first ← e.eval eng fm
    let others ← evalAll eng fm es
    return first ++ others

/-- The one value each of several words gives. -/
def evalEach (eng : Engine) (fm : Frame) (what : String) : List Expr → Comp (List Value)
  | [] => return []
  | e :: es => do
    let first ← fm.single what (← e.eval eng fm)
    let others ← evalEach eng fm what es
    return first :: others

/-- The pairs of a map; each key and each value is a single value. -/
def evalPairs (eng : Engine) (fm : Frame) : List (Expr × Expr) → Comp (List (Value × Value))
  | [] => return []
  | (k, v) :: pairs => do
    let key ← fm.single "map key" (← k.eval eng fm)
    let value ← fm.single "map value" (← v.eval eng fm)
    let others ← evalPairs eng fm pairs
    return (key, value) :: others

/-- The elements of values, level by level. -/
def evalIndices (eng : Engine) (fm : Frame) (vs : List Value) : List (List Expr) → Comp (List Value)
  | [] => return vs
  | index :: indices => do
    let keys ← evalAll eng fm index
    let elements ← fm.indexAll keys vs
    evalIndices eng fm elements indices

/-- The texts of a word of several parts. -/
def evalParts (eng : Engine) (fm : Frame) (texts : List String) : List Expr → Comp (List String)
  | [] => return texts
  | part :: parts => do
    let vs ← part.eval eng fm
    let texts ← fm.check (appendPart texts vs)
    evalParts eng fm texts parts

/-- The options of a form.  One without a value is true. -/
def evalOptions (eng : Engine) (fm : Frame) : List (String × Option Expr) → Comp Options
  | [] => return []
  | (name, none) :: opts => return (name, .bool true) :: (← evalOptions eng fm opts)
  | (name, some e) :: opts => do
    let v ← fm.single "option value" (← e.eval eng fm)
    let others ← evalOptions eng fm opts
    return (name, v) :: others

/-- The defaults of a lambda's options, at the moment the lambda becomes a closure. -/
def evalDefaults (eng : Engine) (fm : Frame) : List (String × Expr) → Comp (List (String × Value))
  | [] => return []
  | (name, e) :: options => do
    let v ← fm.single "option default" (← e.eval eng fm)
    let others ← evalDefaults eng fm options
    return (name, v) :: others

/-- The closure of a lambda: its scope is what can be seen at this moment. -/
def LambdaDef.instantiate (eng : Engine) (fm : Frame) : LambdaDef → Comp Value
  | .mk source params rest options restOptions body => do
    let defaults ← evalDefaults eng fm options
    fm.close ⟨params, rest, defaults, restOptions⟩ body source

/-- Runs a body if there is one. -/
def runOptional (eng : Engine) (fm : Frame) : Option Expr → Comp Unit
  | none => pure ()
  | some e => eng.runBody fm (e.eval eng fm)

/-- The wiring of a form after its redirections, in their order. -/
def redirected (eng : Engine) (fm : Frame) (wiring : Wiring) : List Redirect → Comp Wiring
  | [] => return wiring
  | .dup fd source :: redirs => do
    let outlet ← fm.outletOf wiring source
    let wiring ← fm.check (wiring.setOutlet fd outlet)
    redirected eng fm wiring redirs
  | .file fd path append :: redirs => do
    let name ← fm.single "redirection target" (← path.eval eng fm)
    let outlet ← fm.openFile name append
    let wiring ← fm.check (wiring.setOutlet fd outlet)
    redirected eng fm wiring redirs

/-- The value a command word stands for. -/
def Head.eval (eng : Engine) (fm : Frame) : Head → Comp Value
  | .function var => fm.value var
  | .external program => return .external program
  | .word e => do fm.single "command" (← e.eval eng fm)

/-- Assigns values to places, one after another. -/
def assignAll (eng : Engine) (fm : Frame) : List Place → List Value → Comp Unit
  | .mk name indices :: places, v :: vs => do
    let c ← fm.cell name
    let path ← evalEach eng fm "index" indices
    fm.assign c path v
    assignAll eng fm places vs
  | _, _ => pure ()

/-- Puts the first value whose truth is `stopOn`, or the last. -/
def evalLogic (eng : Engine) (fm : Frame) (stopOn : Bool) (last : Value) : List Expr → Comp Unit
  | [] => fm.put last
  | e :: es => do
    let vs ← e.eval eng fm
    match vs.find? (·.truthy == stopOn) with
    | some v => fm.put v
    | none => evalLogic eng fm stopOn (vs.getLastD last) es

/-- Runs the first branch whose condition holds. -/
def runBranches (eng : Engine) (fm : Frame) (otherwise : Comp Unit) : List (Expr × Expr) → Comp Unit
  | [] => otherwise
  | (cond, body) :: branches => do
    let vs ← cond.eval eng fm
    if vs.all Value.truthy then eng.runBody fm (body.eval eng fm)
    else runBranches eng fm otherwise branches

/-- Runs the handler of a `try` with the exception it catches. -/
def runHandler (eng : Engine) (fm : Frame) (e : Exception) :
    Option (Option String × Expr) → Comp Unit
  | none => .fail (.exception e)
  | some (var, body) => do
    match var with
    | some name => discard (fm.declare name (.exception e))
    | none => pure ()
    eng.runBody fm (body.eval eng fm)

/-- Runs an operation. -/
def Op.exec (eng : Engine) : Op → Frame → Comp Unit
  | .chunk ops, fm => do
    fm.starting none
    execChunk eng fm ops
  | .pipeline site stages, fm => fm.atSite site fun fm ↦ do
    let pipes ← newPipes (max fm.config.valueBuffer 1) (stages.length - 1)
    let outcomes ← Comp.fork (execStages eng fm none pipes stages)
    Comp.ofExcept (Outcome.ofStages outcomes)
  | .form site head args opts redirs, fm => fm.atSite site fun fm ↦ do
    fm.checkInterrupt
    let f ← head.eval eng fm
    let args ← evalAll eng fm args
    let opts ← evalOptions eng fm opts
    let wiring ← redirected eng fm fm.wiring redirs
    eng.call (fm.withWiring wiring) f args (Options.ofPairs opts)
  | .var site targets rest values, fm => fm.atSite site fun fm ↦ do
    match values with
    | none => fm.declareAll targets (targets.map fun _ ↦ .nil)
    | some es =>
      let vs ← fm.check (distribute targets.length rest (← evalAll eng fm es))
      fm.declareAll targets vs
  | .set site targets rest values, fm => fm.atSite site fun fm ↦ do
    let vs ← fm.check (distribute targets.length rest (← evalAll eng fm values))
    assignAll eng fm targets vs
  | .del site (.mk name []), fm => fm.atSite site fun fm ↦ do
    if ← Comp.act (.remove fm.space name) then pure () else fm.throw (.noSuchVariable name)
  | .del site (.mk name indices), fm => fm.atSite site fun fm ↦ do
    let c ← fm.cell name
    let path ← evalEach eng fm "index" indices
    let base ← Comp.act (.read c)
    let updated ← fm.check (← Comp.act (.dissoc base path))
    Comp.act (.write c updated)
  | .fn site var lambda, fm => fm.atSite site fun fm ↦ do
    let c ← fm.declare var .nil
    let f ← lambda.instantiate eng fm
    Comp.act (.write c f)
  | .fnBody body, fm => do
    fm.starting none
    Comp.ofExcept (stopReturn (← (body.exec eng fm).result))
  | .use site spec var, fm => fm.atSite site fun fm ↦ do
    let space ← eng.useModule fm spec
    discard (fm.declare var (.ns space))
  | .ifForm site branches otherwise, fm => fm.atSite site fun fm ↦
    runBranches eng fm (runOptional eng fm otherwise) branches
  | .whileForm site cond body otherwise, fm => fm.atSite site fun fm ↦ do
    let f ← fm.single "body" (← body.eval eng fm)
    fm.checkInterrupt
    let vs ← cond.eval eng fm
    if vs.all Value.truthy then
      if ← eng.round fm f then
        Comp.repeatWhile
          (do
            fm.checkInterrupt
            let vs ← cond.eval eng fm
            if vs.all Value.truthy then eng.round fm f else pure false)
          eng.turns
    else runOptional eng fm otherwise
  | .forForm site var iterable body otherwise, fm => fm.atSite site fun fm ↦ do
    let items ← fm.itemsOf (← fm.single "iterable" (← iterable.eval eng fm))
    let c ← fm.declare var .nil
    let f ← fm.single "body" (← body.eval eng fm)
    eng.rounds fm c f items
    if items.isEmpty then runOptional eng fm otherwise
  | .tryForm site body handler otherwise last, fm => fm.atSite site fun fm ↦ do
    let o ← (do
      match ← (eng.runBody fm (body.eval eng fm)).result with
      | .ok () => runOptional eng fm otherwise
      | .error (.exception e) => runHandler eng fm e handler
      | .error e => Comp.fail e : Comp Unit).result
    match last with
    | none => Comp.ofExcept o
    | some e =>
      let ended ← (eng.runBody fm (e.eval eng fm)).result
      Comp.ofExcept (Outcome.withCallback o ended)
  | .logic site stopOn args, fm => fm.atSite site fun fm ↦
    evalLogic eng fm stopOn (.bool !stopOn) args

/-- Runs operations one after another. -/
def execChunk (eng : Engine) (fm : Frame) : List Op → Comp Unit
  | [] => pure ()
  | op :: ops => do
    fm.checkInterrupt
    op.exec eng fm
    execChunk eng fm ops

/-- The stages of a pipeline as programs.  `reads` is the pipe the first of them reads, and `pipes` are
those behind each stage but the last. -/
def execStages (eng : Engine) (fm : Frame) (reads : Option Pipe) (pipes : List Pipe) :
    List Op → List Prog
  | [] => []
  | op :: ops =>
    let writes := pipes.head?
    stageProgram reads writes (op.exec eng (fm.between reads writes)) ::
      execStages eng fm writes pipes.tail ops

end

end ValueShell
