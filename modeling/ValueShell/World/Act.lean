import ValueShell.World

/-!
# Acts

What a running script does to the world, one indivisible act at a time.  Each act has a reply.  Some acts
cannot always be done at once: a channel may be full or empty, a module may be in the middle of being
loaded, a timer may still be running.  `Act.ready` says whether an act can be done, and `Act.perform`
does it.  Everything a script does goes through here, so what acts cannot do to the world, scripts cannot
do either.
-/

set_option autoImplicit false

namespace ValueShell

/-- An act. -/
inductive Act where
  /-- Finds the cell a name leads to -/
  | find (space : NsId) (outer : List Bindings) (name : String)
  | read (c : CellId)
  | write (c : CellId) (v : Value)
  | declare (space : NsId) (name : String) (v : Value)
  | remove (space : NsId) (name : String)
  | bindings (space : NsId)
  /-- A new namespace whose variables are the given cells -/
  | newSpace (bs : Bindings)
  /-- A new namespace with new variables -/
  | newSpaceOf (pairs : List (String × Value))
  /-- A closure of code and of what can be seen at this moment from a namespace with bindings
  around it -/
  | newClosure (space : NsId) (outer : List Bindings) (signature : Signature) (body : Op)
    (source : Source)
  | closure (id : ClosureId)
  | index (base key : Value)
  | assoc (base : Value) (path : List Value) (v : Value)
  | dissoc (base : Value) (path : List Value)
  | newSource (name code : String) (path : Option String)
  /-- The names that code can see which is to run in a namespace -/
  | scope (space : NsId)
  | put (sink : ValueSink) (v : Value)
  | writeBytes (sink : ByteSink) (bytes : Bytes)
  /-- Waits for something on the lanes, or for the line of an interrupt to go dead -/
  | receive (lanes : Inlet) (line : Nat)
  | newCapture
  | takeCapture (id : CaptureId)
  | newPipe (capacity : Nat)
  | endStage (reads writes : Option Pipe)
  | openFile (path : String) (append : Bool)
  | readText (path : String)
  | resolveModule (spec : String) (base : Option String)
  | nativeModule (name : String)
  | attemptLoad (path : FilePath) (chain : List FilePath)
  /-- Waits until a module is not being loaded any more, or for an interrupt -/
  | awaitLoad (waiter : Nat) (path : FilePath)
  | finishLoad (path : FilePath) (ns : NsId)
  | abandonLoad (path : FilePath)
  | interrupted
  | interruptLine
  | firstWarning (site : CallSite)
  | startTimer (nanos : Nat)
  /-- Waits for a timer, or for the line of an interrupt to go dead; says whether it was the timer -/
  | awaitTimer (t : Timer) (line : Nat)
  | now

namespace Act

/-- What an act is answered with. -/
@[reducible] def Reply : Act → Type
  | find .. => Option CellId
  | read _ => Value
  | write .. => Unit
  | declare .. => CellId
  | remove .. => Bool
  | bindings _ => Bindings
  | newSpace _ => NsId
  | newSpaceOf _ => NsId
  | newClosure .. => ClosureId
  | closure _ => Option Closure
  | index .. => Except Reason Value
  | assoc .. => Except Reason Value
  | dissoc .. => Except Reason Value
  | newSource .. => Source
  | scope _ => Scope
  | put .. => Except Reason Unit
  | writeBytes .. => Except Reason Unit
  | receive .. => World.InputEvent
  | newCapture => CaptureId
  | takeCapture _ => List Value
  | newPipe _ => Pipe
  | endStage .. => Unit
  | openFile .. => Except FileFault HandleId
  | readText _ => Except FileFault String
  | resolveModule .. => Except Reason FilePath
  | nativeModule _ => Option NsId
  | attemptLoad .. => Claim
  | awaitLoad .. => Claim
  | finishLoad .. => Unit
  | abandonLoad _ => Unit
  | interrupted => Bool
  | interruptLine => Nat
  | firstWarning _ => Bool
  | startTimer _ => Timer
  | awaitTimer .. => Bool
  | now => Nat

/-- Can the act be done at once? -/
def ready (w : World) : Act → Bool
  | put sink _ => w.putReady sink
  | writeBytes sink _ => w.bytesReady sink
  | receive lanes line => (w.inputEvent? lanes line).isSome
  | awaitLoad _ path => w.interrupt.flag || w.loads.status? path != some .loading
  | awaitTimer t line => w.timerDone t || w.interrupt.dead line
  | _ => true

/-- An element changed in the store. -/
def inStore (w : World) (result : Except Reason (Value × Store)) : Except Reason Value × World :=
  match result with
  | .ok (v, store) => (.ok v, { w with store })
  | .error reason => (.error reason, w)

/-- Does the act. -/
def perform : (a : Act) → World → a.Reply × World
  | find space outer name, w => (w.find? space outer name, w)
  | read c, w => (w.store.read c, w)
  | write c v, w => ((), { w with store := w.store.write c v })
  | declare space name v, w =>
    let (c, store) := w.store.declare space name v
    (c, { w with store })
  | remove space name, w =>
    let (found, store) := w.store.remove space name
    (found, { w with store })
  | bindings space, w => (w.store.bindings space, w)
  | newSpace bs, w =>
    let (ns, store) := w.store.newSpace bs
    (ns, { w with store })
  | newSpaceOf pairs, w =>
    let (ns, store) := w.store.spaceOfPairs pairs
    (ns, { w with store })
  | newClosure space outer signature body source, w =>
    let captured := w.store.bindings space :: outer
    let (id, store) := w.store.newClosure ⟨signature, body, captured, source⟩
    (id, { w with store })
  | closure id, w => (w.store.closure? id, w)
  | index base key, w => (w.store.index base key, w)
  | assoc base path v, w => inStore w (w.store.assocPath base path v)
  | dissoc base path, w => inStore w (w.store.dissocPath base path)
  | newSource name code path, w => w.newSource name code path
  | scope space, w => (w.scope space, w)
  | put sink v, w => w.put sink v
  | writeBytes sink bytes, w => w.writeBytes sink bytes
  | receive lanes line, w =>
    match w.inputEvent? lanes line with
    | some event => (event, w.consume lanes event)
    | none => (.interrupted, w)
  | newCapture, w =>
    let (id, streams) := w.streams.addCapture
    (id, { w with streams })
  | takeCapture id, w =>
    let (vs, streams) := w.streams.takeCapture id
    (vs, { w with streams })
  | newPipe capacity, w =>
    let (pipe, streams) := w.streams.addPipe capacity
    (pipe, { w with streams })
  | endStage reads writes, w => ((), { w with streams := w.streams.endStage reads writes })
  | openFile path append, w =>
    match w.files.openForWriting path append with
    | .ok (h, files) => (.ok ⟨w.handles.size⟩, { w with files, handles := w.handles.push h })
    | .error fault => (.error fault, w)
  | readText path, w => (w.files.readText path, w)
  | resolveModule spec base, w =>
    (Modules.resolve w.files spec base w.config.libDirs Modules.extension, w)
  | nativeModule name, w => ((w.native.find? (·.1 = name)).map (·.2), w)
  | attemptLoad path chain, w =>
    let (claim, loads) := w.loads.attempt path chain
    (claim, { w with loads })
  | awaitLoad waiter path, w =>
    let (claim, loads) := w.loads.recheck waiter path
    (claim, { w with loads })
  | finishLoad path ns, w => ((), { w with loads := w.loads.finish path ns })
  | abandonLoad path, w => ((), { w with loads := w.loads.abandon path })
  | interrupted, w => (w.interrupt.flag, w)
  | interruptLine, w => (w.interrupt.line, w)
  | firstWarning site, w => w.firstWarning site
  | startTimer nanos, w => w.startTimer nanos
  | awaitTimer t _, w => (w.timerDone t, w)
  | now, w => (w.clock.now, w)

end Act

end ValueShell
