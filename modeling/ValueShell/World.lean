import ValueShell.Config
import ValueShell.Interrupt
import ValueShell.Modules.Loading
import ValueShell.Modules.Spec
import ValueShell.Store.Element
import ValueShell.Streams.Table

/-!
# The world of an evaluator

All state that scripts can observe or change: the store, the streams, the files, the modules, which sites
have warned, the interrupt, and time.  One world serves everything that runs on one evaluator.

Time is a count of milliseconds that moves only when nothing else can.  A sleep asks for a timer, which
records what was asked for; how long the timer really takes is a setting of the clock, as is which sleep,
counted from the start, is interrupted instead of ever ending.
-/

set_option autoImplicit false

namespace ValueShell

/-! ## Time -/

/-- The clock and its settings. -/
structure Clock where
  /-- Milliseconds since the start -/
  now : Nat
  /-- The nanoseconds each sleep so far has asked for -/
  asked : Array Nat
  /-- How long a sleep takes, in milliseconds -/
  pause : Nat
  /-- The sleep, counted from one, that triggers the interrupt and does not end -/
  interruptAt : Option Nat

/-- A clock that has not started. -/
def Clock.fresh : Clock :=
  ⟨0, #[], 0, none⟩

/-- When a timer goes off, if ever. -/
structure Timer where
  due : Option Nat
deriving DecidableEq, Repr

/-! ## The world -/

/-- The state of an evaluator. -/
structure World where
  config : Config
  store : Store
  /-- The namespace of top-level code -/
  global : NsId
  /-- The namespace that is searched last -/
  builtin : NsId
  streams : Streams
  files : FileTree
  handles : Array FileHandle
  loads : LoadState
  /-- Modules that need no file -/
  native : List (String × NsId)
  /-- The sites that have warned of something deprecated -/
  warned : List CallSite
  interrupt : Interrupt
  clock : Clock
  nextSource : Nat

/-- The variables of the builtin namespace. -/
def builtinVariables : List (String × Value) :=
  [("true", .bool true), ("false", .bool false), ("nil", .nil)] ++
    Builtin.every.map fun b ↦ (Name.function b.name, .builtin b)

namespace World

/-- The world before anything has run. -/
def fresh (config : Config) : World :=
  let (global, store) := Store.empty.newSpace []
  let (builtin, store) := store.spaceOfPairs builtinVariables
  { config, store, global, builtin
    streams := Streams.empty
    files := FileTree.fresh ["W"]
    handles := #[]
    loads := LoadState.empty
    native := []
    warned := []
    interrupt := Interrupt.armed
    clock := Clock.fresh
    nextSource := 1 }

/-! ## Variables -/

/-- The bindings seen from a namespace with given bindings around it, innermost first. -/
def chain (w : World) (space : NsId) (outer : List Bindings) : List Bindings :=
  w.store.bindings space :: (outer ++ [w.store.bindings w.builtin])

/-- The cell a name leads to. -/
def find? (w : World) (space : NsId) (outer : List Bindings) (name : String) : Option CellId :=
  w.store.find? (w.chain space outer) name

/-- The scope of code that will run in a namespace with nothing but the builtins around it. -/
def scope (w : World) (space : NsId) : Scope :=
  { inner := (w.store.bindings space).names
    outer := []
    builtin := (w.store.bindings w.builtin).names }

/-- A new source. -/
def newSource (w : World) (name code : String) (path : Option String) : Source × World :=
  ({ id := w.nextSource, name, code, path }, { w with nextSource := w.nextSource + 1 })

/-! ## Streams -/

/-- Would a write to the sink be answered at once? -/
def bytesReady (w : World) : ByteSink → Bool
  | .channel id =>
    match w.streams.byteChannels[id.index]? with
    | some c => c.sendReady
    | none => true
  | _ => true

/-- Writes bytes to a sink. -/
def writeBytes (w : World) (sink : ByteSink) (bytes : Bytes) : Except Reason Unit × World :=
  match sink with
  | .channel id =>
    match w.streams.byteChannels[id.index]? with
    | some c =>
      if c.reading then
        (.ok (), { w with
          streams := { w.streams with
            byteChannels := w.streams.byteChannels.modify id.index fun c ↦ (c.send bytes).1 } })
      else (.error .readerGone, w)
    | none => (.error .readerGone, w)
  | .capture id =>
    (.ok (), { w with
      streams := { w.streams with
        captures := w.streams.captures.modify id.index (·.write bytes) } })
  | .buffer id =>
    (.ok (), { w with
      streams := { w.streams with
        byteBuffers := w.streams.byteBuffers.modify id.index (·.push bytes) } })
  | .file id =>
    match w.handles[id.index]? with
    | some h =>
      let (h, files) := w.files.writeTo h bytes
      (.ok (), { w with files, handles := w.handles.setIfInBounds id.index h })
    | none => (.ok (), w)
  | .discard => (.ok (), w)

/-- Would putting a value be answered at once? -/
def putReady (w : World) : ValueSink → Bool
  | .channel id =>
    match w.streams.valueChannels[id.index]? with
    | some c => c.sendReady
    | none => true
  | .print sink => w.bytesReady sink
  | _ => true

/-- Puts a value into a sink. -/
def put (w : World) (sink : ValueSink) (v : Value) : Except Reason Unit × World :=
  match sink with
  | .channel id =>
    match w.streams.valueChannels[id.index]? with
    | some c =>
      if c.reading then
        (.ok (), { w with
          streams := { w.streams with
            valueChannels := w.streams.valueChannels.modify id.index fun c ↦ (c.send v).1 } })
      else (.error .readerGone, w)
    | none => (.error .readerGone, w)
  | .capture id =>
    (.ok (), { w with
      streams := { w.streams with
        captures := w.streams.captures.modify id.index (·.put v) } })
  | .buffer id =>
    (.ok (), { w with
      streams := { w.streams with
        valueBuffers := w.streams.valueBuffers.modify id.index (·.push v) } })
  | .print sink => w.writeBytes sink (Utf8.encode (printedLine v))
  | .discard => (.ok (), w)

/-- What a reader of the input is told. -/
inductive InputEvent where
  | value (v : Value)
  | bytes (chunk : Bytes)
  | valuesDone
  | bytesDone
  | interrupted

/-- What can be read at once from the lanes a reader still has: a value before bytes, and either before
the news of an interrupt. -/
def inputEvent? (w : World) (lanes : Inlet) (line : Nat) : Option InputEvent :=
  let values := lanes.values.bind fun id ↦ (w.streams.valueChannels[id.index]?).bind fun c ↦
    match c.items with
    | v :: _ => some (.value v)
    | [] => if c.writing then none else some .valuesDone
  let bytes := lanes.bytes.bind fun id ↦ (w.streams.byteChannels[id.index]?).bind fun c ↦
    match c.items with
    | chunk :: _ => some (.bytes chunk)
    | [] => if c.writing then none else some .bytesDone
  match values, bytes with
  | some e, _ => some e
  | none, some e => some e
  | none, none => if w.interrupt.dead line then some .interrupted else none

/-- Takes what was read off its lane. -/
def consume (w : World) (lanes : Inlet) : InputEvent → World
  | .value _ =>
    match lanes.values with
    | some id =>
      { w with
        streams := { w.streams with
          valueChannels := w.streams.valueChannels.modify id.index fun c ↦ c.receive.2 } }
    | none => w
  | .bytes _ =>
    match lanes.bytes with
    | some id =>
      { w with
        streams := { w.streams with
          byteChannels := w.streams.byteChannels.modify id.index fun c ↦ c.receive.2 } }
    | none => w
  | _ => w

/-! ## Warnings and time -/

/-- Records that a site warns, and says whether it is the first time. -/
def firstWarning (w : World) (site : CallSite) : Bool × World :=
  if w.warned.any (·.same site) then (false, w)
  else (true, { w with warned := site :: w.warned })

/-- Triggers the interrupt. -/
def triggerInterrupt (w : World) : World :=
  { w with interrupt := w.interrupt.trigger }

/-- Starts a timer for a sleep. -/
def startTimer (w : World) (nanos : Nat) : Timer × World :=
  let w := { w with clock := { w.clock with asked := w.clock.asked.push nanos } }
  if w.clock.interruptAt = some w.clock.asked.size then (⟨none⟩, w.triggerInterrupt)
  else (⟨some (w.clock.now + w.clock.pause)⟩, w)

/-- Has the timer gone off? -/
def timerDone (w : World) (t : Timer) : Bool :=
  t.due.any (· ≤ w.clock.now)

end World

end ValueShell
