import ValueShell.Streams.Capture
import ValueShell.Streams.Channel
import ValueShell.Streams.Wiring

/-!
# All streams there are

The channels between stages, the output being collected, and the places outside the shell, each in a
table of its own.  Outlets and inlets name them by identity, and the tables only grow.
-/

set_option autoImplicit false

namespace ValueShell

/-- The two channels between a stage and the next. -/
structure Pipe where
  values : ValueChannelId
  bytes : ByteChannelId
deriving DecidableEq, Repr

/-- The tables of streams. -/
structure Streams where
  valueChannels : Array (Channel Value)
  byteChannels : Array (Channel Bytes)
  captures : Array Capture
  valueBuffers : Array (Array Value)
  /-- What was written to each buffer, one chunk for each write -/
  byteBuffers : Array (Array Bytes)

namespace Streams

/-- No streams. -/
def empty : Streams :=
  ⟨#[], #[], #[], #[], #[]⟩

/-- Adds a channel of values. -/
def addValueChannel (s : Streams) (c : Channel Value) : ValueChannelId × Streams :=
  (⟨s.valueChannels.size⟩, { s with valueChannels := s.valueChannels.push c })

/-- Adds a channel of bytes. -/
def addByteChannel (s : Streams) (c : Channel Bytes) : ByteChannelId × Streams :=
  (⟨s.byteChannels.size⟩, { s with byteChannels := s.byteChannels.push c })

/-- Adds the two channels between a stage and the next. -/
def addPipe (s : Streams) (capacity : Nat) : Pipe × Streams :=
  let (values, s) := s.addValueChannel (Channel.empty (some capacity))
  let (bytes, s) := s.addByteChannel (Channel.empty (some capacity))
  (⟨values, bytes⟩, s)

/-- Adds an empty collection. -/
def addCapture (s : Streams) : CaptureId × Streams :=
  (⟨s.captures.size⟩, { s with captures := s.captures.push Capture.empty })

/-- Adds a buffer of values. -/
def addValueBuffer (s : Streams) : ValueBufferId × Streams :=
  (⟨s.valueBuffers.size⟩, { s with valueBuffers := s.valueBuffers.push #[] })

/-- Adds a buffer of bytes. -/
def addByteBuffer (s : Streams) : ByteBufferId × Streams :=
  (⟨s.byteBuffers.size⟩, { s with byteBuffers := s.byteBuffers.push #[] })

/-- The values in a buffer. -/
def buffered (s : Streams) (id : ValueBufferId) : List Value :=
  (s.valueBuffers.getD id.index #[]).toList

/-- The bytes in a buffer. -/
def bufferedBytes (s : Streams) (id : ByteBufferId) : Bytes :=
  (s.byteBuffers.getD id.index #[]).toList.flatten

/-- Takes what was collected, and starts anew. -/
def takeCapture (s : Streams) (id : CaptureId) : List Value × Streams :=
  ((s.captures.getD id.index Capture.empty).finish,
    { s with captures := s.captures.setIfInBounds id.index Capture.empty })

/-- A stage ends: nothing more comes through the pipe it writes, and nothing is taken any more from the
pipe it reads. -/
def endStage (s : Streams) (reads writes : Option Pipe) : Streams :=
  let s := match writes with
    | some p =>
      { s with
        valueChannels := s.valueChannels.modify p.values.index Channel.closeWriter
        byteChannels := s.byteChannels.modify p.bytes.index Channel.closeWriter }
    | none => s
  match reads with
  | some p =>
    { s with
      valueChannels := s.valueChannels.modify p.values.index Channel.closeReader
      byteChannels := s.byteChannels.modify p.bytes.index Channel.closeReader }
  | none => s

end Streams

end ValueShell
