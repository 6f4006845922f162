import ValueShell.Value.Outcome

/-!
# Wiring

Where a command reads from and writes to.  An outlet has two lanes, one for values and one for bytes,
each leading to a sink of its own; an inlet has two lanes as well.  Sinks are known by identity, so that
two outlets may lead to the same place.
-/

set_option autoImplicit false

namespace ValueShell

/-- A channel of values between two stages. -/
structure ValueChannelId where
  index : Nat
deriving DecidableEq, Repr

/-- A channel of bytes between two stages. -/
structure ByteChannelId where
  index : Nat
deriving DecidableEq, Repr

/-- Output being collected. -/
structure CaptureId where
  index : Nat
deriving DecidableEq, Repr

/-- A place outside the shell where values are kept. -/
structure ValueBufferId where
  index : Nat
deriving DecidableEq, Repr

/-- A place outside the shell where bytes are kept. -/
structure ByteBufferId where
  index : Nat
deriving DecidableEq, Repr

/-- A file opened by a redirection. -/
structure HandleId where
  index : Nat
deriving DecidableEq, Repr

/-- Where bytes go. -/
inductive ByteSink where
  | channel (id : ByteChannelId)
  | capture (id : CaptureId)
  | buffer (id : ByteBufferId)
  | file (id : HandleId)
  | discard
deriving DecidableEq, Repr

/-- Where values go. -/
inductive ValueSink where
  | channel (id : ValueChannelId)
  | capture (id : CaptureId)
  | buffer (id : ValueBufferId)
  /-- Each value is written in a line of its own -/
  | print (sink : ByteSink)
  | discard
deriving DecidableEq, Repr

/-- What a command writes to. -/
structure Outlet where
  values : ValueSink
  bytes : ByteSink
deriving DecidableEq, Repr

namespace Outlet

/-- Both lanes into one collection. -/
def capture (id : CaptureId) : Outlet :=
  ⟨.capture id, .capture id⟩

/-- Everything is dropped. -/
def discard : Outlet :=
  ⟨.discard, .discard⟩

/-- Bytes go into a file, and values are dropped. -/
def file (id : HandleId) : Outlet :=
  ⟨.discard, .file id⟩

end Outlet

/-- What a command reads from. -/
structure Inlet where
  values : Option ValueChannelId
  bytes : Option ByteChannelId
deriving DecidableEq, Repr

/-- Nothing to read. -/
def Inlet.empty : Inlet :=
  ⟨none, none⟩

/-- What a command is connected to: its input, its output, and where its error messages go. -/
structure Wiring where
  input : Inlet
  output : Outlet
  error : Outlet
deriving DecidableEq, Repr

namespace Wiring

/-- The outlet with a number. -/
def outlet? (wiring : Wiring) : Nat → Option Outlet
  | 1 => some wiring.output
  | 2 => some wiring.error
  | _ => none

/-- The wiring with one outlet replaced. -/
def setOutlet (wiring : Wiring) (fd : Nat) (outlet : Outlet) : Except Reason Wiring :=
  match fd with
  | 1 => .ok { wiring with output := outlet }
  | 2 => .ok { wiring with error := outlet }
  | fd => .error (.badValue "output fd" "1 or 2" (toString fd))

end Wiring

/-- The line a value is printed as. -/
def printedLine (v : Value) : String :=
  s!"▶ {v.repr}\n"

end ValueShell
