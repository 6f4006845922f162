/-!
# Interrupts

An interrupt can be noticed in two ways: forms look at a flag between steps, and whoever waits holds a
line that goes dead.  Triggering is two steps, since the flag and the line are two things: the flag is
raised, and then the line in use is cut.  Arming it again lowers the flag and, if the line was cut, lays
a new one; a line that was cut stays dead for those who hold it.
-/

set_option autoImplicit false

namespace ValueShell

/-- The state of an interrupt. -/
structure Interrupt where
  flag : Bool
  /-- The number of the line handed out now -/
  line : Nat
  /-- Is that line still alive? -/
  live : Bool
deriving DecidableEq, Repr

namespace Interrupt

/-- An interrupt that has not been triggered. -/
def armed : Interrupt :=
  ⟨false, 0, true⟩

/-- The first step of triggering. -/
def raiseFlag (i : Interrupt) : Interrupt :=
  { i with flag := true }

/-- The second step of triggering. -/
def cutLine (i : Interrupt) : Interrupt :=
  { i with live := false }

/-- Both steps of triggering. -/
def trigger (i : Interrupt) : Interrupt :=
  i.raiseFlag.cutLine

/-- Arms the interrupt again. -/
def reset (i : Interrupt) : Interrupt :=
  if i.live then { i with flag := false } else ⟨false, i.line + 1, true⟩

/-- Is the line dead? -/
def dead (i : Interrupt) (line : Nat) : Bool :=
  line ≠ i.line || !i.live

end Interrupt

end ValueShell
