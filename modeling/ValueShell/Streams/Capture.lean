import ValueShell.Streams.Lines
import ValueShell.Value

/-!
# Captured output

Output in parentheses becomes a list of values.  Values are taken as they are, and bytes are cut into
lines, each of which is a text in the place where its line end arrived.
-/

set_option autoImplicit false

namespace ValueShell

/-- Output collected so far. -/
structure Capture where
  values : Array Value
  /-- The bytes of a line that is not complete -/
  pending : Bytes

namespace Capture

/-- Nothing collected. -/
def empty : Capture :=
  ⟨#[], []⟩

/-- Takes a value. -/
def put (c : Capture) (v : Value) : Capture :=
  { c with values := c.values.push v }

/-- Takes bytes, which may complete lines. -/
def write (c : Capture) (bytes : Bytes) : Capture :=
  let (lines, rest) := Lines.split (c.pending ++ bytes)
  { values := c.values ++ (lines.map fun line ↦ Value.str (Utf8.decodeLossy line)).toArray
    pending := rest }

/-- All that was collected, with what is left of the bytes as a last text. -/
def finish (c : Capture) : List Value :=
  c.values.toList ++ ((Lines.unfinished? c.pending).map Value.str).toList

end Capture

end ValueShell
