import ValueShell.Text.Utf8

/-!
# Lines in a stream of bytes

Bytes arrive in chunks that need not end where lines end, or even where characters end.  A reader of
lines keeps the bytes of the line that is not complete yet; each chunk completes some lines and leaves a
new beginning.  How the bytes were cut into chunks makes no difference to the lines.
-/

set_option autoImplicit false

namespace ValueShell

namespace Lines

/-- The byte that ends a line. -/
def lineEnd : UInt8 := 10

/-- The complete lines at the front of the bytes, without their ends, and the bytes of a last line that
is not complete. -/
def split : Bytes → List Bytes × Bytes
  | [] => ([], [])
  | b :: bs =>
    match split bs with
    | (lines, rest) =>
      if b = lineEnd then ([] :: lines, rest)
      else match lines with
        | line :: lines => ((b :: line) :: lines, rest)
        | [] => ([], b :: rest)

/-- The text of the bytes after the last line end, unless there are none. -/
def unfinished? (rest : Bytes) : Option String :=
  if rest.isEmpty then none else some (Utf8.decodeLossy rest)

end Lines

end ValueShell
