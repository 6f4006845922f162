/-!
# Source text and places in it

A piece of code keeps its name and its text together, and everything that points into it does so by
byte offsets.  This file turns offsets back into what a reader can use:

* `Source.location` gives the line and the column of an offset; both count from one, and a column
  counts characters, not bytes.
* `CallSite.text` is the stretch of code a form covers.

Offsets are bytes of the UTF-8 form while text is a list of characters, so the one thing to settle
is where an offset falls between characters.  `splitAtByte` answers it and is the only place that
adds up character widths.
-/

set_option autoImplicit false

namespace ValueShell

/-! ## Cutting text at a byte offset -/

/-- The text before and after a byte offset, or nothing when the offset lies inside a character or
beyond the end. -/
def splitAtByte : Nat → List Char → Option (List Char × List Char)
  | 0, cs => some ([], cs)
  | _ + 1, [] => none
  | n + 1, c :: cs =>
    if c.utf8Size ≤ n + 1 then
      (splitAtByte (n + 1 - c.utf8Size) cs).map fun (before, after) ↦ (c :: before, after)
    else none

/-- The number of bytes a text takes. -/
def byteLength (cs : List Char) : Nat :=
  cs.foldl (fun n c ↦ n + c.utf8Size) 0

/-! ## Sources -/

/-- A stretch of bytes of a source, from `start` up to but not including `stop`. -/
structure Span where
  start : Nat
  stop : Nat
deriving DecidableEq, Repr, Inhabited

/-- A place in a source as a reader counts it: lines and columns from one. -/
structure Location where
  file : String
  line : Nat
  column : Nat
deriving DecidableEq, Repr, Inhabited

/-- How a place is written in messages. -/
def Location.text (l : Location) : String :=
  s!"{l.file}:{l.line}:{l.column}"

/-- A piece of code handed to the evaluator.

Two sources may agree in name and text and still be different code, so each carries an identity of
its own.  Code that was read from a file knows the file's path, because relative module specifiers
in it start from the file's directory. -/
structure Source where
  id : Nat
  name : String
  code : String
  path : Option String
deriving DecidableEq, Repr, Inhabited

/-- The characters in front of an offset.  An offset beyond the end, or one that falls inside a
character, stands for the end of the text. -/
def Source.before (s : Source) (offset : Nat) : List Char :=
  match splitAtByte offset s.code.toList with
  | some (before, _) => before
  | none => s.code.toList

/-- The place an offset points to: one line more than there are line ends before it, one column more
than there are characters between the last of them and the offset. -/
def Source.location (s : Source) (offset : Nat) : Location :=
  let before := s.before offset
  { file := s.name
    line := before.count '\n' + 1
    column := (before.reverse.takeWhile (· ≠ '\n')).length + 1 }

/-- The text a span covers, or nothing when the span does not fit between characters. -/
def Source.slice (s : Source) (span : Span) : Option String :=
  if span.start ≤ span.stop then do
    let (_, after) ← splitAtByte span.start s.code.toList
    let (covered, _) ← splitAtByte (span.stop - span.start) after
    return String.ofList covered
  else none

/-! ## Call sites -/

/-- Where a form stands: the code that holds it, and the bytes it covers there. -/
structure CallSite where
  source : Source
  span : Span
deriving Repr, Inhabited

namespace CallSite

/-- Two sites are the same when they cover the same bytes of the same source.  The source is known by
its identity, so equal text elsewhere is a different site. -/
def same (a b : CallSite) : Bool :=
  a.source.id == b.source.id && a.span == b.span

/-- The place where the form starts. -/
def location (site : CallSite) : Location :=
  site.source.location site.span.start

/-- The code of the form; empty when the span is out of range. -/
def text (site : CallSite) : String :=
  (site.source.slice site.span).getD ""

/-- A line of a stack trace: the place and the code there. -/
def line (site : CallSite) : String :=
  s!"{site.location.text}: {site.text}"

end CallSite

end ValueShell
