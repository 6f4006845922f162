import ValueShell.Number

/-!
# Durations

How long to wait, as a script writes it.  A number counts seconds.  Any other text is one or more
groups of a number and a unit, such as `3h5m7s`, under one sign for all of them.

`Duration.unitNanos?` scans the groups.  Each round takes a run of digits and points and then a run
of anything else, so a round never leaves the text as long as it was.
-/

set_option autoImplicit false

namespace ValueShell

/-- Why a duration is refused. -/
inductive DurationFault where
  | invalid
  | negative
deriving DecidableEq, Repr

namespace Duration

/-- The units and how many nanoseconds each has. -/
def units : List (String × Float) :=
  [("ns", 1), ("us", 1e3), ("µs", 1e3), ("ms", 1e6), ("s", 1e9), ("m", 60e9), ("h", 3600e9)]

/-- The characters a group's number is made of; all others belong to its unit. -/
def isNumberChar (c : Char) : Bool :=
  c.isDigit || c = '.'

/-- The nanoseconds one group stands for. -/
def groupNanos? (number unit : List Char) : Option Float := do
  let x ← if number.any Char.isDigit then Decimal.readFloat? number else none
  let (_, scale) ← units.find? fun (name, _) ↦ name.toList = unit
  return x * scale

/-- Adds up the groups of a text. -/
def groupsNanos? (total : Float) : List Char → Option Float
  | [] => some total
  | c :: cs =>
    let number := (c :: cs).takeWhile isNumberChar
    let afterNumber := (c :: cs).dropWhile isNumberChar
    let unit := afterNumber.takeWhile (!isNumberChar ·)
    match groupNanos? number unit with
    | none => none
    | some x => groupsNanos? (total + x) (afterNumber.dropWhile (!isNumberChar ·))
termination_by cs => cs.length
decreasing_by
  have h1 := (List.dropWhile_sublist (fun d ↦ !isNumberChar d)
    (l := (c :: cs).dropWhile isNumberChar)).length_le
  rcases hc : isNumberChar c with _ | _
  · have h2 := (List.dropWhile_sublist (fun d ↦ !isNumberChar d) (l := cs)).length_le
    simp only [List.dropWhile_cons, hc, Bool.not_false, Bool.false_eq_true, if_false, if_true,
      List.length_cons]
    omega
  · have h2 := (List.dropWhile_sublist isNumberChar (l := cs)).length_le
    simp only [List.dropWhile_cons, hc, if_true, List.length_cons] at h1 ⊢
    omega

/-- The nanoseconds of a text of groups under one sign. -/
def unitNanos? (cs : List Char) : Option Float :=
  let (negative, rest) := Decimal.splitSign cs
  if rest.isEmpty then none
  else (groupsNanos? 0 rest).map fun x ↦ (if negative then -1 else 1) * x

/-- A float of nanoseconds as a whole number of them: rounded, half away from zero.  What is not
finite or does not fit 64 bits is refused, and so is what lies below zero before it is rounded. -/
def ofFloat (nanos : Float) : Except DurationFault Nat :=
  if !nanos.isFinite then .error .invalid
  else if nanos < 0 then .error .negative
  else
    let rounded := nanos.round
    if rounded > 18446744073709551616 then .error .invalid
    else .ok rounded.toUInt64.toNat

/-- The duration a number of seconds stands for, in nanoseconds. -/
def ofNum (n : Num) : Except DurationFault Nat :=
  ofFloat (n.toFloat * 1e9)

/-- The duration a text stands for, in nanoseconds. -/
def ofText (s : String) : Except DurationFault Nat :=
  match Num.read? s with
  | some n => ofNum n
  | none =>
    match unitNanos? s.toList with
    | some nanos => ofFloat nanos
    | none => .error .invalid

end Duration

end ValueShell
