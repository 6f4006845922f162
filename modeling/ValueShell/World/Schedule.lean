import ValueShell.World.Program

/-!
# Running programs in a world

The stages of a fork run side by side.  The schedule gives each of them a number of acts in turn, passing
over those that wait for something, so that a stage that writes for ever cannot keep another from its
turn.  When every stage waits, time moves on to the next timer.  If there is none, nothing will ever move
again.

Any order in which acts are ready would do.  This one is fair and gives the same answer each time.
-/

set_option autoImplicit false

namespace ValueShell

/-- Does up to `n` acts, with a note counting as one.  Stops before an act that has to wait, and says
whether anything was done. -/
def Prog.advance (moved : Bool) : Nat → Prog → World → Prog × World × Bool
  | n + 1, .act a next, w =>
    if a.ready w then
      let (r, w) := a.perform w
      (next r).advance true n w
    else (.act a next, w, moved)
  | n + 1, .note _ p, w => p.advance true n w
  | _, p, w => (p, w, moved)

/-- A program that is running: in one piece, or as stages with what follows them. -/
inductive Task where
  | running (p : Prog)
  | forked (stages : List Task) (next : List Outcome → Prog)

namespace Task

/-- The outcome of a task that has ended. -/
def outcome? : Task → Option Outcome
  | running (.done o) => some o
  | _ => none

/-- Are the steps of the task used up? -/
def isSpent : Task → Bool
  | running .spent => true
  | _ => false

/-- The number of acts in a turn. -/
def turn : Nat := 256

mutual

/-- Gives each part of a task a turn, and says whether anything was done. -/
def round : Task → World → Task × World × Bool
  | running p, w =>
    match p.advance false turn w with
    | (.fork stages next, w, _) => (forked (stages.map running) next, w, true)
    | (p, w, moved) => (running p, w, moved)
  | forked stages next, w =>
    let (stages, w, moved) := rounds stages w
    if stages.any isSpent then (running .spent, w, true)
    else
      match stages.mapM outcome? with
      | some outcomes => (running (next outcomes), w, true)
      | none => (forked stages next, w, moved)

/-- Gives each of several tasks a turn. -/
def rounds : List Task → World → List Task × World × Bool
  | [], w => ([], w, false)
  | t :: ts, w =>
    let (t, w, moved) := t.round w
    let (ts, w, others) := rounds ts w
    (t :: ts, w, moved || others)

end

mutual

/-- When the first of the timers goes off that the task waits for. -/
def nextDue? : Task → Option Nat
  | running (.act (.awaitTimer t _) _) => t.due
  | running _ => none
  | forked stages _ => nextDueOf? stages

/-- When the first of the timers goes off that some of the tasks wait for. -/
def nextDueOf? : List Task → Option Nat
  | [] => none
  | t :: ts =>
    match t.nextDue?, nextDueOf? ts with
    | some a, some b => some (min a b)
    | some a, none => some a
    | none, due => due

end

/-- How running a task comes to an end. -/
inductive Halt where
  | ended (o : Outcome)
  /-- The rounds are used up, or the steps of the program -/
  | spent
  /-- Every part waits for something that will not come -/
  | stuck

/-- Runs a task to its end, in at most `n` rounds. -/
def drive : Nat → Task → World → Halt × World
  | 0, _, w => (.spent, w)
  | n + 1, t, w =>
    match t.round w with
    | (running (.done o), w, _) => (.ended o, w)
    | (running .spent, w, _) => (.spent, w)
    | (t, w, true) => drive n t w
    | (t, w, false) =>
      match t.nextDue? with
      | some due => drive n t { w with clock := { w.clock with now := max w.clock.now due } }
      | none => (.stuck, w)

end Task

/-- Runs a program to its end, in at most `n` rounds. -/
def Prog.run (n : Nat) (p : Prog) (w : World) : Task.Halt × World :=
  Task.drive n (.running p) w

end ValueShell
