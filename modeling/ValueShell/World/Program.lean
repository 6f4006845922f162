import ValueShell.World.Act

/-!
# Programs as trees of acts

A `Prog` is what a script turns into when it runs: an act and, for each possible reply, what follows; or
a fork into stages that run side by side, and what follows their outcomes; or an outcome.  A program only
says what it wants done.  When each act of each stage is done is up to whoever runs it, so that any
interleaving of stages can be talked about.

Between its acts a program leaves notes.  They do nothing to the world; they are there for whoever watches
a run, since a failure that is caught again leaves no other trace.

Scripts can loop for ever and programs are finite trees, so a program is always built for a bounded number
of steps, and `spent` stands where they are used up.

`Comp α` is how programs are put together: a computation that gives an `α` or fails, and is told what to
do afterwards.  With the rest of the program at hand, sequencing never has to walk over what has been built
already, however deeply calls are nested.
-/

set_option autoImplicit false

namespace ValueShell

/-- What a program makes known on its way. -/
inductive Note where
  /-- An exception is raised, by the form at a site unless no form is being run -/
  | raises (site : Option CallSite) (reason : Reason)
  /-- An operation starts, that of the form at a site if it has one, in a frame for code of a source and while
  modules are being loaded -/
  | starts (site : Option CallSite) (source : Source) (loading : List FilePath)
  /-- The operation of the form at a site ends, well or with a failure that leaves it -/
  | ends (site : CallSite) (o : Outcome)
  /-- A module is asked for while modules are being loaded -/
  | uses (spec : String) (loading : List FilePath)

/-- A program. -/
inductive Prog where
  | done (o : Outcome)
  /-- The steps are used up -/
  | spent
  | act (a : Act) (next : a.Reply → Prog)
  | note (n : Note) (next : Prog)
  | fork (stages : List Prog) (next : List Outcome → Prog)

/-- A computation that gives an `α` or fails. -/
def Comp (α : Type) : Type :=
  (Except Failure α → Prog) → Prog

namespace Comp

variable {α β : Type}

instance : Monad Comp where
  pure a := fun k ↦ k (.ok a)
  bind m f := fun k ↦ m fun
    | .ok a => f a k
    | .error e => k (.error e)

/-- Fails. -/
def fail (e : Failure) : Comp α :=
  fun k ↦ k (.error e)

/-- What a result says: its value or its failure. -/
def ofExcept (r : Except Failure α) : Comp α :=
  fun k ↦ k r

/-- The result of a computation, as a value: it does not fail. -/
def result (m : Comp α) : Comp (Except Failure α) :=
  fun k ↦ m fun r ↦ k (.ok r)

/-- The computation with its failure changed. -/
def mapFailure (f : Failure → Failure) (m : Comp α) : Comp α :=
  fun k ↦ m fun
    | .ok a => k (.ok a)
    | .error e => k (.error (f e))

/-- One act. -/
def act (a : Act) : Comp a.Reply :=
  fun k ↦ .act a fun r ↦ k (.ok r)

/-- Leaves a note. -/
def note (n : Note) : Comp Unit :=
  fun k ↦ .note n (k (.ok ()))

/-- The computation, with a note of how it ends. -/
def noting (n : Outcome → Note) (m : Comp α) : Comp α := do
  let r ← m.result
  note (n (r.map fun _ ↦ ()))
  ofExcept r

/-- Stages that run side by side, and their outcomes. -/
def fork (stages : List Prog) : Comp (List Outcome) :=
  fun k ↦ .fork stages fun os ↦ k (.ok os)

/-- No more steps. -/
def spent : Comp α :=
  fun _ ↦ .spent

/-- The program that does nothing afterwards. -/
def program (m : Comp Unit) : Prog :=
  m .done

/-- Repeats a computation for as long as it says so, at most `n` times. -/
def repeatWhile (body : Comp Bool) : Nat → Comp Unit
  | 0 => spent
  | n + 1 => do
    if ← body then repeatWhile body n

/-- Does something for each item, in order. -/
def forEach (f : α → Comp Unit) : List α → Comp Unit
  | [] => pure ()
  | x :: xs => do
    f x
    forEach f xs

/-- The results for each item, in order. -/
def mapEach (f : α → Comp β) : List α → Comp (List β)
  | [] => pure []
  | x :: xs => do
    let y ← f x
    let ys ← mapEach f xs
    return y :: ys

end Comp

end ValueShell
