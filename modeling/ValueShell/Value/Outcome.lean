import ValueShell.Value.Text

/-!
# Outcomes and how they combine

A run ends well or with a failure.  Two constructs have more than one outcome to answer for:

* a body with something to run after it (`Outcome.withCallback`), where neither of two failures may get
  lost, but a jump gives way to a failure;
* the stages of a pipeline (`Outcome.ofStages`), where a stage that only found its reader gone has not
  failed, unless it is the last, whose output is the pipeline's own.
-/

set_option autoImplicit false

namespace ValueShell

/-- How a run ends. -/
abbrev Outcome := Except Failure Unit

namespace Failure

/-- Is the failure an exception raised for exactly this message? -/
def isFail (message : String) (failure : Failure) : Bool :=
  match failure.reason? with
  | some (.fail v) => v.text == message
  | _ => false

/-- Did the run end only because nothing reads its output any more? -/
def isReaderGone (failure : Failure) : Bool :=
  match failure.reason? with
  | some .readerGone => true
  | _ => false

end Failure

namespace Outcome

/-- The failure of an outcome. -/
def failure? : Outcome → Option Failure
  | .ok _ => none
  | .error e => some e

/-- The outcome of a body and of what ran after it.  One failure stands for itself; of a jump and a
failure the failure counts; and two failures of the body and the callback are kept together. -/
def withCallback : Outcome → Outcome → Outcome
  | .ok (), callback => callback
  | .error e, .ok () => .error e
  | .error (.flow _), .error e => .error e
  | .error e, .error e' => .error (.ofReason (.withCallback e e'))

/-- The outcome of runs side by side: the failure if there is one, and all of them together if there
are several. -/
def combine (outcomes : List Outcome) : Outcome :=
  match outcomes.filterMap failure? with
  | [] => .ok ()
  | [e] => .error e
  | es => .error (.ofReason (.pipeline es))

/-- The outcome of a stage that is not the last: having lost its reader is no failure. -/
def withoutReaderGone : Outcome → Outcome
  | .error e => if e.isReaderGone then .ok () else .error e
  | .ok () => .ok ()

/-- The outcome of the stages of a pipeline, in their order. -/
def ofStages : List Outcome → Outcome
  | outcomes => combine (outcomes.dropLast.map withoutReaderGone ++ outcomes.getLast?.toList)

end Outcome

end ValueShell
