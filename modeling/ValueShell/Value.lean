import ValueShell.Builtin
import ValueShell.Number
import ValueShell.Operation.Lowering

/-!
# Values and failures

What a script works with.  Lists and maps are immutable; a map keeps its entries in the order their
keys first came.  Namespaces and closures are known by identity, and what they hold is kept in the
store, so that a value can name something it is part of.

An exception is a value too, once it has been caught.  It has a reason and the call sites it went
through, innermost first.  Beside exceptions three other things can end a form early: code that cannot
be parsed, code that fails the static check, and a `return`, `break` or `continue` on its way to the
construct it belongs to.  `Failure` is any of the four.
-/

set_option autoImplicit false

namespace ValueShell

/-- A storage location of the store. -/
structure CellId where
  index : Nat
deriving DecidableEq, Repr

/-- A namespace of the store. -/
structure NsId where
  index : Nat
deriving DecidableEq, Repr

/-- A closure of the store. -/
structure ClosureId where
  index : Nat
deriving DecidableEq, Repr

/-- A jump out of a construct. -/
inductive Flow where
  /-- Out of the function -/
  | leave
  /-- Out of the loop -/
  | stop
  /-- To the next round of the loop -/
  | next
deriving DecidableEq, Repr

/-- The command that makes the jump. -/
def Flow.text : Flow → String
  | leave => "return"
  | stop => "break"
  | next => "continue"

mutual

/-- A value. -/
inductive Value where
  | nil
  | bool (b : Bool)
  | str (s : String)
  | num (n : Num)
  | list (items : List Value)
  /-- Entries whose keys are pairwise different, in the order the keys first came -/
  | map (entries : List (Value × Value))
  | ns (id : NsId)
  | closure (id : ClosureId)
  | builtin (b : Builtin)
  /-- The command that `constantly` makes: it puts these values -/
  | constantly (values : List Value)
  | external (program : String)
  | exception (e : Exception)

/-- A failure of a running script. -/
inductive Exception where
  | mk (reason : Reason) (stack : List CallSite)

/-- Why a script failed. -/
inductive Reason where
  | fail (v : Value)
  | badValue (what valid actual : String)
  | arityMismatch (what valid : String) (actual : Nat)
  | unsupportedOption (name : String)
  | noSuchVariable (name : String)
  | noSuchKey (key : String)
  | noSuchModule (spec : String)
  | moduleCycle (spec : String)
  | invalidSleepDuration
  | negativeSleepDuration
  | readerGone
  | interrupted
  | stackOverflow (max : Nat)
  | externalCommand (program : String)
  | fault (text : String)
  | strayFlow (flow : Flow)
  /-- Several stages of a pipeline failed -/
  | pipeline (errors : List Failure)
  /-- A body failed, and so did what was to run after it -/
  | withCallback (body callback : Failure)

/-- What can end a form early. -/
inductive Failure where
  | parse (fault : SyntaxFault) (location : Location)
  | compile (fault : CompileFault) (location : Location)
  | exception (e : Exception)
  | flow (f : Flow)

end

instance : Inhabited Value := ⟨.nil⟩

/-- Named values in a fixed order. -/
abbrev Options := List (String × Value)

namespace Exception

/-- Why the exception was raised. -/
def reason : Exception → Reason
  | mk reason _ => reason

/-- The call sites the exception went through, innermost first. -/
def stack : Exception → List CallSite
  | mk _ stack => stack

/-- The exception after it has gone through a call site.  A site that is already the outermost is not
recorded again. -/
def through (site : CallSite) : Exception → Exception
  | mk reason stack =>
    if stack.getLast?.any (·.same site) then mk reason stack else mk reason (stack ++ [site])

end Exception

namespace Failure

/-- An exception that has not gone through any call site. -/
def ofReason (reason : Reason) : Failure :=
  .exception (.mk reason [])

/-- The reason, if the failure is an exception. -/
def reason? : Failure → Option Reason
  | .exception e => some e.reason
  | _ => none

/-- The failure after it has gone through a call site.  Only exceptions record that. -/
def through (site : CallSite) : Failure → Failure
  | .exception e => .exception (e.through site)
  | failure => failure

end Failure

namespace Value

/-- The kind of a value, as a script is told. -/
def kind : Value → String
  | nil => "nil"
  | bool _ => "bool"
  | str _ => "string"
  | num _ => "number"
  | list _ => "list"
  | map _ => "map"
  | ns _ => "ns"
  | closure _ | builtin _ | constantly _ | external _ => "fn"
  | exception _ => "exception"

/-- Does the value count as true? -/
def truthy : Value → Bool
  | nil | bool false | exception _ => false
  | _ => true

/-- Can the value be a command? -/
def callable : Value → Bool
  | closure _ | builtin _ | constantly _ | external _ => true
  | _ => false

/-- The text, if the value is one. -/
def str? : Value → Option String
  | str s => some s
  | _ => none

/-- The items, if the value is a list. -/
def list? : Value → Option (List Value)
  | list items => some items
  | _ => none

/-- The namespace, if the value is one. -/
def ns? : Value → Option NsId
  | ns id => some id
  | _ => none

/-- The value as a number: a number, or a text that spells one. -/
def toNum? : Value → Option Num
  | num n => some n
  | str s => Num.read? s
  | _ => none

/-- The name of a value that is a builtin command. -/
def builtinName? : Value → Option String
  | builtin b => some b.name
  | constantly _ => some Builtin.constantly.name
  | _ => none

end Value

/-- The complaint that a value is of the wrong kind. -/
def Reason.wrongKind (what valid : String) (v : Value) : Reason :=
  .badValue what valid v.kind

end ValueShell
