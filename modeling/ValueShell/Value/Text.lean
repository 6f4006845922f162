import ValueShell.Text.Alphanumeric
import ValueShell.Value

/-!
# How values and failures are written

`Value.repr` writes a value the way a script would: what is built from nil, booleans, text, exact
numbers, lists and maps reads back as itself.  Text stands bare where a word could, and otherwise
between single quotation marks with the marks inside doubled.

`Value.text` is what becomes of a value where text is wanted: text itself, a number's digits, and
otherwise the written form.

Messages of exceptions show values and exceptions are values, so all of it is one recursion.
-/

set_option autoImplicit false

namespace ValueShell

/-! ## Text in written form -/

/-- May the character stand in a word without quotation marks? -/
def isBarewordChar (c : Char) : Bool :=
  isAlphanumeric c || "-_./:@~!%+,*?^".toList.contains c

/-- A text as a script writes it. -/
def writeText (s : String) : String :=
  if !s.isEmpty && s.toList.all isBarewordChar then s
  else
    "'" ++ String.ofList (s.toList.flatMap fun c ↦ if c = '\'' then ['\'', '\''] else [c]) ++ "'"

/-- A number in hexadecimal, marked as such. -/
def writeHex (n : Nat) : String :=
  "0x" ++ String.ofList (Nat.toDigits 16 n)

/-- Where a message places a fault. -/
def atLocation (message : String) (location : Location) : String :=
  s!"{message} at {location.text}"

/-! ## Values, reasons, failures -/

mutual

/-- A value as a script writes it. -/
def Value.repr : Value → String
  | .nil => "$nil"
  | .bool true => "$true"
  | .bool false => "$false"
  | .str s => writeText s
  | .num n => s!"(num {n.text})"
  | .list items => "[" ++ " ".intercalate (reprItems items) ++ "]"
  | .map [] => "[&]"
  | .map entries => "[" ++ " ".intercalate (reprEntries entries) ++ "]"
  | .ns id => s!"<ns {writeHex id.index}>"
  | .closure id => s!"<closure {writeHex id.index}>"
  | .builtin b => s!"<builtin {b.name}>"
  | .constantly _ => s!"<builtin {Builtin.constantly.name}>"
  | .external program => s!"<external {program}>"
  | .exception e => s!"<exception: {e.message}>"

/-- The written forms of items. -/
def reprItems : List Value → List String
  | [] => []
  | v :: vs => v.repr :: reprItems vs

/-- The written forms of entries. -/
def reprEntries : List (Value × Value) → List String
  | [] => []
  | (k, v) :: entries => ("&" ++ k.repr ++ "=" ++ v.repr) :: reprEntries entries

/-- The message of an exception. -/
def Exception.message : Exception → String
  | .mk reason _ => reason.message

/-- The message for a reason. -/
def Reason.message : Reason → String
  | .fail (.str s) => s
  | .fail (.num n) => n.text
  | .fail v => v.repr
  | .badValue what valid actual => s!"bad value: {what} must be {valid}, but is {actual}"
  | .arityMismatch what valid actual =>
    s!"arity mismatch: {what} must be {valid}, but is {actual}"
  | .unsupportedOption name => s!"unsupported option: {name}"
  | .noSuchVariable name => s!"variable ${name} not found"
  | .noSuchKey key => s!"no such key: {key}"
  | .noSuchModule spec => s!"no such module: {spec}"
  | .moduleCycle spec => s!"module {spec} is already being loaded"
  | .invalidSleepDuration => "invalid sleep duration"
  | .negativeSleepDuration => "sleep duration must be >= zero"
  | .readerGone => "reader gone"
  | .interrupted => "interrupted"
  | .stackOverflow max => s!"max call depth exceeded ({max})"
  | .externalCommand program => s!"external command not available: {program}"
  | .fault text => text
  | .strayFlow flow => s!"{flow.text} outside of its construct"
  | .pipeline errors => "(" ++ " | ".intercalate (failureMessages errors) ++ ")"
  | .withCallback body callback =>
    s!"{body.message}; on-end callback also failed: {callback.message}"

/-- The message of a failure. -/
def Failure.message : Failure → String
  | .parse fault location => "parse error: " ++ atLocation fault.message location
  | .compile fault location => "compilation error: " ++ atLocation fault.message location
  | .exception e => e.message
  | .flow f => f.text

/-- The messages of failures. -/
def failureMessages : List Failure → List String
  | [] => []
  | e :: es => e.message :: failureMessages es

end

/-- What becomes of a value where text is wanted. -/
def Value.text : Value → String
  | .str s => s
  | .num n => n.text
  | v => v.repr

/-- The message of an exception, and a line for each call site it went through. -/
def Exception.traceback (e : Exception) : String :=
  s!"Exception: {e.message}\n" ++ String.join (e.stack.map fun site ↦ s!"  {site.line}\n")

end ValueShell
