import ValueShell.Name

/-!
# Builtin commands

The commands every script can use.  They are variables like any others, in a namespace that is searched
last; beside them it holds the three constants.
-/

set_option autoImplicit false

namespace ValueShell

/-- A builtin command. -/
inductive Builtin where
  | put
  | echo
  | print
  | nop
  | all
  | kindOf
  | constantly
  | ns
  | num
  | float64
  | external
  | fail
  | leave
  | stop
  | next
  | eval
  | call
  | resolve
  | useMod
  | warn
  | sleep
  | time
deriving DecidableEq, Repr

namespace Builtin

/-- The word that names the command. -/
def name : Builtin → String
  | put => "put"
  | echo => "echo"
  | print => "print"
  | nop => "nop"
  | all => "all"
  | kindOf => "kind-of"
  | constantly => "constantly"
  | ns => "ns"
  | num => "num"
  | float64 => "float64"
  | external => "external"
  | fail => "fail"
  | leave => "return"
  | stop => "break"
  | next => "continue"
  | eval => "eval"
  | call => "call"
  | resolve => "resolve"
  | useMod => "use-mod"
  | warn => "deprecate"
  | sleep => "sleep"
  | time => "time"

/-- The commands in the order they are declared. -/
def every : List Builtin :=
  [put, echo, print, nop, all, kindOf, constantly, ns, num, float64, external, fail, leave, stop, next,
    eval, call, resolve, useMod, warn, sleep, time]

/-- The command a word names. -/
def ofName? (name : String) : Option Builtin :=
  every.find? (·.name = name)

end Builtin

/-- The names in the builtin namespace. -/
def builtinNames : List String :=
  ["true", "false", "nil"] ++ Builtin.every.map fun b ↦ Name.function b.name

end ValueShell
