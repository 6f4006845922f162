/-!
# Names

A variable's last character tells what it holds: `f~` holds a function and `m:` a namespace.  A name
with a colon before its end is qualified: `m:n:x` is `x` in the namespace `n:` of the namespace `m:`.

`Name.path` splits a name at its colons, and all questions about qualified names are asked of the path.
`Name.command` decides what a command word refers to; the static check and a running script ask it
with different ways to find out which names are visible.
-/

set_option autoImplicit false

namespace ValueShell

namespace Name

/-- The variable that holds the function called `name`. -/
def function (name : String) : String :=
  name ++ "~"

/-- The variable that holds the namespace called `name`. -/
def space (name : String) : String :=
  name ++ ":"

/-- Cuts behind every colon but a last one. -/
def cutColons : List Char → List (List Char)
  | [] => [[]]
  | [c] => [[c]]
  | c :: cs =>
    if c = ':' then [c] :: cutColons cs
    else match cutColons cs with
      | first :: others => (c :: first) :: others
      | [] => [[c]]

/-- The namespaces a qualified name goes through, outermost first, and then the name inside the last of
them.  An unqualified name is a path of one. -/
def path (name : String) : List String :=
  (cutColons name.toList).map String.ofList

/-- The part of a name that is looked up in the scope: all of an unqualified name, and otherwise the
outermost namespace. -/
def root (name : String) : String :=
  (path name).headD name

/-- Does the name go through a namespace? -/
def isQualified (name : String) : Bool :=
  1 < (path name).length

/-- What a command word refers to. -/
inductive Command where
  /-- The function in this variable -/
  | function (var : String)
  /-- A program outside the shell -/
  | external (program : String)
  /-- A function in a namespace that is not visible -/
  | unbound (var : String)
deriving DecidableEq, Repr

/-- What the command word `name` refers to when `visible` finds out whether a variable can be seen.

Behind `e:` stands an external program.  A qualified name always refers to a function; any other name
refers to a function if there is one, and otherwise to an external program. -/
def command {m : Type → Type} [Monad m] (name : String) (visible : String → m Bool) : m Command :=
  match name.toList with
  | 'e' :: ':' :: program => pure (.external (String.ofList program))
  | _ =>
    if isQualified name then do
      return if ← visible (root name) then .function (function name) else .unbound (function name)
    else do
      return if ← visible (function name) then .function (function name) else .external name

/-- The command words that are not looked up. -/
def specialForms : List String :=
  ["var", "set", "del", "fn", "use", "if", "while", "for", "try", "and", "or"]

/-- Is the name one that is not looked up? -/
def isSpecial (name : String) : Bool :=
  specialForms.contains name

/-- What stands behind the last slash of a text; all of it when there is none. -/
def lastSegment (spec : String) : String :=
  String.ofList (spec.toList.reverse.takeWhile (· ≠ '/')).reverse

/-- A target without the `@` that marks it as taking the rest, and whether it had one. -/
def stripRest (word : String) : String × Bool :=
  match word.toList with
  | '@' :: name => (String.ofList name, true)
  | _ => (word, false)

end Name

end ValueShell
