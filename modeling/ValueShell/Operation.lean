import ValueShell.Source

/-!
# Operations

What a script does, once names have been checked and special forms told from commands.  Operations
are run against a frame; words are expressions, each of which gives any number of values.

Every form carries the call site it comes from and every lambda its source, so that an operation says
by itself which code it belongs to.
-/

set_option autoImplicit false

namespace ValueShell

mutual

/-- An operation. -/
inductive Op where
  /-- One after another -/
  | chunk (ops : List Op)
  /-- Two or more side by side, each reading what the one before it writes -/
  | pipeline (site : CallSite) (stages : List Op)
  /-- A command with its arguments, options and redirections -/
  | form (site : CallSite) (head : Head) (args : List Expr) (opts : List (String × Option Expr))
    (redirs : List Redirect)
  /-- Declares variables; `none` stands for a value that is thrown away, and without values all
  variables are nil -/
  | var (site : CallSite) (targets : List (Option String)) (rest : Option Nat)
    (values : Option (List Expr))
  /-- Assigns to places -/
  | set (site : CallSite) (targets : List Place) (rest : Option Nat) (values : List Expr)
  /-- Removes a variable or an element -/
  | del (site : CallSite) (target : Place)
  /-- Declares a function, which can call itself -/
  | fn (site : CallSite) (var : String) (lambda : LambdaDef)
  /-- The body of a declared function: a `return` stops here -/
  | fnBody (body : Op)
  /-- Loads a module into a variable -/
  | use (site : CallSite) (spec : String) (var : String)
  /-- The first branch whose condition holds -/
  | ifForm (site : CallSite) (branches : List (Expr × Expr)) (otherwise : Option Expr)
  /-- A loop; `otherwise` is for a loop whose body never ran -/
  | whileForm (site : CallSite) (cond : Expr) (body : Expr) (otherwise : Option Expr)
  /-- A loop over the items of a list or the keys of a map -/
  | forForm (site : CallSite) (var : String) (iterable : Expr) (body : Expr)
    (otherwise : Option Expr)
  /-- Catches exceptions; the last part is run whatever happens -/
  | tryForm (site : CallSite) (body : Expr) (handler : Option (Option String × Expr))
    (otherwise : Option Expr) (finally? : Option Expr)
  /-- Puts the first value whose truth is `stopOn`, or the last value -/
  | logic (site : CallSite) (stopOn : Bool) (args : List Expr)

/-- What a command word stands for. -/
inductive Head where
  /-- A function in a variable that is looked up when the form runs -/
  | function (var : String)
  /-- A program outside the shell -/
  | external (program : String)
  /-- Any other word -/
  | word (e : Expr)

/-- Where a stream of a form goes. -/
inductive Redirect where
  | file (fd : Nat) (path : Expr) (append : Bool)
  | dup (fd : Nat) (source : Nat)

/-- A place to assign to: a variable, or an element of what is in it. -/
inductive Place where
  | mk (name : String) (indices : List Expr)

/-- A word. -/
inductive Expr where
  | literal (text : String)
  | variable (name : String) (explode : Bool)
  /-- What an operation puts -/
  | capture (op : Op)
  | list (items : List Expr)
  | map (pairs : List (Expr × Expr))
  | lambda (l : LambdaDef)
  | indexed (head : Expr) (indices : List (List Expr))
  /-- Parts that touch, put together as text -/
  | compound (parts : List Expr)

/-- Everything a closure is made of but the scope it is made in. -/
inductive LambdaDef where
  | mk (source : Source) (params : List String) (rest : Option Nat)
    (options : List (String × Expr)) (restOptions : Option String) (body : Op)

end

instance : Inhabited Op := ⟨.chunk []⟩

end ValueShell
