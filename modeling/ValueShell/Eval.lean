import ValueShell.Eval.Exec

/-!
# Evaluation

The engine with a bounded number of steps.  A step is used by a call inside a call and by a round of a
loop; with more steps a run that ends goes the same way, and a run that used its steps up goes further.
-/

set_option autoImplicit false

namespace ValueShell

/-- The engine with `n` steps. -/
def engine : Nat → Engine
  | 0 => ⟨fun _ _ ↦ .spent, fun _ _ _ _ ↦ .spent, 0⟩
  | n + 1 =>
    { run := fun op fm k ↦ op.exec (engine n) fm k
      call := fun fm f args opts k ↦ (engine n).callValue fm f args opts k
      turns := n }

end ValueShell
