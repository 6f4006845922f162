import ValueShell.Files
import ValueShell.Store

/-!
# Loading modules once

The table of modules that are loaded or being loaded.  A caller that wants a module either finds it
loaded, or gets to load it, or waits until whoever loads it has finished.  A load that fails leaves no
trace, so the next caller may try again.

Waiting could go round in a circle: each caller is itself in the middle of loading the modules of its
`chain`, and a module that is waited for may be waiting for one of those.  A caller therefore asks
`waitsOn` before it starts to wait, and is turned away if it would close a circle.

Every function here is one indivisible step.  A caller's whole visit is `attempt`, then perhaps `recheck`
or `leave` after waiting, and, if it got to load, `finish` or `abandon`.
-/

set_option autoImplicit false

namespace ValueShell

/-- What is known of a module's load. -/
inductive Load where
  | loading
  | done (ns : NsId)
deriving DecidableEq, Repr

/-- A caller that waits for `target` while it is loading the modules of `chain`. -/
structure Waiter where
  chain : List FilePath
  target : FilePath
deriving DecidableEq, Repr

/-- The table of modules and the callers that wait. -/
structure LoadState where
  modules : List (FilePath × Load)
  waiters : List (Nat × Waiter)
  nextWaiter : Nat
deriving Repr

/-- What a caller is told. -/
inductive Claim where
  | ready (ns : NsId)
  /-- The caller is to load the module, and to say how that ended -/
  | load
  /-- Waiting would never end -/
  | cycle
  | wait (waiter : Nat)
  /-- Still being loaded when the caller gave up waiting -/
  | givenUp
deriving DecidableEq, Repr

namespace LoadState

/-- No modules, and nobody waiting. -/
def empty : LoadState :=
  ⟨[], [], 0⟩

/-- What is known of a module. -/
def status? (s : LoadState) (path : FilePath) : Option Load :=
  (s.modules.find? (·.1 = path)).map (·.2)

/-- The state with the status of a module set. -/
def setStatus (s : LoadState) (path : FilePath) (load : Load) : LoadState :=
  { s with modules := s.modules.filter (·.1 ≠ path) ++ [(path, load)] }

/-- The modules waited for by callers in the middle of loading `path`. -/
def targetsOf (s : LoadState) (path : FilePath) : List FilePath :=
  (s.waiters.filter fun (_, w) ↦ w.chain.contains path).map fun (_, w) ↦ w.target

/-- Can a module of `chain` be reached from the pending ones, going only through modules that are not
seen yet? -/
def search (s : LoadState) (chain : List FilePath) :
    List FilePath → List FilePath → Bool
  | _, [] => false
  | unseen, path :: pending =>
    if chain.contains path then true
    else if _ : path ∈ unseen then
      search s chain (unseen.erase path) (s.targetsOf path ++ pending)
    else search s chain unseen pending
termination_by unseen pending => (unseen.length, pending.length)
decreasing_by
  · refine Prod.Lex.left _ _ ?_
    rename_i hmem
    rw [List.length_erase_of_mem hmem]
    exact Nat.sub_one_lt (Nat.ne_of_gt (List.length_pos_of_mem hmem))
  · exact Prod.Lex.right _ (by simp)

/-- Is the load of `target` waiting, directly or through others, for one of the modules of `chain`? -/
def waitsOn (s : LoadState) (target : FilePath) (chain : List FilePath) : Bool :=
  s.search chain (target :: s.waiters.map fun (_, w) ↦ w.target) [target]

/-- A caller asks for a module. -/
def attempt (s : LoadState) (path : FilePath) (chain : List FilePath) : Claim × LoadState :=
  match s.status? path with
  | some (.done ns) => (.ready ns, s)
  | none => (.load, s.setStatus path .loading)
  | some .loading =>
    if s.waitsOn path chain then (.cycle, s)
    else
      (.wait s.nextWaiter,
        { s with
          waiters := s.waiters ++ [(s.nextWaiter, ⟨chain, path⟩)]
          nextWaiter := s.nextWaiter + 1 })

/-- The state without a waiter. -/
def leave (s : LoadState) (waiter : Nat) : LoadState :=
  { s with waiters := s.waiters.filter (·.1 ≠ waiter) }

/-- A waiting caller looks again, and leaves in any case. -/
def recheck (s : LoadState) (waiter : Nat) (path : FilePath) : Claim × LoadState :=
  match s.status? path with
  | some (.done ns) => (.ready ns, s.leave waiter)
  | none => (.load, (s.setStatus path .loading).leave waiter)
  | some .loading => (.givenUp, s.leave waiter)

/-- A load has succeeded. -/
def finish (s : LoadState) (path : FilePath) (ns : NsId) : LoadState :=
  s.setStatus path (.done ns)

/-- A load has failed. -/
def abandon (s : LoadState) (path : FilePath) : LoadState :=
  { s with modules := s.modules.filter (·.1 ≠ path) }

/-- The number of modules that are loaded. -/
def loadedCount (s : LoadState) : Nat :=
  (s.modules.filter fun (_, load) ↦ load ≠ .loading).length

end LoadState

end ValueShell
