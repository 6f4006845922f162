import ValueShell.Signature

/-!
# The store

Everything that is known by identity: cells, which hold one value each; namespaces, which bind names to
cells; and closures.  The three tables only grow, so an identity stays good for ever.  A cell's value
and a namespace's bindings may change; a closure never does.

`Bindings` are the bindings of a namespace at one moment.  The scope a closure captures is a list of
them, not of namespaces: what is declared or removed later cannot reach it, and only the cells are
shared.
-/

set_option autoImplicit false

namespace ValueShell

/-! ## Bindings -/

/-- Names bound to cells, in the order they were declared. -/
abbrev Bindings := List (String × CellId)

namespace Bindings

/-- The cell a name is bound to. -/
def find? (bs : Bindings) (name : String) : Option CellId :=
  (List.find? (fun (n, _) ↦ n = name) bs).map (·.2)

/-- The bindings with a name bound.  A name that is there keeps its place. -/
def insert (name : String) (c : CellId) : Bindings → Bindings
  | [] => [(name, c)]
  | (n, d) :: bs => if n = name then (n, c) :: bs else (n, d) :: insert name c bs

/-- The bindings without a name; the others keep their order. -/
def erase (name : String) : Bindings → Bindings
  | [] => []
  | (n, c) :: bs => if n = name then bs else (n, c) :: erase name bs

/-- The bindings with those of another namespace put over them. -/
def absorb (bs others : Bindings) : Bindings :=
  others.foldl (fun bs (n, c) ↦ bs.insert n c) bs

/-- The names in their order. -/
def names (bs : Bindings) : List String :=
  bs.map (·.1)

end Bindings

/-! ## Scopes -/

/-- The cell a name is bound to, searching bindings from the front on. -/
def Bindings.findIn? : List Bindings → String → Option CellId
  | [], _ => none
  | bs :: outer, name =>
    match bs.find? name with
    | some c => some c
    | none => findIn? outer name

/-- All bindings of a chain in one: the innermost, which stands first, over those further out. -/
def Bindings.flatten (chain : List Bindings) : Bindings :=
  chain.reverse.foldl Bindings.absorb []

/-! ## The tables -/

/-- A function of a script: its code and the scope it was made in. -/
structure Closure where
  signature : Signature
  body : Op
  /-- The bindings around the code, innermost first -/
  captured : List Bindings
  /-- The source the code belongs to -/
  source : Source

/-- The cells, namespaces and closures there are. -/
structure Store where
  cells : Array Value
  spaces : Array Bindings
  closures : Array Closure

namespace Store

/-- A store with nothing in it. -/
def empty : Store :=
  ⟨#[], #[], #[]⟩

/-- The value in a cell. -/
def read (s : Store) (c : CellId) : Value :=
  s.cells.getD c.index .nil

/-- Puts a value into a cell. -/
def write (s : Store) (c : CellId) (v : Value) : Store :=
  { s with cells := s.cells.setIfInBounds c.index v }

/-- A new cell. -/
def newCell (s : Store) (v : Value) : CellId × Store :=
  (⟨s.cells.size⟩, { s with cells := s.cells.push v })

/-- The bindings of a namespace. -/
def bindings (s : Store) (ns : NsId) : Bindings :=
  s.spaces.getD ns.index []

/-- Changes the bindings of a namespace. -/
def modifySpace (s : Store) (ns : NsId) (f : Bindings → Bindings) : Store :=
  { s with spaces := s.spaces.modify ns.index f }

/-- A new namespace. -/
def newSpace (s : Store) (bs : Bindings) : NsId × Store :=
  (⟨s.spaces.size⟩, { s with spaces := s.spaces.push bs })

/-- Binds a name to a new cell, whether or not it was bound before. -/
def declare (s : Store) (ns : NsId) (name : String) (v : Value) : CellId × Store :=
  let (c, s) := s.newCell v
  (c, s.modifySpace ns (·.insert name c))

/-- Binds names to new cells, one after another. -/
def declareAll (s : Store) (ns : NsId) (pairs : List (String × Value)) : Store :=
  pairs.foldl (fun s (name, v) ↦ (s.declare ns name v).2) s

/-- A new namespace with the given variables. -/
def spaceOfPairs (s : Store) (pairs : List (String × Value)) : NsId × Store :=
  let (ns, s) := s.newSpace []
  (ns, s.declareAll ns pairs)

/-- Removes a name, and says whether it was bound. -/
def remove (s : Store) (ns : NsId) (name : String) : Bool × Store :=
  (((s.bindings ns).find? name).isSome, s.modifySpace ns (·.erase name))

/-- The closure with this identity. -/
def closure? (s : Store) (id : ClosureId) : Option Closure :=
  s.closures[id.index]?

/-- A new closure. -/
def newClosure (s : Store) (c : Closure) : ClosureId × Store :=
  (⟨s.closures.size⟩, { s with closures := s.closures.push c })

/-! ## Looking names up -/

/-- The cell a path leads to from inside a namespace. -/
def resolveIn (s : Store) (ns : NsId) : List String → Option CellId
  | [] => none
  | [name] => (s.bindings ns).find? name
  | space :: path =>
    match (s.bindings ns).find? space with
    | some c =>
      match s.read c with
      | .ns inner => s.resolveIn inner path
      | _ => none
    | none => none

/-- The cell a name leads to, when its root is looked up in a chain of bindings. -/
def find? (s : Store) (chain : List Bindings) (name : String) : Option CellId :=
  match Name.path name with
  | [] => none
  | [root] => Bindings.findIn? chain root
  | root :: path =>
    match Bindings.findIn? chain root with
    | some c =>
      match s.read c with
      | .ns ns => s.resolveIn ns path
      | _ => none
    | none => none

end Store

end ValueShell
