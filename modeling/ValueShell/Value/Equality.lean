import ValueShell.Value.Text

/-!
# Equal values and equal keys

Two notions, which differ for floats alone.  As values, a float that is not a number equals nothing;
as keys of a map, all such floats are one key, and so are the two zeros, so that what was put under a
key can be found again.

Namespaces and closures are equal when they are the same one.  Builtin commands are known by their
names, and exceptions by their messages.  Two maps are equal when they have the same keys, in whatever
order, with equal values.

`Entries` are the entries of a map; they are looked up, set and removed by key equality, and keep
the order in which their keys first came.
-/

set_option autoImplicit false

namespace ValueShell

/-- Are the floats one key? -/
def sameFloatKey (x y : Float) : Bool :=
  x == y || (x.isNaN && y.isNaN)

namespace Value

/-- Equality of what is not a float, a list or a map. -/
def sameSimple : Value → Value → Bool
  | nil, nil => true
  | bool a, bool b => a == b
  | str s, str t => s == t
  | num m, num n => m.same n
  | ns a, ns b => a == b
  | closure a, closure b => a == b
  | external a, external b => a == b
  | exception e, exception f => e.message == f.message
  | a, b =>
    match a.builtinName?, b.builtinName? with
    | some m, some n => m == n
    | _, _ => false

mutual

/-- Equality of keys. -/
def keyEq : Value → Value → Bool
  | num (.float x), num (.float y) => sameFloatKey x y
  | list xs, list ys => keyEqItems xs ys
  | map xs, map ys => xs.length == ys.length && keyEqWithin xs ys
  | a, b => sameSimple a b

/-- Are the items equal as keys, one by one? -/
def keyEqItems : List Value → List Value → Bool
  | [], [] => true
  | x :: xs, y :: ys => keyEq x y && keyEqItems xs ys
  | _, _ => false

/-- Is every entry also one of `ys`, up to equality of keys? -/
def keyEqWithin : List (Value × Value) → List (Value × Value) → Bool
  | [], _ => true
  | (k, v) :: xs, ys =>
    (match ys.find? fun (k', _) ↦ keyEq k k' with
      | some (_, w) => keyEq v w
      | none => false) && keyEqWithin xs ys

end

mutual

/-- Equality of values. -/
def same : Value → Value → Bool
  | list xs, list ys => sameItems xs ys
  | map xs, map ys => xs.length == ys.length && sameWithin xs ys
  | a, b => sameSimple a b

/-- Are the items equal, one by one? -/
def sameItems : List Value → List Value → Bool
  | [], [] => true
  | x :: xs, y :: ys => same x y && sameItems xs ys
  | _, _ => false

/-- Is every entry also one of `ys`, with an equal key and an equal value? -/
def sameWithin : List (Value × Value) → List (Value × Value) → Bool
  | [], _ => true
  | (k, v) :: xs, ys =>
    (match ys.find? fun (k', _) ↦ keyEq k k' with
      | some (_, w) => same v w
      | none => false) && sameWithin xs ys

end

end Value

/-- The entries of a map. -/
abbrev Entries := List (Value × Value)

namespace Entries

/-- The value under a key. -/
def get? (entries : Entries) (key : Value) : Option Value :=
  (entries.find? fun (k, _) ↦ key.keyEq k).map (·.2)

/-- The entries with a value put under a key.  A key that is there keeps its place and its form; a new
one comes last. -/
def insert (key value : Value) : Entries → Entries
  | [] => [(key, value)]
  | (k, v) :: entries =>
    if key.keyEq k then (k, value) :: entries else (k, v) :: insert key value entries

/-- The entries without a key; the others keep their order. -/
def erase (key : Value) : Entries → Entries
  | [] => []
  | (k, v) :: entries => if key.keyEq k then entries else (k, v) :: erase key entries

/-- The map that given pairs make: of several with one key the last value counts, at the place of the
first. -/
def ofPairs (pairs : List (Value × Value)) : Entries :=
  pairs.foldl (fun entries (k, v) ↦ entries.insert k v) []

end Entries

/-- The map of given pairs. -/
def Value.ofPairs (pairs : List (Value × Value)) : Value :=
  .map (Entries.ofPairs pairs)

end ValueShell
