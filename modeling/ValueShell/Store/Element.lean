import ValueShell.Store

/-!
# Elements of values

Reading, replacing and removing the element of a list, a map or a namespace that a key names, and the
same along a path of keys.  Lists and maps are rebuilt around the change, namespaces are changed in
place; so `assocPath` and `dissocPath` give both a value and a store.

A position in a list is a whole number, counted from the end when it is negative, and may be written as
text.
-/

set_option autoImplicit false

namespace ValueShell

/-- The position a key names in a list of the given length. -/
def listIndex? (key : Value) (length : Nat) : Option Nat :=
  match key.toNum? with
  | some (.int i) =>
    let j := if i < 0 then i + length else i
    if 0 ≤ j ∧ j < length then some j.toNat else none
  | _ => none

namespace Store

/-- The element a key names. -/
def index (s : Store) (base key : Value) : Except Reason Value :=
  match base with
  | .list items =>
    match (listIndex? key items.length).bind (items[·]?) with
    | some v => .ok v
    | none =>
      .error (.badValue "index"
        s!"integer from -{items.length} to {items.length - 1}" key.repr)
  | .map entries =>
    match Entries.get? entries key with
    | some v => .ok v
    | none => .error (.noSuchKey key.repr)
  | .ns ns =>
    match key.str?.bind ((s.bindings ns).find? ·) with
    | some c => .ok (s.read c)
    | none => .error (.noSuchKey key.repr)
  | _ => .error (.wrongKind "indexee" "list, map or namespace" base)

/-- The value with the element a key names replaced. -/
def assoc (s : Store) (base key v : Value) : Except Reason (Value × Store) :=
  match base with
  | .list items =>
    match listIndex? key items.length with
    | some i => .ok (.list (items.set i v), s)
    | none => .error (.badValue "index" "valid list index" key.repr)
  | .map entries => .ok (.map (Entries.insert key v entries), s)
  | .ns ns =>
    match key with
    | .str name =>
      match (s.bindings ns).find? name with
      | some c => .ok (base, s.write c v)
      | none => .ok (base, (s.declare ns name v).2)
    | _ => .error (.wrongKind "namespace key" "string" key)
  | _ => .error (.wrongKind "assignment target" "list, map or namespace" base)

/-- The value with the element at the end of a path replaced; with no path, the new element. -/
def assocPath (s : Store) (base : Value) : List Value → Value → Except Reason (Value × Store)
  | [], v => .ok (v, s)
  | [key], v => s.assoc base key v
  | key :: path, v => do
    let inner ← s.index base key
    let (inner, s) ← s.assocPath inner path v
    s.assoc base key inner

/-- The value with the element a key names removed. -/
def dissoc (s : Store) (base key : Value) : Except Reason (Value × Store) :=
  match base with
  | .map entries =>
    match Entries.get? entries key with
    | some _ => .ok (.map (Entries.erase key entries), s)
    | none => .error (.noSuchKey key.repr)
  | .ns ns =>
    match key.str?.bind fun name ↦ ((s.bindings ns).find? name).map fun _ ↦ name with
    | some name => .ok (base, (s.remove ns name).2)
    | none => .error (.noSuchKey key.repr)
  | _ => .error (.wrongKind "deletion target" "map or namespace" base)

/-- The value with the element at the end of a path removed; with no path, the value itself. -/
def dissocPath (s : Store) (base : Value) : List Value → Except Reason (Value × Store)
  | [] => .ok (base, s)
  | [key] => s.dissoc base key
  | key :: path => do
    let inner ← s.index base key
    let (inner, s) ← s.dissocPath inner path
    s.assoc base key inner

end Store

end ValueShell
