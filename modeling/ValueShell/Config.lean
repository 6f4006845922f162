/-!
# Configuration

The settings of an evaluator and how they are read.  Settings come as a `Datum`, the data a configuration
file can hold.  What is not set has its default, and what is unknown is passed over; a setting of the
wrong kind makes the whole configuration invalid.  Instead of named settings there may be a list of them
in their order.
-/

set_option autoImplicit false

namespace ValueShell

/-- The settings. -/
structure Config where
  /-- How deep calls may be nested -/
  maxCallDepth : Nat
  /-- Where modules are looked for -/
  libDirs : List String
  /-- How many values there is room for between two stages of a pipeline -/
  valueBuffer : Nat
  trace : Bool
deriving DecidableEq, Repr

/-- The settings that hold when nothing else is said. -/
def Config.default : Config :=
  ⟨1000, [], 32, false⟩

/-- What a configuration file can hold. -/
inductive Datum where
  | null
  | bool (b : Bool)
  | natural (n : Nat)
  /-- A number that is negative or was not written as a whole number -/
  | number
  | text (s : String)
  | list (items : List Datum)
  | fields (fields : List (String × Datum))

instance : Inhabited Datum := ⟨.null⟩

namespace Datum

/-- A size: a whole number that fits a word of 64 bits. -/
def size? : Datum → Option Nat
  | natural n => if n < 18446744073709551616 then some n else none
  | _ => none

/-- The truth value, if the datum is one. -/
def bool? : Datum → Option Bool
  | bool b => some b
  | _ => none

/-- The text, if the datum is one. -/
def text? : Datum → Option String
  | text s => some s
  | _ => none

/-- The texts, if the datum is a list of nothing else. -/
def texts? : Datum → Option (List String)
  | list items => items.mapM text?
  | _ => none

/-- A field read by `f`; `default` when there is none. -/
def field? {α : Type} (fs : List (String × Datum)) (name : String) (f : Datum → Option α)
    (default : α) : Option α :=
  match fs.find? (·.1 = name) with
  | some (_, d) => f d
  | none => some default

end Datum

namespace Config

/-- The names of the settings in their order. -/
def names : List String :=
  ["max_call_depth", "lib_dirs", "value_buffer", "trace"]

/-- The settings among named data. -/
def ofFields? (fs : List (String × Datum)) : Option Config := do
  return {
    maxCallDepth := ← Datum.field? fs "max_call_depth" Datum.size? Config.default.maxCallDepth
    libDirs := ← Datum.field? fs "lib_dirs" Datum.texts? Config.default.libDirs
    valueBuffer := ← Datum.field? fs "value_buffer" Datum.size? Config.default.valueBuffer
    trace := ← Datum.field? fs "trace" Datum.bool? Config.default.trace }

/-- The settings in a datum. -/
def ofDatum? : Datum → Option Config
  | .fields fs => ofFields? fs
  | .list items => if items.length ≤ names.length then ofFields? (names.zip items) else none
  | _ => none

end Config

end ValueShell
