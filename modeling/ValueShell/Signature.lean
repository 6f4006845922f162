import ValueShell.Value.Equality

/-!
# Signatures and arguments

A signature says what a command accepts: positional parameters, of which one may take all arguments
that the others leave, named options with defaults, and perhaps a parameter for all other options.

`Signature.bind` matches arguments against it.  What it gives has exactly one value for each parameter
and every declared option once.  A wrong number of arguments is reported before an unknown option.
-/

set_option autoImplicit false

namespace ValueShell

namespace Options

/-- The value of an option. -/
def get? (opts : Options) (name : String) : Option Value :=
  (opts.find? fun (n, _) ↦ n = name).map (·.2)

/-- The options with one set.  An option that is there keeps its place. -/
def insert (name : String) (v : Value) : Options → Options
  | [] => [(name, v)]
  | (n, w) :: opts => if n = name then (n, v) :: opts else (n, w) :: insert name v opts

/-- The options that given pairs make: of several of one name the last counts. -/
def ofPairs (pairs : List (String × Value)) : Options :=
  pairs.foldl (fun opts (n, v) ↦ opts.insert n v) []

end Options

/-- What a command accepts. -/
structure Signature where
  /-- The positional parameters -/
  params : List String
  /-- The position of the parameter that takes the rest -/
  rest : Option Nat
  /-- The options and what they are when they are not given -/
  options : List (String × Value)
  /-- The parameter for all other options -/
  restOptions : Option String

/-- Arguments that fit a signature. -/
structure Args where
  /-- One value for each parameter -/
  positional : List Value
  /-- Every declared option -/
  options : Options
  /-- The options that are not declared -/
  extra : Options

/-- The option, unless it is nil, which counts as not given. -/
def Args.option? (args : Args) (name : String) : Option Value :=
  match args.options.get? name with
  | some .nil => none
  | v => v

/-- The value of a parameter. -/
def Args.param (args : Args) (i : Nat) : Value :=
  args.positional.getD i .nil

/-- The items of a parameter that takes the rest. -/
def Args.items (args : Args) (i : Nat) : List Value :=
  ((args.param i).list?).getD []

/-- The values with `count` of them, from position `i` on, made into one list. -/
def gather (i count : Nat) (vs : List Value) : List Value :=
  vs.take i ++ .list ((vs.drop i).take count) :: vs.drop (i + count)

namespace Signature

/-- No parameters and no options. -/
def empty : Signature :=
  ⟨[], none, [], none⟩

/-- With one more parameter. -/
def param (s : Signature) (name : String) : Signature :=
  { s with params := s.params ++ [name] }

/-- With one more parameter, which takes the rest. -/
def restParam (s : Signature) (name : String) : Signature :=
  { s with params := s.params ++ [name], rest := some s.params.length }

/-- With one more option. -/
def option (s : Signature) (name : String) (default : Value) : Signature :=
  { s with options := s.options ++ [(name, default)] }

/-- With a parameter for all other options. -/
def withRestOptions (s : Signature) (name : String) : Signature :=
  { s with restOptions := some name }

/-- The least and, if there is one, the greatest number of positional arguments. -/
def arity (s : Signature) : Nat × Option Nat :=
  match s.rest with
  | some _ => (s.params.length - 1, none)
  | none => (s.params.length, some s.params.length)

/-- How messages give the number of arguments. -/
def arityText (s : Signature) : String :=
  match s.arity with
  | (_, some max) => toString max
  | (min, none) => s!"{min} or more"

/-- Does this number of positional arguments fit? -/
def accepts (s : Signature) (count : Nat) : Bool :=
  s.arity.1 ≤ count && s.arity.2.all (count ≤ ·)

/-- Is the option declared? -/
def declares (s : Signature) (name : String) : Bool :=
  s.options.any (·.1 = name)

/-- One value for each parameter. -/
def place (s : Signature) (args : List Value) : List Value :=
  match s.rest with
  | some i => gather i (args.length - s.arity.1) args
  | none => args

/-- The declared options: those given, in the order they were given, and then the others. -/
def fill (s : Signature) (given : Options) : Options :=
  s.options.foldl (fun opts (n, v) ↦ if (opts.get? n).isSome then opts else opts ++ [(n, v)]) given

/-- Matches arguments against the signature. -/
def bind (s : Signature) (args : List Value) (opts : Options) : Except Reason Args :=
  if s.accepts args.length then
    match s.restOptions, opts.find? fun (n, _) ↦ !s.declares n with
    | none, some (n, _) => .error (.unsupportedOption n)
    | _, _ =>
      .ok
        { positional := s.place args
          options := s.fill (opts.filter fun (n, _) ↦ s.declares n)
          extra := opts.filter fun (n, _) ↦ !s.declares n }
  else .error (.arityMismatch "arguments" s.arityText args.length)

end Signature

namespace Builtin

/-- What a builtin command accepts. -/
def signature : Builtin → Signature
  | put | all | kindOf | constantly => Signature.empty.restParam "values"
  | echo | print => (Signature.empty.restParam "values").option "sep" (.str " ")
  | nop => (Signature.empty.restParam "args").withRestOptions "opts"
  | ns => Signature.empty.param "map"
  | num | float64 => Signature.empty.param "n"
  | external => Signature.empty.param "name"
  | fail => Signature.empty.param "reason"
  | leave | stop | next => Signature.empty
  | eval => ((Signature.empty.param "code").option "ns" .nil).option "on-end" .nil
  | call => ((Signature.empty.param "f").param "args").param "opts"
  | resolve => Signature.empty.param "command"
  | useMod => Signature.empty.param "spec"
  | warn => Signature.empty.param "message"
  | sleep => Signature.empty.param "duration"
  | time => (Signature.empty.param "body").option "on-end" .nil

end Builtin

end ValueShell
