import ValueShell.Name
import ValueShell.Operation
import ValueShell.Syntax.Parser

/-!
# From syntax trees to operations

Lowering builds operations and checks on the way that every variable a script names is one it can see:
one declared earlier in the script, or one of the scope the script is compiled for.  A script that
fails the check does not run at all.

The names a lambda's code has declared so far are the state; they form one flat list, since blocks of
special forms are lambdas too.  What lies outside the lambda does not change while its body is lowered,
so `Enclosing` is only read.  Three rules keep the list right:

* a lambda starts with its parameters and options, and its declarations end with it;
* the default of an option is evaluated outside its lambda;
* `del` takes a name away again, and accepts only names of the innermost scope.

The functions follow the syntax.  Special forms are read off their list of items: what a special form
wants of its items is checked first, in the order of the items, and then one function for each shape
walks the list.
-/

set_option autoImplicit false

namespace ValueShell

/-- Why a parsed script is refused. -/
inductive CompileFault where
  | noVariable (name : String)
  | redirected (form : String)
  | optionIn (form : String)
  | equalsIn (form : String)
  | redirectNoTarget
  | lambdaTwoRests
  | noLambda
  | noVariableName
  | twoRests
  | emptyName
  | varNoTarget
  | varIndexed
  | notOneKey
  | setNoEquals
  | setNoTarget
  | delRest
  | delNotLocal (name : String)
  | usage (text : String)
  | noFunctionName
  | specNotLiteral
  | noAlias
  | noElifOrElse
  | noElse
  | catchNoBody
  | tryExtra
deriving DecidableEq, Repr

/-- The message for a fault. -/
def CompileFault.message : CompileFault → String
  | noVariable name => s!"variable ${name} not found"
  | redirected form => s!"{form} does not take redirections"
  | optionIn form => s!"{form} does not take options"
  | equalsIn form => s!"unexpected = in {form}"
  | redirectNoTarget => "redirection needs a target"
  | lambdaTwoRests => "only one rest parameter is allowed"
  | noLambda => "expected a lambda"
  | noVariableName => "expected a variable name"
  | twoRests => "at most one rest variable is allowed"
  | emptyName => "empty variable name"
  | varNoTarget => "var needs at least one variable"
  | varIndexed => "variable declarations cannot be indexed"
  | notOneKey => "an assignment index takes exactly one key"
  | setNoEquals => "set needs ="
  | setNoTarget => "set needs at least one variable"
  | delRest => "del does not take rest variables"
  | delNotLocal name => s!"only variables in the local scope can be deleted: ${name}"
  | usage text => "usage: " ++ text
  | noFunctionName => "expected a function name"
  | specNotLiteral => "module spec must be a literal string"
  | noAlias => "expected a module alias"
  | noElifOrElse => "expected elif or else"
  | noElse => "expected else"
  | catchNoBody => "catch needs a body"
  | tryExtra => "unexpected word in try"

/-- The variables a script is compiled for: those of the namespace it will run in, of the namespaces
around that, and of the builtin namespace. -/
structure Scope where
  inner : List String
  outer : List (List String)
  builtin : List String
deriving DecidableEq, Repr

/-- Is the variable in any part of the scope? -/
def Scope.has (s : Scope) (name : String) : Bool :=
  s.inner.contains name || s.outer.any (·.contains name) || s.builtin.contains name

namespace Lowering

/-- What lies around the code being lowered. -/
structure Enclosing where
  source : Source
  scope : Scope
  /-- The names declared so far in the lambdas around this code, innermost first -/
  lambdas : List (List String)

/-- Lowering reads and extends the names declared so far, and stops at the first fault. -/
abbrev Lower (α : Type) := StateT (List String) (Except (CompileFault × Nat)) α

/-! ## Names -/

/-- A fault at the start of a span. -/
def fail {α : Type} (span : Span) (fault : CompileFault) : Lower α :=
  throw (fault, span.start)

/-- Adds a name to those declared. -/
def declare (name : String) : Lower Unit :=
  modify (name :: ·)

/-- Can the variable be seen? -/
def has (env : Enclosing) (name : String) : Lower Bool := do
  let declared ← get
  return declared.contains name || env.lambdas.any (·.contains name) || env.scope.has name

/-- The variable, or the namespace a qualified one goes through first, has to be visible. -/
def checkVar (env : Enclosing) (span : Span) (name : String) : Lower Unit := do
  if ← has env (Name.root name) then pure () else fail span (.noVariable name)

/-- The call site of a span. -/
def site (env : Enclosing) (span : Span) : CallSite :=
  ⟨env.source, span⟩

/-! ## What special forms want of their items -/

/-- All items have to be arguments. -/
def argsOnly (form : String) : List Item → Lower Unit
  | [] => pure ()
  | .arg _ :: items => argsOnly form items
  | .opt span _ _ :: _ => fail span (.optionIn form)
  | .eq span :: _ => fail span (.equalsIn form)

/-- Is the item an equals sign? -/
def isEq : Item → Bool
  | .eq _ => true
  | _ => false

/-- The items before the first equals sign, and those behind it if there is one. -/
def splitEq (items : List Item) : List Item × Option (List Item) :=
  match items.dropWhile (!isEq ·) with
  | [] => (items, none)
  | _ :: right => (items.takeWhile (!isEq ·), some right)

/-- A word that names a target. -/
structure Target where
  span : Span
  name : String
  indexed : Bool

/-- The target a word names, and whether it takes the rest. -/
def target : Compound → Lower (Target × Bool)
  | ⟨span, [⟨_, .bareword word, indices⟩]⟩ =>
    let (name, isRest) := Name.stripRest word
    return (⟨span, name, !indices.isEmpty⟩, isRest)
  | word => fail word.span .noVariableName

/-- The targets from the `i`-th word on and the position of the one that takes the rest, of which
there may be one. -/
def targets (i : Nat) (rest : Option Nat) : List Item → Lower (List Target × Option Nat)
  | [] => return ([], rest)
  | .arg word :: items => do
    let (t, isRest) ← target word
    if isRest && rest.isSome then fail t.span .twoRests
    else if t.name.isEmpty then fail t.span .emptyName
    else
      let (others, rest) ← targets (i + 1) (if isRest then some i else rest) items
      return (t :: others, rest)
  | _ :: items => targets i rest items

/-- No target of a declaration is an element. -/
def noneIndexed : List Target → Lower Unit
  | [] => pure ()
  | t :: others => if t.indexed then fail t.span .varIndexed else noneIndexed others

/-- The variables a declaration makes; `_` makes none. -/
def declaredNames (ts : List Target) : List (Option String) :=
  ts.map fun t ↦ if t.name = "_" then none else some t.name

/-- The words of two-part special forms that have to be names. -/
def bareword (fault : CompileFault) (word : Compound) : Lower String :=
  match word.bareword? with
  | some name => return name
  | none => fail word.span fault

/-- Nothing may be left of a `try`. -/
def endTry : List Item → Lower Unit
  | [] => pure ()
  | item :: _ => fail item.span .tryExtra

/-- The alias that a `use` gives behind its specifier, if it gives one. -/
def useAlias (span : Span) : List Item → Lower (Option Compound)
  | [] => return none
  | [.arg word] => return some word
  | _ => fail span (.usage "use spec [alias]")

/-- The name of a used module: its alias, or the last part of its specifier. -/
def useName (spec : String) : Option Compound → Lower String
  | some word => bareword .noAlias word
  | none => return Name.lastSegment spec

/-- The module and the variable of a `use`. -/
def useForm (env : Enclosing) (span : Span) : List Item → Lower Op
  | .arg word :: items => do
    let given ← useAlias span items
    match word.literal? with
    | none => fail word.span .specNotLiteral
    | some spec =>
      let name ← useName spec given
      declare (Name.space name)
      return .use (site env span) spec (Name.space name)
  | _ => fail span (.usage "use spec [alias]")

/-- Parts that touch; a single one stands for itself. -/
def joinParts : List Expr → Expr
  | [e] => e
  | parts => .compound parts

/-! ## The order of the parts of an assignment

What is checked, evaluated and declared in which order; how the parts are lowered is given. -/

/-- The variables that are declared, and perhaps their values, which do not see them yet. -/
def varForm (env : Enclosing) (span : Span) (items : List Item) (values : Lower (List Expr)) :
    Lower Op := do
  let (left, right) := splitEq items
  argsOnly "var" left
  if left.isEmpty then fail span .varNoTarget
  else
    let (ts, rest) ← targets 0 none left
    noneIndexed ts
    argsOnly "var" (right.getD [])
    let values ← values
    let names := declaredNames ts
    names.forM fun name ↦ (name.forM declare : Lower Unit)
    return .var (site env span) names rest (right.map fun _ ↦ values)

/-- The places that are assigned to, and their values. -/
def setForm (env : Enclosing) (span : Span) (items : List Item) (values : Lower (List Expr))
    (places : Lower (List Place)) : Lower Op :=
  match splitEq items with
  | (_, none) => fail span .setNoEquals
  | (left, some right) => do
    argsOnly "set" left
    if left.isEmpty then fail span .setNoTarget
    else
      argsOnly "set" right
      let values ← values
      let (_, rest) ← targets 0 none left
      return .set (site env span) (← places) rest values

/-- The places that are removed. -/
def delForm (span : Span) (items : List Item) (removals : Lower (List Op)) : Lower Op := do
  let (_, rest) ← targets 0 none items
  if rest.isSome then fail span .delRest else return .chunk (← removals)

/-! ## The syntax -/

mutual

/-- A sequence of pipelines; each sees what those before it declare. -/
def chunk (env : Enclosing) : Chunk → Lower Op
  | ⟨pipelines⟩ => return .chunk (← pipelineList env pipelines)

/-- The pipelines in their order. -/
def pipelineList (env : Enclosing) : List Pipeline → Lower (List Op)
  | [] => return []
  | p :: ps => do
    let first ← pipeline env p
    let others ← pipelineList env ps
    return first :: others

/-- A single form is no pipeline. -/
def pipeline (env : Enclosing) : Pipeline → Lower Op
  | ⟨_, [f]⟩ => form env f
  | ⟨span, forms⟩ => return .pipeline (site env span) (← formList env forms)

/-- The stages of a pipeline in their order. -/
def formList (env : Enclosing) : List Form → Lower (List Op)
  | [] => return []
  | f :: fs => do
    let first ← form env f
    let others ← formList env fs
    return first :: others

/-- A command or a special form.  Special forms take no redirections. -/
def form (env : Enclosing) : Form → Lower Op
  | ⟨span, head, items, redirs⟩ =>
    match head.bareword?.filter Name.isSpecial, redirs with
    | some name, redir :: _ => fail redir.span (.redirected name)
    | some "var", [] => varForm env span items (wordsBehindEq env items)
    | some "set", [] => setForm env span items (wordsBehindEq env items) (places env items)
    | some name, [] => do
      argsOnly name items
      match name with
      | "del" => delForm span items (deletions env items)
      | "fn" => fnForm env span items
      | "use" => useForm env span items
      | "if" =>
        let (branches, otherwise) ← branchList env span items
        return .ifForm (site env span) branches otherwise
      | "while" => whileForm env span items
      | "for" => forForm env span items
      | "try" => tryForm env span items
      | "and" => return .logic (site env span) false (← words env items)
      | _ => return .logic (site env span) true (← words env items)
    | none, redirs => do
      let h ← commandHead env head
      let (args, opts) ← arguments env items
      return .form (site env span) h args opts (← redirects env redirs)

/-- What a command word stands for. -/
def commandHead (env : Enclosing) : Compound → Lower Head
  | ⟨span, parts⟩ => do
    match Compound.literal? ⟨span, parts⟩ with
    | none => return .word (joinParts (← indexedList env parts))
    | some name =>
      match ← Name.command name (has env) with
      | .function var => return .function var
      | .external program => return .external program
      | .unbound var => fail span (.noVariable var)

/-- The arguments and options of a command.  An equals sign is an argument like any other. -/
def arguments (env : Enclosing) : List Item → Lower (List Expr × List (String × Option Expr))
  | [] => return ([], [])
  | .arg word :: items => do
    let e ← compound env word
    let (args, opts) ← arguments env items
    return (e :: args, opts)
  | .opt _ name none :: items => do
    let (args, opts) ← arguments env items
    return (args, (name, none) :: opts)
  | .opt _ name (some word) :: items => do
    let e ← compound env word
    let (args, opts) ← arguments env items
    return (args, (name, some e) :: opts)
  | .eq _ :: items => do
    let (args, opts) ← arguments env items
    return (.literal "=" :: args, opts)

/-- The redirections in their order. -/
def redirects (env : Enclosing) : List Redir → Lower (List Redirect)
  | [] => return []
  | ⟨_, fd, .dup source, _⟩ :: redirs => return .dup fd source :: (← redirects env redirs)
  | ⟨span, _, _, none⟩ :: _ => fail span .redirectNoTarget
  | ⟨_, fd, mode, some word⟩ :: redirs => do
    let path ← compound env word
    return .file fd path (mode = .append) :: (← redirects env redirs)

/-- A word; one of a single part is that part. -/
def compound (env : Enclosing) : Compound → Lower Expr
  | ⟨_, parts⟩ => return joinParts (← indexedList env parts)

/-- The parts of a word in their order. -/
def indexedList (env : Enclosing) : List Indexed → Lower (List Expr)
  | [] => return []
  | part :: parts => do
    let first ← indexed env part
    let others ← indexedList env parts
    return first :: others

/-- A part with its indices; without any it is its head. -/
def indexed (env : Enclosing) : Indexed → Lower Expr
  | ⟨span, head, []⟩ => primary env span head
  | ⟨span, head, indices⟩ => do
    let h ← primary env span head
    return .indexed h (← wordLists env indices)

/-- The keys of each index. -/
def wordLists (env : Enclosing) : List (List Compound) → Lower (List (List Expr))
  | [] => return []
  | ws :: rest => do
    let first ← compoundList env ws
    let others ← wordLists env rest
    return first :: others

/-- Words in their order. -/
def compoundList (env : Enclosing) : List Compound → Lower (List Expr)
  | [] => return []
  | w :: ws => do
    let first ← compound env w
    let others ← compoundList env ws
    return first :: others

/-- The smallest part of a word.  Only variables are checked. -/
def primary (env : Enclosing) (span : Span) : Primary → Lower Expr
  | .bareword text => return .literal text
  | .quoted text => return .literal text
  | .variable name explode => do
    checkVar env span name
    return .variable name explode
  | .capture inside => return .capture (← chunk env inside)
  | .list ws => return .list (← compoundList env ws)
  | .map ps => return .map (← pairList env ps)
  | .lambda l => return .lambda (← lambda env false l)

/-- The pairs of a map in their order. -/
def pairList (env : Enclosing) : List (Compound × Compound) → Lower (List (Expr × Expr))
  | [] => return []
  | (k, v) :: ps => do
    let key ← compound env k
    let value ← compound env v
    let others ← pairList env ps
    return (key, value) :: others

/-- A lambda; `isFn` makes `return` stop at it. -/
def lambda (env : Enclosing) (isFn : Bool) : Lambda → Lower LambdaDef
  | ⟨span, params, options, restOptions, body⟩ => do
    let defaults ← defaultList env options
    let rests := params.filter (·.isRest)
    if 1 < rests.length then fail span .lambdaTwoRests
    else
      let outside ← get
      let names := params.map (·.name)
      set (names ++ options.map (·.1) ++ restOptions.toList)
      let inside ← chunk { env with lambdas := outside :: env.lambdas } body
      set outside
      return .mk env.source names (params.findIdx? (·.isRest)) defaults restOptions
        (if isFn then .fnBody inside else inside)

/-- The defaults of options, which belong to the code around the lambda. -/
def defaultList (env : Enclosing) : List (String × Compound) → Lower (List (String × Expr))
  | [] => return []
  | (name, w) :: options => do
    let first ← compound env w
    let others ← defaultList env options
    return (name, first) :: others

/-- A lambda that has to be written out, as all bodies have to be. -/
def written (env : Enclosing) (isFn : Bool) : Compound → Lower LambdaDef
  | ⟨_, [⟨_, .lambda l, []⟩]⟩ => lambda env isFn l
  | word => fail word.span .noLambda

/-- The words among the items. -/
def words (env : Enclosing) : List Item → Lower (List Expr)
  | [] => return []
  | .arg w :: items => do
    let first ← compound env w
    let others ← words env items
    return first :: others
  | _ :: items => words env items

/-- The words behind the first equals sign. -/
def wordsBehindEq (env : Enclosing) : List Item → Lower (List Expr)
  | [] => return []
  | .eq _ :: items => words env items
  | _ :: items => wordsBehindEq env items

/-- The places before the first equals sign. -/
def places (env : Enclosing) : List Item → Lower (List Place)
  | [] => return []
  | .eq _ :: _ => return []
  | .arg w :: items => do
    let first ← place env w
    let others ← places env items
    return first :: others
  | _ :: items => places env items

/-- A variable with indices, each of one key. -/
def place (env : Enclosing) : Compound → Lower Place
  | ⟨span, [⟨_, .bareword word, indices⟩]⟩ => do
    let (name, _) := Name.stripRest word
    checkVar env span name
    return .mk name (← placeKeys env span indices)
  | word => fail word.span .noVariableName

/-- The keys of a place; each index has one. -/
def placeKeys (env : Enclosing) (span : Span) : List (List Compound) → Lower (List Expr)
  | [] => return []
  | [key] :: rest => do
    let first ← compound env key
    let others ← placeKeys env span rest
    return first :: others
  | _ :: _ => fail span .notOneKey

/-- One deletion for each word.  A variable has to belong to the innermost scope, and is not visible any
more afterwards. -/
def deletions (env : Enclosing) : List Item → Lower (List Op)
  | [] => return []
  | .arg w :: items => do
    let p ← place env w
    match p with
    | .mk name [] =>
      let declared ← get
      let isLocal := env.lambdas.isEmpty && env.scope.inner.contains name
      set (declared.filter (· != name))
      if isLocal || declared.contains name then pure () else fail w.span (.delNotLocal name)
    | _ => pure ()
    let others ← deletions env items
    return .del (site env w.span) p :: others
  | _ :: items => deletions env items

/-- A named function, which its own body can call. -/
def fnForm (env : Enclosing) (span : Span) : List Item → Lower Op
  | [.arg name, .arg word] => do
    let var := Name.function (← bareword .noFunctionName name)
    declare var
    return .fn (site env span) var (← written env true word)
  | _ => fail span (.usage "fn name \x7b body \x7d")

/-- A condition, a body, and further branches. -/
def branchList (env : Enclosing) (span : Span) :
    List Item → Lower (List (Expr × Expr) × Option Expr)
  | .arg c :: .arg b :: items => do
    let cond ← compound env c
    let inside ← written env false b
    let (branches, otherwise) ← moreBranches env span items
    return ((cond, .lambda inside) :: branches, otherwise)
  | _ => fail span (.usage "if cond \x7b \x7d (elif cond \x7b \x7d)* (else \x7b \x7d)?")

/-- Further conditions, a last `else`, or nothing. -/
def moreBranches (env : Enclosing) (span : Span) :
    List Item → Lower (List (Expr × Expr) × Option Expr)
  | .arg keyword :: items =>
    match keyword.bareword? with
    | some "elif" => branchList env span items
    | some "else" => return ([], some (← elseBody env keyword.span .noElifOrElse items))
    | _ => fail keyword.span .noElifOrElse
  | _ => return ([], none)

/-- The one body behind an `else` at `span`. -/
def elseBody (env : Enclosing) (span : Span) (fault : CompileFault) : List Item → Lower Expr
  | [.arg b] => return .lambda (← written env false b)
  | _ => fail span fault

/-- A last `else`, or nothing. -/
def elseClause (env : Enclosing) : List Item → Lower (Option Expr)
  | .arg keyword :: items =>
    if keyword.bareword? = some "else" then
      return some (← elseBody env keyword.span .noElse items)
    else fail keyword.span .noElse
  | _ => return none

/-- A condition, a body, and perhaps an `else`. -/
def whileForm (env : Enclosing) (span : Span) : List Item → Lower Op
  | .arg c :: .arg b :: items => do
    let cond ← compound env c
    let inside ← written env false b
    return .whileForm (site env span) cond (.lambda inside) (← elseClause env items)
  | _ => fail span (.usage "while cond \x7b \x7d (else \x7b \x7d)?")

/-- A variable, what it goes over, a body, and perhaps an `else`. -/
def forForm (env : Enclosing) (span : Span) : List Item → Lower Op
  | .arg v :: .arg i :: .arg b :: items => do
    let var ← bareword .noVariableName v
    let iterable ← compound env i
    declare var
    let inside ← written env false b
    return .forForm (site env span) var iterable (.lambda inside) (← elseClause env items)
  | _ => fail span (.usage "for var $iterable \x7b \x7d (else \x7b \x7d)?")

/-- A body and its clauses. -/
def tryForm (env : Enclosing) (span : Span) : List Item → Lower Op
  | .arg b :: items => do
    let inside ← written env false b
    let (handler, otherwise, last) ← tryClauses env items
    return .tryForm (site env span) (.lambda inside) handler otherwise last
  | _ => fail span
      (.usage "try \x7b \x7d (catch e \x7b \x7d)? (else \x7b \x7d)? (finally \x7b \x7d)?")

/-- What follows the body of a `try`. -/
def tryClauses (env : Enclosing) :
    List Item → Lower (Option (Option String × Expr) × Option Expr × Option Expr)
  | [.arg keyword] =>
    if keyword.bareword? = some "catch" then fail keyword.span .catchNoBody
    else fail keyword.span .tryExtra
  | .arg keyword :: .arg w :: items => do
    match keyword.bareword? with
    | some "catch" =>
      if w.lambda?.isSome then
        let inside ← written env false w
        let (otherwise, last) ← afterCatch env items
        return (some (none, .lambda inside), otherwise, last)
      else
        let (handler, otherwise, last) ← namedCatch env keyword.span w items
        return (some handler, otherwise, last)
    | some "else" =>
      let inside ← written env false w
      return (none, some (.lambda inside), ← afterElse env items)
    | some "finally" =>
      let inside ← written env false w
      endTry items
      return (none, none, some (.lambda inside))
    | _ => fail keyword.span .tryExtra
  | _ => return (none, none, none)

/-- The body of a `catch` that names its variable, and what follows. -/
def namedCatch (env : Enclosing) (span : Span) (name : Compound) :
    List Item → Lower ((Option String × Expr) × Option Expr × Option Expr)
  | .arg b :: items => do
    let var ← bareword .noVariableName name
    declare var
    let inside ← written env false b
    let (otherwise, last) ← afterCatch env items
    return ((some var, .lambda inside), otherwise, last)
  | _ => fail span .catchNoBody

/-- What may follow a `catch`. -/
def afterCatch (env : Enclosing) : List Item → Lower (Option Expr × Option Expr)
  | [.arg keyword] => fail keyword.span .tryExtra
  | .arg keyword :: .arg w :: items => do
    match keyword.bareword? with
    | some "else" =>
      let inside ← written env false w
      return (some (.lambda inside), ← afterElse env items)
    | some "finally" =>
      let inside ← written env false w
      endTry items
      return (none, some (.lambda inside))
    | _ => fail keyword.span .tryExtra
  | _ => return (none, none)

/-- What may follow an `else` in a `try`. -/
def afterElse (env : Enclosing) : List Item → Lower (Option Expr)
  | [.arg keyword] => fail keyword.span .tryExtra
  | .arg keyword :: .arg w :: items => do
    if keyword.bareword? = some "finally" then
      let inside ← written env false w
      endTry items
      return some (.lambda inside)
    else fail keyword.span .tryExtra
  | _ => return none

end

end Lowering

/-- The operation a syntax tree stands for; or the first fault and where it is. -/
def Chunk.lower (source : Source) (scope : Scope) (tree : Chunk) :
    Except (CompileFault × Nat) Op :=
  match Lowering.chunk ⟨source, scope, []⟩ tree [] with
  | .ok (op, _) => .ok op
  | .error fault => .error fault

end ValueShell
