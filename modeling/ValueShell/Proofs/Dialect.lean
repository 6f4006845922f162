import ValueShell.Proofs.Runs

/-!
# Dialects

Some statements hold only of code that does without a construct: code without pipelines never has two parts
that run side by side, and code without `while` forms has no loops that go on for ever.  A `Dialect` says which
constructs code may have.  `Chunk.isIn` asks this of a syntax tree and `Op.isIn` of an operation, each of all
parts down to the bodies of lambdas.

A run is in a dialect (`Event.isIn`) when the text of each source that is made in it is, and the code of each
closure that is called.
-/

set_option autoImplicit false

namespace ValueShell

/-- The constructs that code may have. -/
structure Dialect where
  /-- May forms run side by side? -/
  pipelines : Bool
  /-- May there be `while` forms? -/
  loops : Bool

namespace Dialect

/-- Code in which one form runs after another. -/
def sequential : Dialect :=
  ⟨false, true⟩

/-- Sequential code without `while` forms. -/
def loopless : Dialect :=
  ⟨false, false⟩

end Dialect

/-! ## Syntax trees -/

section Trees

variable (d : Dialect)

mutual

/-- Are all pipelines of the chunk in the dialect? -/
def Chunk.isIn : Chunk → Bool
  | ⟨pipelines⟩ => Pipeline.allIn pipelines

/-- Are the pipelines in the dialect? -/
def Pipeline.allIn : List Pipeline → Bool
  | [] => true
  | p :: ps => p.isIn && Pipeline.allIn ps

/-- Unless pipelines are allowed, there has to be a single form. -/
def Pipeline.isIn : Pipeline → Bool
  | ⟨_, forms⟩ => (d.pipelines || forms.length == 1) && Form.allIn forms

/-- Are the forms in the dialect? -/
def Form.allIn : List Form → Bool
  | [] => true
  | f :: fs => f.isIn && Form.allIn fs

/-- Is the form in the dialect? -/
def Form.isIn : Form → Bool
  | ⟨_, head, items, redirs⟩ =>
    (d.loops || head.bareword? != some "while") && head.isIn && Item.allIn items && Redir.allIn redirs

/-- Are the items in the dialect? -/
def Item.allIn : List Item → Bool
  | [] => true
  | i :: is => i.isIn && Item.allIn is

/-- Is the word of an item in the dialect? -/
def Item.isIn : Item → Bool
  | .arg word => word.isIn
  | .opt _ _ none => true
  | .opt _ _ (some word) => word.isIn
  | .eq _ => true

/-- Are the redirections in the dialect? -/
def Redir.allIn : List Redir → Bool
  | [] => true
  | r :: rs => r.isIn && Redir.allIn rs

/-- Is the target of a redirection in the dialect? -/
def Redir.isIn : Redir → Bool
  | ⟨_, _, _, some word⟩ => word.isIn
  | ⟨_, _, _, none⟩ => true

/-- Are all parts of the word in the dialect? -/
def Compound.isIn : Compound → Bool
  | ⟨_, parts⟩ => Indexed.allIn parts

/-- Are the words in the dialect? -/
def Compound.allIn : List Compound → Bool
  | [] => true
  | w :: ws => w.isIn && Compound.allIn ws

/-- Are the parts in the dialect? -/
def Indexed.allIn : List Indexed → Bool
  | [] => true
  | part :: parts => part.isIn && Indexed.allIn parts

/-- Are the primary and all words of the indices in the dialect? -/
def Indexed.isIn : Indexed → Bool
  | ⟨_, head, indices⟩ => head.isIn && Compound.listsIn indices

/-- Are all words of the lists in the dialect? -/
def Compound.listsIn : List (List Compound) → Bool
  | [] => true
  | ws :: rest => Compound.allIn ws && Compound.listsIn rest

/-- Is what the primary holds in the dialect? -/
def Primary.isIn : Primary → Bool
  | .bareword _ | .quoted _ | .variable _ _ => true
  | .capture inside => inside.isIn
  | .list ws => Compound.allIn ws
  | .map ps => Compound.pairsIn ps
  | .lambda l => l.isIn

/-- Are the keys and values in the dialect? -/
def Compound.pairsIn : List (Compound × Compound) → Bool
  | [] => true
  | (key, value) :: ps => key.isIn && value.isIn && Compound.pairsIn ps

/-- Are the body of the lambda and the defaults of its options in the dialect? -/
def Lambda.isIn : Lambda → Bool
  | ⟨_, _, options, _, body⟩ => Compound.defaultsIn options && body.isIn

/-- Are the defaults in the dialect? -/
def Compound.defaultsIn : List (String × Compound) → Bool
  | [] => true
  | (_, word) :: options => word.isIn && Compound.defaultsIn options

end

attribute [simp] Chunk.isIn Pipeline.allIn Pipeline.isIn Form.allIn Form.isIn Item.allIn Item.isIn Redir.allIn
  Redir.isIn Compound.isIn Compound.allIn Indexed.allIn Indexed.isIn Compound.listsIn Primary.isIn
  Compound.pairsIn Lambda.isIn Compound.defaultsIn

end Trees

/-! ## Operations -/

section Operations

variable (d : Dialect)

mutual

/-- Is the operation in the dialect? -/
def Op.isIn : Op → Bool
  | .chunk ops => Op.allIn ops
  | .pipeline _ stages => d.pipelines && Op.allIn stages
  | .form _ head args opts redirs =>
    head.isIn && Expr.allIn args && Expr.optionsIn opts && Redirect.allIn redirs
  | .var _ _ _ none => true
  | .var _ _ _ (some values) => Expr.allIn values
  | .set _ targets _ values => Place.allIn targets && Expr.allIn values
  | .del _ target => target.isIn
  | .fn _ _ lambda => lambda.isIn
  | .fnBody body => body.isIn
  | .use _ _ _ => true
  | .ifForm _ branches otherwise => Expr.pairsIn branches && Expr.bodyIn otherwise
  | .whileForm _ cond body otherwise => d.loops && cond.isIn && body.isIn && Expr.bodyIn otherwise
  | .forForm _ _ iterable body otherwise => iterable.isIn && body.isIn && Expr.bodyIn otherwise
  | .tryForm _ body handler otherwise last =>
    body.isIn && Expr.handlerIn handler && Expr.bodyIn otherwise && Expr.bodyIn last
  | .logic _ _ args => Expr.allIn args

/-- Are the operations in the dialect? -/
def Op.allIn : List Op → Bool
  | [] => true
  | op :: ops => op.isIn && Op.allIn ops

/-- Is what a command word stands for in the dialect? -/
def Head.isIn : Head → Bool
  | .function _ | .external _ => true
  | .word e => e.isIn

/-- Are the files of the redirections in the dialect? -/
def Redirect.allIn : List Redirect → Bool
  | [] => true
  | .file _ path _ :: rs => path.isIn && Redirect.allIn rs
  | .dup _ _ :: rs => Redirect.allIn rs

/-- Are the indices of a place in the dialect? -/
def Place.isIn : Place → Bool
  | .mk _ indices => Expr.allIn indices

/-- Are the places in the dialect? -/
def Place.allIn : List Place → Bool
  | [] => true
  | p :: ps => p.isIn && Place.allIn ps

/-- Is the word in the dialect? -/
def Expr.isIn : Expr → Bool
  | .literal _ | .variable _ _ => true
  | .capture op => op.isIn
  | .list items => Expr.allIn items
  | .map pairs => Expr.pairsIn pairs
  | .lambda l => l.isIn
  | .indexed head indices => head.isIn && Expr.listsIn indices
  | .compound parts => Expr.allIn parts

/-- Are the words in the dialect? -/
def Expr.allIn : List Expr → Bool
  | [] => true
  | e :: es => e.isIn && Expr.allIn es

/-- Are all words of the lists in the dialect? -/
def Expr.listsIn : List (List Expr) → Bool
  | [] => true
  | es :: rest => Expr.allIn es && Expr.listsIn rest

/-- Are both words of each pair in the dialect? -/
def Expr.pairsIn : List (Expr × Expr) → Bool
  | [] => true
  | (a, b) :: pairs => a.isIn && b.isIn && Expr.pairsIn pairs

/-- Are the values of the options in the dialect? -/
def Expr.optionsIn : List (String × Option Expr) → Bool
  | [] => true
  | (_, none) :: opts => Expr.optionsIn opts
  | (_, some e) :: opts => e.isIn && Expr.optionsIn opts

/-- Are the defaults of the options in the dialect? -/
def Expr.defaultsIn : List (String × Expr) → Bool
  | [] => true
  | (_, e) :: options => e.isIn && Expr.defaultsIn options

/-- Is a body in the dialect, if there is one? -/
def Expr.bodyIn : Option Expr → Bool
  | none => true
  | some e => e.isIn

/-- Is the body of a `catch` in the dialect, if there is one? -/
def Expr.handlerIn : Option (Option String × Expr) → Bool
  | none => true
  | some (_, e) => e.isIn

/-- Are the body of a lambda and the defaults of its options in the dialect? -/
def LambdaDef.isIn : LambdaDef → Bool
  | .mk _ _ _ options _ body => Expr.defaultsIn options && body.isIn

end

attribute [simp] Op.isIn Op.allIn Head.isIn Redirect.allIn Place.isIn Place.allIn Expr.isIn Expr.allIn
  Expr.listsIn Expr.pairsIn Expr.optionsIn Expr.defaultsIn Expr.bodyIn Expr.handlerIn LambdaDef.isIn

end Operations

/-! ## Runs -/

/-- Is the text in the dialect?  Text that cannot be parsed has nothing that the dialect forbids. -/
def Dialect.has (d : Dialect) (code : String) : Bool :=
  match parse code.toList with
  | .ok tree => tree.isIn d
  | .error _ => true

/-- Is the code in the dialect that a step brings into the run?  Code comes from the text of a source, or with
a closure that is called. -/
def Event.isIn (d : Dialect) : Event → Bool
  | .act (.newSource _ code _) _ => d.has code
  | .act (.closure _) (some c) => c.body.isIn d
  | _ => true

/-- Is the code in the dialect that the act makes a closure of? -/
def Act.isIn (d : Dialect) : Act → Bool
  | newClosure _ _ _ body _ => body.isIn d
  | _ => true

end ValueShell
