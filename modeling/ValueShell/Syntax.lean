import ValueShell.Token

/-!
# Syntax trees

What a script says, before names are looked up.  A chunk is a sequence of pipelines, a pipeline a
sequence of forms, and a form a command word followed by arguments, options, equals signs and
redirections.  Equals signs stay in the tree because only the command word decides what they mean.

A word is a `Compound`: parts that touch, each a primary with its indices.  Captures, lists, maps and
lambdas hold chunks and words again, so the types refer to each other.

The questions asked of a word, whether it is one name or one lambda written out, are answered here by
`Compound.bareword?`, `Compound.literal?` and `Compound.lambda?`.
-/

set_option autoImplicit false

namespace ValueShell

/-- A positional parameter; a rest parameter takes all arguments that the others leave. -/
structure Param where
  name : String
  isRest : Bool
deriving DecidableEq, Repr

mutual

/-- Pipelines in the order they run. -/
structure Chunk where
  pipelines : List Pipeline

/-- Forms that run side by side, each reading what the one before it writes. -/
structure Pipeline where
  span : Span
  forms : List Form

/-- One command. -/
structure Form where
  span : Span
  head : Compound
  items : List Item
  redirs : List Redir

/-- What may follow a command word. -/
inductive Item where
  /-- A positional argument -/
  | arg (word : Compound)
  /-- `&name=value`, or `&name` alone -/
  | opt (span : Span) (name : String) (value : Option Compound)
  /-- `=` standing by itself -/
  | eq (span : Span)

/-- A redirection of stream `fd`; a copy of another stream has no target. -/
structure Redir where
  span : Span
  fd : Nat
  mode : RedirMode
  target : Option Compound

/-- A word: parts that touch. -/
structure Compound where
  span : Span
  parts : List Indexed

/-- A primary and its indices, each of which may name several elements. -/
structure Indexed where
  span : Span
  head : Primary
  indices : List (List Compound)

/-- The smallest parts of words. -/
inductive Primary where
  | bareword (text : String)
  | quoted (text : String)
  /-- `$name`, or `$@name` when `explode` is set -/
  | variable (name : String) (explode : Bool)
  /-- `( … )`: the values a chunk puts -/
  | capture (chunk : Chunk)
  /-- `[ … ]` -/
  | list (words : List Compound)
  /-- `[ &key=value … ]` -/
  | map (pairs : List (Compound × Compound))
  | lambda (l : Lambda)

/-- A lambda, written with its signature and its body between braces. -/
structure Lambda where
  span : Span
  params : List Param
  options : List (String × Compound)
  restOptions : Option String
  body : Chunk

end

namespace Item

/-- The place of what follows a command word. -/
def span : Item → Span
  | arg word => word.span
  | opt span _ _ => span
  | eq span => span

end Item

/-! ## Words of one part -/

namespace Compound

/-- The text of a word that is one unquoted part. -/
def bareword? : Compound → Option String
  | ⟨_, [⟨_, .bareword text, []⟩]⟩ => some text
  | _ => none

/-- The text of a word that is one part, quoted or not. -/
def literal? : Compound → Option String
  | ⟨_, [⟨_, .bareword text, []⟩]⟩ => some text
  | ⟨_, [⟨_, .quoted text, []⟩]⟩ => some text
  | _ => none

/-- The lambda a word consists of. -/
def lambda? : Compound → Option Lambda
  | ⟨_, [⟨_, .lambda l, []⟩]⟩ => some l
  | _ => none

end Compound

end ValueShell
