import ValueShell.Source
import ValueShell.Text.Escaped

/-!
# Tokens

The words and signs a script is made of.  Blanks are not tokens, yet what touches what matters
(`$x[0]` takes an element and `$x [0]` is two words), so a token is kept together with its span and
two tokens touch when one ends where the next starts.
-/

set_option autoImplicit false

namespace ValueShell

/-- What a redirection does with its target. -/
inductive RedirMode where
  /-- `>`: the file is emptied or made -/
  | write
  /-- `>>`: the file grows -/
  | append
  /-- `>&n`: the stream goes where stream `n` goes -/
  | dup (fd : Nat)
deriving DecidableEq, Repr

/-- A token. -/
inductive Token where
  | newline
  | semicolon
  | pipe
  | lparen
  | rparen
  | lbracket
  | rbracket
  | lbrace
  | rbrace
  | amp
  | eq
  /-- A redirection, with the number of the redirected stream if one is given -/
  | redir (fd : Option Nat) (mode : RedirMode)
  /-- `$name`, or `$@name` when `explode` is set -/
  | variable (name : String) (explode : Bool)
  /-- A quoted word, with its escapes resolved -/
  | quoted (text : String)
  /-- An unquoted word -/
  | bareword (text : String)
deriving DecidableEq, Repr

namespace Token

/-- How messages name a token. -/
def text : Token → String
  | newline => "newline"
  | semicolon => "';'"
  | pipe => "'|'"
  | lparen => "'('"
  | rparen => "')'"
  | lbracket => "'['"
  | rbracket => "']'"
  | lbrace => "'\x7b'"
  | rbrace => "'\x7d'"
  | amp => "'&'"
  | eq => "'='"
  | redir _ _ => "redirection"
  | «variable» name _ => "$" ++ name
  | quoted s => Escaped.quote s
  | bareword s => s

/-- Can a word start with this token? -/
def startsWord : Token → Bool
  | bareword _ | quoted _ | «variable» _ _ | lparen | lbracket | lbrace => true
  | _ => false

/-- Does this token, standing right behind a part of a word, continue the word? -/
def continuesWord : Token → Bool
  | bareword _ | quoted _ | «variable» _ _ | lparen => true
  | _ => false

end Token

/-- A token and the bytes it covers. -/
structure Spanned where
  token : Token
  span : Span
deriving DecidableEq, Repr

end ValueShell
