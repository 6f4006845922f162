import ValueShell.Number.Decimal
import ValueShell.Token

/-!
# From text to tokens

A text is cut into pieces from the front.  A piece is a token or something to skip: a run of blanks,
a comment up to the end of its line, or `^` at the end of a line, which joins the next line to it.

`lexeme` looks at the text and says how long its first piece is; a piece always takes the longest
stretch its kind allows.  Three decisions are not settled by that alone:

* Digits belong to a redirection when `>` follows them, and otherwise to a word.
* When digits, `>` and `&` are followed by anything but a digit there is no stream to copy from, and the
  digits and the `>` make a word.
* A quotation that is not closed before the text ends is a fault at its opening mark, even where an
  earlier mark could have closed it: in `'a''` the second and third marks are a quote inside.

`pieces` cuts until the text ends or nothing fits, so `tokenize` can say both what was read and where
reading stopped.
-/

set_option autoImplicit false

namespace ValueShell

/-- Why a text cannot be cut into tokens. -/
inductive LexFault where
  | unexpectedCharacter
  | invalidEscape (c : Char)
  | invalidDescriptor
deriving DecidableEq, Repr

/-- The message for a fault. -/
def LexFault.message : LexFault → String
  | unexpectedCharacter => "unexpected character"
  | invalidEscape c => s!"invalid escape sequence \\{c}"
  | invalidDescriptor => "invalid file descriptor"

namespace Lexer

/-! ## Classes of characters -/

/-- The blanks inside a line. -/
def isBlank (c : Char) : Bool :=
  c = ' ' || c = '\t' || c = '\r'

/-- The characters of unquoted words: ASCII letters, digits and some signs, and everything beyond
ASCII. -/
def isWordChar (c : Char) : Bool :=
  c.isAlphanum || "_-./,:@~!%+*?^".toList.contains c || 0x80 ≤ c.toNat

/-- The characters of variable names. -/
def isNameChar (c : Char) : Bool :=
  c.isAlphanum || c = '_' || c = '-' || c = ':' || c = '~'

/-! ## Quotations -/

/-- The text of a quotation in single marks whose opening mark has been read, and the number of
characters up to and including the closing mark.  Two marks in a row are one mark of the text. -/
def singleQuoted : List Char → Option (List Char × Nat)
  | [] => none
  | '\'' :: '\'' :: cs => (singleQuoted cs).map fun (text, n) ↦ ('\'' :: text, n + 2)
  | '\'' :: _ => some ([], 1)
  | c :: cs => (singleQuoted cs).map fun (text, n) ↦ (c :: text, n + 1)

/-- What stands between double marks: characters, and characters behind a backslash. -/
inductive Quotand where
  | plain (c : Char)
  | escaped (c : Char)
deriving DecidableEq, Repr

/-- The inside of a quotation in double marks whose opening mark has been read, and the number of
characters up to and including the closing mark.  A backslash takes the next character with it,
whatever that is, but not the end of a line. -/
def doubleQuoted : List Char → Option (List Quotand × Nat)
  | [] => none
  | '"' :: _ => some ([], 1)
  | '\\' :: c :: cs =>
    if c = '\n' then none
    else (doubleQuoted cs).map fun (inside, n) ↦ (.escaped c :: inside, n + 2)
  | ['\\'] => none
  | c :: cs => (doubleQuoted cs).map fun (inside, n) ↦ (.plain c :: inside, n + 1)

/-- The character an escape stands for. -/
def Quotand.resolve : Quotand → Except LexFault Char
  | plain c => .ok c
  | escaped 'n' => .ok '\n'
  | escaped 't' => .ok '\t'
  | escaped 'r' => .ok '\r'
  | escaped 'e' => .ok '\x1b'
  | escaped '0' => .ok '\x00'
  | escaped c => if c = '\\' ∨ c = '"' ∨ c = '$' then .ok c else .error (.invalidEscape c)

/-! ## Pieces -/

/-- A run of characters that satisfy `p`, counted. -/
def run (p : Char → Bool) (cs : List Char) : Nat :=
  (cs.takeWhile p).length

/-- A word that starts with `c`. -/
def word (c : Char) (cs : List Char) : Nat × Option Token :=
  (run isWordChar cs, some (.bareword (String.ofList (c :: cs.takeWhile isWordChar))))

/-- The number in front of a redirection; none when there are no digits. -/
def descriptor (ds : List Char) : Except LexFault (Option Nat) :=
  if ds.isEmpty then .ok none
  else match Decimal.readSize? ds with
    | some n => .ok (some n)
    | none => .error .invalidDescriptor

/-- A redirection: the digits `ds` have been read, and the `>` behind them. -/
def redirection (ds : List Char) (cs : List Char) : Except LexFault (Nat × Option Token) :=
  match cs with
  | '>' :: _ => do
    let fd ← descriptor ds
    return (1, some (.redir fd .append))
  | '&' :: rest =>
    let target := rest.takeWhile Char.isDigit
    if target.isEmpty then
      if ds.isEmpty then .ok (0, some (.redir none .write))
      else .ok (0, some (.bareword (String.ofList (ds ++ ['>']))))
    else match Decimal.readSize? target with
      | none => .error .invalidDescriptor
      | some n => do
        let fd ← descriptor ds
        return (1 + target.length, some (.redir fd (.dup n)))
  | _ => do
    let fd ← descriptor ds
    return (0, some (.redir fd .write))

/-- A piece that starts with a digit. -/
def number (c : Char) (cs : List Char) : Except LexFault (Nat × Option Token) :=
  match cs.dropWhile Char.isDigit with
  | '>' :: rest => do
    let (n, token) ← redirection (c :: cs.takeWhile Char.isDigit) rest
    return (run Char.isDigit cs + 1 + n, token)
  | _ => .ok (word c cs)

/-- A variable whose `$` has been read. -/
def «variable» (cs : List Char) : Nat × Option Token :=
  match cs with
  | '@' :: rest =>
    (1 + run isNameChar rest,
      some (.variable (String.ofList (rest.takeWhile isNameChar)) true))
  | _ => (run isNameChar cs, some (.variable (String.ofList (cs.takeWhile isNameChar)) false))

/-- The first piece of a text that starts with `c`: how many characters after `c` belong to it, and
its token unless the piece is skipped. -/
def lexeme (c : Char) (cs : List Char) : Except LexFault (Nat × Option Token) :=
  match c with
  | '\n' => .ok (0, some .newline)
  | ';' => .ok (0, some .semicolon)
  | '|' => .ok (0, some .pipe)
  | '(' => .ok (0, some .lparen)
  | ')' => .ok (0, some .rparen)
  | '[' => .ok (0, some .lbracket)
  | ']' => .ok (0, some .rbracket)
  | '\x7b' => .ok (0, some .lbrace)
  | '\x7d' => .ok (0, some .rbrace)
  | '&' => .ok (0, some .amp)
  | '=' => .ok (0, some .eq)
  | '#' => .ok (run (· ≠ '\n') cs, none)
  | '>' => redirection [] cs
  | '$' => .ok («variable» cs)
  | '\'' =>
    match singleQuoted cs with
    | some (text, n) => .ok (n, some (.quoted (String.ofList text)))
    | none => .error .unexpectedCharacter
  | '"' =>
    match doubleQuoted cs with
    | some (inside, n) => do
      let text ← inside.mapM Quotand.resolve
      return (n, some (.quoted (String.ofList text)))
    | none => .error .unexpectedCharacter
  | '^' =>
    match cs with
    | '\n' :: _ => .ok (1, none)
    | '\r' :: '\n' :: _ => .ok (2, none)
    | _ => .ok (word '^' cs)
  | c =>
    if isBlank c then .ok (run isBlank cs, none)
    else if c.isDigit then number c cs
    else if isWordChar c then .ok (word c cs)
    else .error .unexpectedCharacter

/-- A stretch of text, with its token unless it is skipped. -/
structure Piece where
  text : List Char
  token : Option Token
deriving DecidableEq, Repr

/-- The pieces of a text, and why cutting stopped if it did before the end. -/
def pieces : List Char → List Piece × Option LexFault
  | [] => ([], none)
  | c :: cs =>
    match lexeme c cs with
    | .error fault => ([], some fault)
    | .ok (n, token) =>
      let (rest, fault) := pieces (cs.drop n)
      (⟨c :: cs.take n, token⟩ :: rest, fault)
termination_by cs => cs.length
decreasing_by simp only [List.length_drop, List.length_cons]; omega

/-- The tokens among the pieces, each with its span, when the first piece starts at `offset`. -/
def place : Nat → List Piece → List Spanned
  | _, [] => []
  | offset, p :: rest =>
    let stop := offset + byteLength p.text
    match p.token with
    | some token => ⟨token, ⟨offset, stop⟩⟩ :: place stop rest
    | none => place stop rest

/-- The offset behind the pieces, when the first one starts at `offset`. -/
def endOf (offset : Nat) (ps : List Piece) : Nat :=
  ps.foldl (fun n p ↦ n + byteLength p.text) offset

end Lexer

/-- The tokens of a text; or the first fault and the offset of the piece it lies in. -/
def tokenize (cs : List Char) : Except (LexFault × Nat) (List Spanned) :=
  match Lexer.pieces cs with
  | (ps, none) => .ok (Lexer.place 0 ps)
  | (ps, some fault) => .error (fault, Lexer.endOf 0 ps)

end ValueShell
