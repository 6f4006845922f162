import ValueShell.Syntax
import ValueShell.Token.Lexer

/-!
# From tokens to syntax trees

The grammar, where words that touch are written without a blank between them:

    chunk    := (pipeline (newline | ';'))*
    pipeline := form ('|' form)*
    form     := compound (compound | option | '=' | redir)*
    option   := '&'name ('='compound)?
    redir    := REDIR compound?
    compound := indexed+
    indexed  := primary ('['compound*']')*
    primary  := name | quoted | variable | '(' chunk ')' | '[' compound* ']'
              | '[' ('&'compound'='compound)* ']' | '[&]' | '{' ('|' signature '|')? chunk '}'

A parser reads from a `Cursor`: the tokens that are left, and where the last one read ends, so that it
can tell whether two tokens touch.  Every parser takes a number of steps it may use.  The rules call
each other at most a fixed number of times before a token is read, so a bound that grows with the
number of tokens, `Parser.steps`, is never used up.
-/

set_option autoImplicit false

namespace ValueShell

/-- Why a text is no script. -/
inductive SyntaxFault where
  | lexical (fault : LexFault)
  | unexpected (token : Token)
  | expected (wanted : Token) (found : Option Token)
  | noCommand (found : Option Token)
  | noWord
  | noOptionName
  | noOptionValue
  | noTarget
  | noMapKey
  | noMapEquals
  | noMapValue
  | noVariableName
  | secondRestParam
  | notInSignature (token : Token)
  | openSignature
  /-- The steps are used up; `Parser.steps` is chosen so that this does not happen -/
  | outOfSteps
deriving DecidableEq, Repr

namespace SyntaxFault

/-- How messages name what stands where something else was expected. -/
def describe : Option Token → String
  | some token => token.text
  | none => "end of input"

/-- The message for a fault. -/
def message : SyntaxFault → String
  | lexical fault => fault.message
  | unexpected token => s!"unexpected {token.text}"
  | expected wanted found => s!"expected {wanted.text}, found {describe found}"
  | noCommand found => s!"expected command, found {describe found}"
  | noWord => "expected word, found end of input"
  | noOptionName => "expected option name"
  | noOptionValue => "expected option value"
  | noTarget => "expected redirection target"
  | noMapKey => "expected map key"
  | noMapEquals => "expected '=' after map key"
  | noMapValue => "expected map value"
  | noVariableName => "expected variable name"
  | secondRestParam => "multiple rest parameters"
  | notInSignature token => s!"unexpected {token.text} in lambda signature"
  | openSignature => "unterminated lambda signature"
  | outOfSteps => "expression nested too deeply"

end SyntaxFault

/-- What is left to read. -/
structure Cursor where
  /-- The tokens not yet read -/
  rest : List Spanned
  /-- Where the last token read ends; nothing has been read before the first -/
  behind : Option Nat
  /-- Where the text ends -/
  finish : Nat
deriving DecidableEq, Repr

namespace Cursor

/-- Where the next token starts, or the end of the text. -/
def here (c : Cursor) : Nat :=
  match c.rest with
  | next :: _ => next.span.start
  | [] => c.finish

/-- Where the last token read ends. -/
def lastEnd (c : Cursor) : Nat :=
  c.behind.getD 0

/-- Is there a next token, and does it touch the last one? -/
def touches (c : Cursor) : Bool :=
  match c.rest with
  | next :: _ => c.behind == some next.span.start
  | [] => false

/-- The next token. -/
def next? (c : Cursor) : Option Token :=
  c.rest.head?.map (·.token)

/-- The cursor behind the next token. -/
def tail (c : Cursor) : Cursor :=
  match c.rest with
  | next :: rest => { c with rest, behind := some next.span.stop }
  | [] => c

/-- The cursor behind all leading tokens that satisfy `p`. -/
def skip (p : Token → Bool) (c : Cursor) : Cursor :=
  go c.rest c.behind
where
  go : List Spanned → Option Nat → Cursor
    | [], behind => { c with rest := [], behind }
    | next :: rest, behind =>
      if p next.token then go rest (some next.span.stop) else { c with rest := next :: rest, behind }

end Cursor

/-- A parser reads some tokens and gives a result, or a fault and its place. -/
abbrev Parser (α : Type) := StateT Cursor (Except (SyntaxFault × Nat)) α

namespace Parser

/-! ## Looking and stepping -/

/-- A fault at the next token. -/
def fail {α : Type} (fault : SyntaxFault) : Parser α :=
  fun c ↦ .error (fault, c.here)

/-- A fault at a place passed before. -/
def failAt {α : Type} (offset : Nat) (fault : SyntaxFault) : Parser α :=
  fun _ ↦ .error (fault, offset)

/-- The next token, left where it is. -/
def peek : Parser (Option Token) :=
  fun c ↦ .ok (c.next?, c)

/-- Does the next token touch the last one? -/
def touches : Parser Bool :=
  fun c ↦ .ok (c.touches, c)

/-- Where the next token starts. -/
def here : Parser Nat :=
  fun c ↦ .ok (c.here, c)

/-- The span from a place to the end of the last token read. -/
def spanFrom (start : Nat) : Parser Span :=
  fun c ↦ .ok (⟨start, c.lastEnd⟩, c)

/-- Reads the next token, if there is one. -/
def advance : Parser (Option Token) :=
  fun c ↦ .ok (c.next?, c.tail)

/-- Reads the next token, which has to be the given one. -/
def expect (wanted : Token) : Parser Unit := do
  let next ← peek
  if next = some wanted then discard advance else fail (.expected wanted next)

/-- Passes over line ends. -/
def skipNewlines : Parser Unit :=
  fun c ↦ .ok ((), c.skip (· = .newline))

/-- Passes over line ends and semicolons. -/
def skipSeparators : Parser Unit :=
  fun c ↦ .ok ((), c.skip fun token ↦ token = .newline || token = .semicolon)

/-- Is the next token one that starts a word right here, with no blank in front of it? -/
def wordTouches : Parser Bool :=
  fun c ↦ .ok (c.touches && c.next?.any Token.startsWord, c)

/-- Is the next token one that carries on the word read so far? -/
def wordContinues : Parser Bool :=
  fun c ↦ .ok (c.touches && c.next?.any Token.continuesWord, c)

/-- Behind a pipeline stands a line end, a semicolon, the closing token, or nothing. -/
def endPipeline (close : Option Token) : Parser Unit := do
  match ← peek with
  | none | some .newline | some .semicolon => pure ()
  | some token => if some token = close then pure () else fail (.unexpected token)

/-! ## The rules -/

mutual

/-- A chunk, up to the closing token, which is not read; without one, up to the end. -/
def chunk (close : Option Token) : Nat → Parser Chunk
  | 0 => fail .outOfSteps
  | n + 1 => do
    skipSeparators
    match ← peek, close with
    | none, none => return ⟨[]⟩
    | none, some wanted => fail (.expected wanted none)
    | some token, _ =>
      if some token = close then return ⟨[]⟩
      else
        let first ← pipeline n
        endPipeline close
        let others ← chunk close n
        return ⟨first :: others.pipelines⟩

/-- Forms with pipes between them; a line may end behind a pipe. -/
def pipeline : Nat → Parser Pipeline
  | 0 => fail .outOfSteps
  | n + 1 => do
    let start ← here
    let first ← form n
    let others ← stages n
    return ⟨← spanFrom start, first :: others⟩

/-- The stages behind the first. -/
def stages : Nat → Parser (List Form)
  | 0 => fail .outOfSteps
  | n + 1 => do
    if (← peek) = some .pipe then
      discard advance
      skipNewlines
      let first ← form n
      let others ← stages n
      return first :: others
    else return []

/-- A command word and what follows it. -/
def form : Nat → Parser Form
  | 0 => fail .outOfSteps
  | n + 1 => do
    let start ← here
    let next ← peek
    if next.any Token.startsWord then
      let head ← compound n
      let (items, redirs) ← formRest n
      return ⟨← spanFrom start, head, items, redirs⟩
    else fail (.noCommand next)

/-- What follows a command word: items and redirections, each in their order. -/
def formRest : Nat → Parser (List Item × List Redir)
  | 0 => fail .outOfSteps
  | n + 1 => do
    match ← peek with
    | none | some .newline | some .semicolon | some .pipe | some .rparen | some .rbrace =>
      return ([], [])
    | some .amp =>
      let first ← option n
      let (items, redirs) ← formRest n
      return (first :: items, redirs)
    | some .eq =>
      let start ← here
      discard advance
      let span ← spanFrom start
      let (items, redirs) ← formRest n
      return (.eq span :: items, redirs)
    | some (.redir fd mode) =>
      let first ← redir (fd.getD 1) mode n
      let (items, redirs) ← formRest n
      return (items, first :: redirs)
    | some token =>
      if token.startsWord then
        let first ← compound n
        let (items, redirs) ← formRest n
        return (.arg first :: items, redirs)
      else fail (.unexpected token)

/-- An option; its name touches the `&`, the `=` the name, and the value the `=`. -/
def option : Nat → Parser Item
  | 0 => fail .outOfSteps
  | n + 1 => do
    let start ← here
    expect .amp
    match ← peek, ← touches with
    | some (.bareword name), true =>
      discard advance
      let value ← optionValue n
      return .opt (← spanFrom start) name value
    | _, _ => fail .noOptionName

/-- The value of an option, if there is one. -/
def optionValue : Nat → Parser (Option Compound)
  | 0 => fail .outOfSteps
  | n + 1 => do
    match ← peek, ← touches with
    | some .eq, true =>
      discard advance
      if ← wordTouches then
        let value ← compound n
        return some value
      else fail .noOptionValue
    | _, _ => return none

/-- A redirection; one to a file has a word for a target. -/
def redir (fd : Nat) (mode : RedirMode) : Nat → Parser Redir
  | 0 => fail .outOfSteps
  | n + 1 => do
    let start ← here
    discard advance
    match mode with
    | .dup _ => return ⟨← spanFrom start, fd, mode, none⟩
    | .write | .append =>
      if (← peek).any Token.startsWord then
        let target ← compound n
        return ⟨← spanFrom start, fd, mode, some target⟩
      else fail .noTarget

/-- A word. -/
def compound : Nat → Parser Compound
  | 0 => fail .outOfSteps
  | n + 1 => do
    let start ← here
    let first ← indexed n
    let others ← moreParts n
    return ⟨← spanFrom start, first :: others⟩

/-- The parts of a word behind the first. -/
def moreParts : Nat → Parser (List Indexed)
  | 0 => fail .outOfSteps
  | n + 1 => do
    if ← wordContinues then
      let first ← indexed n
      let others ← moreParts n
      return first :: others
    else return []

/-- A primary with its indices. -/
def indexed : Nat → Parser Indexed
  | 0 => fail .outOfSteps
  | n + 1 => do
    let start ← here
    let head ← primary n
    let indices ← indexLists n
    return ⟨← spanFrom start, head, indices⟩

/-- The indices that touch what is read so far. -/
def indexLists : Nat → Parser (List (List Compound))
  | 0 => fail .outOfSteps
  | n + 1 => do
    match ← peek, ← touches with
    | some .lbracket, true =>
      discard advance
      let first ← wordsUntil .rbracket n
      let others ← indexLists n
      return first :: others
    | _, _ => return []

/-- Words with blanks or line ends between them, and the closing token. -/
def wordsUntil (close : Token) : Nat → Parser (List Compound)
  | 0 => fail .outOfSteps
  | n + 1 => do
    skipNewlines
    let next ← peek
    if next = some close then
      discard advance
      return []
    else if next.any Token.startsWord then
      let first ← compound n
      let others ← wordsUntil close n
      return first :: others
    else fail (.expected close next)

/-- The smallest part of a word. -/
def primary : Nat → Parser Primary
  | 0 => fail .outOfSteps
  | n + 1 => do
    let start ← here
    match ← advance with
    | none => fail .noWord
    | some (.bareword text) => return .bareword text
    | some (.quoted text) => return .quoted text
    | some (.variable name explode) =>
      if name.isEmpty then failAt start .noVariableName else return .variable name explode
    | some .lparen =>
      let inside ← chunk (some .rparen) n
      expect .rparen
      return .capture inside
    | some .lbracket =>
      skipNewlines
      if (← peek) = some .amp then return .map (← pairs n)
      else return .list (← wordsUntil .rbracket n)
    | some .lbrace => lambda start n
    | some token => failAt start (.unexpected token)

/-- The pairs of a map and the bracket behind them.  A lone `&` before the bracket counts for
nothing, so that the empty map can be written. -/
def pairs : Nat → Parser (List (Compound × Compound))
  | 0 => fail .outOfSteps
  | n + 1 => do
    skipNewlines
    if (← peek) = some .rbracket then
      discard advance
      return []
    else
      expect .amp
      if (← peek) = some .rbracket then pairs n
      else
        let first ← pair n
        let others ← pairs n
        return first :: others

/-- A key and a value with `=` between them, all touching. -/
def pair : Nat → Parser (Compound × Compound)
  | 0 => fail .outOfSteps
  | n + 1 => do
    if ← wordTouches then
      let key ← compound n
      match ← peek, ← touches with
      | some .eq, true =>
        discard advance
        if ← wordTouches then
          let value ← compound n
          return (key, value)
        else fail .noMapValue
      | _, _ => fail .noMapEquals
    else fail .noMapKey

/-- A lambda whose `{` has been read at `start`.  A signature has to touch it. -/
def lambda (start : Nat) : Nat → Parser Primary
  | 0 => fail .outOfSteps
  | n + 1 => do
    match ← peek, ← touches with
    | some .pipe, true =>
      discard advance
      let (params, options, restOptions) ← signature false n
      lambdaBody start params options restOptions n
    | _, _ => lambdaBody start [] [] none n

/-- The body of a lambda and the `}` behind it. -/
def lambdaBody (start : Nat) (params : List Param) (options : List (String × Compound))
    (restOptions : Option String) : Nat → Parser Primary
  | 0 => fail .outOfSteps
  | n + 1 => do
    let body ← chunk (some .rbrace) n
    expect .rbrace
    return .lambda ⟨← spanFrom start, params, options, restOptions, body⟩

/-- A signature and the `|` behind it.  `hasRest` says that a rest parameter has been read; of several
names for the other options the last one counts. -/
def signature (hasRest : Bool) :
    Nat → Parser (List Param × List (String × Compound) × Option String)
  | 0 => fail .outOfSteps
  | n + 1 => do
    let start ← here
    match ← advance with
    | none => fail .openSignature
    | some .pipe => return ([], [], none)
    | some .newline => signature hasRest n
    | some (.bareword word) =>
      match word.toList with
      | '@' :: name =>
        if hasRest then failAt start .secondRestParam
        else
          let (params, options, restOptions) ← signature true n
          return (⟨String.ofList name, true⟩ :: params, options, restOptions)
      | _ =>
        let (params, options, restOptions) ← signature hasRest n
        return (⟨word, false⟩ :: params, options, restOptions)
    | some .amp =>
      match ← advance with
      | some (.bareword word) =>
        match word.toList with
        | '@' :: name =>
          let (params, options, restOptions) ← signature hasRest n
          return (params, options, restOptions.orElse fun _ ↦ some (String.ofList name))
        | _ =>
          expect .eq
          let default ← compound n
          let (params, options, restOptions) ← signature hasRest n
          return (params, (word, default) :: options, restOptions)
      | _ => failAt start .noOptionName
    | some token => failAt start (.notInSignature token)

end

/-- Enough steps for any number of tokens: no rule calls ten others before a token is read. -/
def steps (tokens : Nat) : Nat :=
  10 * tokens + 10

/-- All tokens as one chunk. -/
def script (tokens : List Spanned) (finish : Nat) : Except (SyntaxFault × Nat) Chunk :=
  match chunk none (steps tokens.length) ⟨tokens, none, finish⟩ with
  | .ok (tree, _) => .ok tree
  | .error fault => .error fault

end Parser

/-- The syntax tree of a text; or the first fault and where it is. -/
def parse (text : List Char) : Except (SyntaxFault × Nat) Chunk :=
  match tokenize text with
  | .error (fault, offset) => .error (.lexical fault, offset)
  | .ok tokens => Parser.script tokens (byteLength text)

end ValueShell
