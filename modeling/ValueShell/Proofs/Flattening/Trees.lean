import ValueShell.Proofs.Flattening.Marks

/-!
# Syntax trees written out flat

Three things about a syntax tree, each by recursion on it.

* `Chunk.WellFormed` says which trees there are besides what their types say: a pipeline has a form, a word has
  a part, and a part that carries on a word is one that can; variables have names; redirections to files have a
  target and no others; of the parameters of a lambda one at most is a rest parameter, and the others and the
  options have names that are not taken for the name of one.
* `Chunk.marks` writes a tree out as marks.  What has to touch touches, and all else is apart.
* `Chunk.unplaced` is the tree without its spans.

`Chunk.flatten` puts the marks on a line, each token with a span.
-/

set_option autoImplicit false

namespace ValueShell

/-- Would the name be taken for that of a parameter or an option that collects the rest? -/
def Name.startsAt (name : String) : Bool :=
  name.toList.head? = some '@'

theorem Name.startsAt_eq_false {name : String} :
    Name.startsAt name = false ↔ ∀ rest, name.toList = '@' :: rest → False := by
  rw [Name.startsAt, decide_eq_false_iff_not]
  cases name.toList with
  | nil => simp
  | cons c rest => simp

/-! ## Well-formed trees -/

/-- May the part carry on a word? -/
def Primary.continues : Primary → Bool
  | .bareword _ | .quoted _ | .variable _ _ | .capture _ => true
  | _ => false

mutual

/-- All pipelines of the chunk are well formed. -/
def Chunk.WellFormed : Chunk → Prop
  | ⟨pipelines⟩ => Pipeline.AllWellFormed pipelines

/-- The pipelines are well formed. -/
def Pipeline.AllWellFormed : List Pipeline → Prop
  | [] => True
  | p :: ps => p.WellFormed ∧ Pipeline.AllWellFormed ps

/-- A pipeline has at least one form. -/
def Pipeline.WellFormed : Pipeline → Prop
  | ⟨_, forms⟩ => forms ≠ [] ∧ Form.AllWellFormed forms

/-- The forms are well formed. -/
def Form.AllWellFormed : List Form → Prop
  | [] => True
  | f :: fs => f.WellFormed ∧ Form.AllWellFormed fs

/-- The command word of a form and all that follows it are well formed. -/
def Form.WellFormed : Form → Prop
  | ⟨_, head, items, redirs⟩ => head.WellFormed ∧ Item.AllWellFormed items ∧ Redir.AllWellFormed redirs

/-- The items are well formed. -/
def Item.AllWellFormed : List Item → Prop
  | [] => True
  | i :: is => i.WellFormed ∧ Item.AllWellFormed is

/-- The word of an item is well formed. -/
def Item.WellFormed : Item → Prop
  | .arg word => word.WellFormed
  | .opt _ _ none => True
  | .opt _ _ (some word) => word.WellFormed
  | .eq _ => True

/-- The redirections are well formed. -/
def Redir.AllWellFormed : List Redir → Prop
  | [] => True
  | r :: rs => r.WellFormed ∧ Redir.AllWellFormed rs

/-- A redirection has a target unless it copies another stream. -/
def Redir.WellFormed : Redir → Prop
  | ⟨_, _, .dup _, target⟩ => target = none
  | ⟨_, _, _, some word⟩ => word.WellFormed
  | ⟨_, _, _, none⟩ => False

/-- A word has at least one part, and parts that can carry on a word behind it. -/
def Compound.WellFormed : Compound → Prop
  | ⟨_, []⟩ => False
  | ⟨_, part :: parts⟩ => part.WellFormed ∧ Indexed.AllContinue parts

/-- The words are well formed. -/
def Compound.AllWellFormed : List Compound → Prop
  | [] => True
  | w :: ws => w.WellFormed ∧ Compound.AllWellFormed ws

/-- The parts are well formed and can carry on a word. -/
def Indexed.AllContinue : List Indexed → Prop
  | [] => True
  | part :: parts => part.head.continues = true ∧ part.WellFormed ∧ Indexed.AllContinue parts

/-- The primary and all words of the indices are well formed. -/
def Indexed.WellFormed : Indexed → Prop
  | ⟨_, head, indices⟩ => head.WellFormed ∧ Indexed.IndicesWellFormed indices

/-- All words of the indices are well formed. -/
def Indexed.IndicesWellFormed : List (List Compound) → Prop
  | [] => True
  | ws :: indices => Compound.AllWellFormed ws ∧ Indexed.IndicesWellFormed indices

/-- A variable has a name, and what a primary holds is well formed. -/
def Primary.WellFormed : Primary → Prop
  | .bareword _ | .quoted _ => True
  | .variable name _ => name.isEmpty = false
  | .capture inside => inside.WellFormed
  | .list ws => Compound.AllWellFormed ws
  | .map ps => Compound.PairsWellFormed ps
  | .lambda l => l.WellFormed

/-- The keys and values are well formed. -/
def Compound.PairsWellFormed : List (Compound × Compound) → Prop
  | [] => True
  | (key, value) :: ps => key.WellFormed ∧ value.WellFormed ∧ Compound.PairsWellFormed ps

/-- A lambda has one rest parameter at most, and no other parameter or option is named like one. -/
def Lambda.WellFormed : Lambda → Prop
  | ⟨_, params, options, _, body⟩ =>
    params.countP (·.isRest) ≤ 1 ∧ (∀ p ∈ params, p.isRest = false → Name.startsAt p.name = false) ∧
      Compound.DefaultsWellFormed options ∧ body.WellFormed

/-- The names of the options are their own, and the defaults are well formed. -/
def Compound.DefaultsWellFormed : List (String × Compound) → Prop
  | [] => True
  | (name, word) :: options =>
    Name.startsAt name = false ∧ word.WellFormed ∧ Compound.DefaultsWellFormed options

end

/-! ## Trees as marks -/

/-- A parameter as it is written. -/
def Param.token (p : Param) : Token :=
  .bareword (if p.isRest then "@" ++ p.name else p.name)

mutual

/-- The pipelines of a chunk, with semicolons between them. -/
def Chunk.marks : Chunk → List Mark
  | ⟨[]⟩ => []
  | ⟨p :: ps⟩ => p.marks ++ Pipeline.otherMarks ps

/-- Further pipelines, each behind a semicolon. -/
def Pipeline.otherMarks : List Pipeline → List Mark
  | [] => []
  | p :: ps => .apart .semicolon :: (p.marks ++ Pipeline.otherMarks ps)

/-- The forms of a pipeline, with pipes between them. -/
def Pipeline.marks : Pipeline → List Mark
  | ⟨_, []⟩ => []
  | ⟨_, f :: fs⟩ => f.marks ++ Form.otherMarks fs

/-- Further forms, each behind a pipe. -/
def Form.otherMarks : List Form → List Mark
  | [] => []
  | f :: fs => .apart .pipe :: (f.marks ++ Form.otherMarks fs)

/-- The command word, the items and the redirections. -/
def Form.marks : Form → List Mark
  | ⟨_, head, items, redirs⟩ => head.marks false ++ (Item.allMarks items ++ Redir.allMarks redirs)

/-- Items one after another. -/
def Item.allMarks : List Item → List Mark
  | [] => []
  | i :: is => i.marks ++ Item.allMarks is

/-- An item.  The name of an option, the `=` and the value touch. -/
def Item.marks : Item → List Mark
  | .arg word => word.marks false
  | .opt _ name none => [.apart .amp, .joined (.bareword name)]
  | .opt _ name (some word) =>
    .apart .amp :: .joined (.bareword name) :: .joined .eq :: word.marks true
  | .eq _ => [.apart .eq]

/-- Redirections one after another. -/
def Redir.allMarks : List Redir → List Mark
  | [] => []
  | r :: rs => r.marks ++ Redir.allMarks rs

/-- A redirection and its target. -/
def Redir.marks : Redir → List Mark
  | ⟨_, fd, mode, none⟩ => [.apart (.redir (some fd) mode)]
  | ⟨_, fd, mode, some word⟩ => .apart (.redir (some fd) mode) :: word.marks false

/-- A word, the first token of which touches what is in front of it or not. -/
def Compound.marks (touching : Bool) : Compound → List Mark
  | ⟨_, []⟩ => []
  | ⟨_, part :: parts⟩ => part.marks touching ++ Indexed.otherMarks parts

/-- Words one after another. -/
def Compound.allMarks : List Compound → List Mark
  | [] => []
  | w :: ws => w.marks false ++ Compound.allMarks ws

/-- Further parts of a word, which touch. -/
def Indexed.otherMarks : List Indexed → List Mark
  | [] => []
  | part :: parts => part.marks true ++ Indexed.otherMarks parts

/-- A primary and its indices. -/
def Indexed.marks (touching : Bool) : Indexed → List Mark
  | ⟨_, head, indices⟩ => head.marks touching ++ Indexed.indexMarks indices

/-- Indices between brackets that touch. -/
def Indexed.indexMarks : List (List Compound) → List Mark
  | [] => []
  | ws :: indices =>
    .joined .lbracket :: (Compound.allMarks ws ++ .joined .rbracket :: Indexed.indexMarks indices)

/-- A primary, the first token of which touches what is in front of it or not. -/
def Primary.marks (touching : Bool) : Primary → List Mark
  | .bareword text => [⟨touching, .bareword text⟩]
  | .quoted text => [⟨touching, .quoted text⟩]
  | .variable name explode => [⟨touching, .variable name explode⟩]
  | .capture inside => ⟨touching, .lparen⟩ :: (inside.marks ++ [.apart .rparen])
  | .list ws => ⟨touching, .lbracket⟩ :: (Compound.allMarks ws ++ [.apart .rbracket])
  | .map [] => [⟨touching, .lbracket⟩, .apart .amp, .apart .rbracket]
  | .map (p :: ps) => ⟨touching, .lbracket⟩ :: (Compound.pairMarks (p :: ps) ++ [.apart .rbracket])
  | .lambda l => ⟨touching, .lbrace⟩ :: l.marks

/-- The pairs of a map.  The key and the value touch the signs in front of them. -/
def Compound.pairMarks : List (Compound × Compound) → List Mark
  | [] => []
  | (key, value) :: ps =>
    .apart .amp :: (key.marks true ++ .joined .eq :: (value.marks true ++ Compound.pairMarks ps))

/-- What follows the opening brace of a lambda.  Without parameters and options there is no signature. -/
def Lambda.marks : Lambda → List Mark
  | ⟨_, [], [], none, body⟩ => body.marks ++ [.apart .rbrace]
  | ⟨_, params, options, restOptions, body⟩ =>
    .joined .pipe :: (params.map (.apart ·.token) ++ (Compound.defaultMarks options ++
      (Lambda.restMarks restOptions ++ .apart .pipe :: (body.marks ++ [.apart .rbrace]))))

/-- The options of a signature.  The names, the `=` and the defaults touch. -/
def Compound.defaultMarks : List (String × Compound) → List Mark
  | [] => []
  | (name, word) :: options =>
    .apart .amp :: .joined (.bareword name) :: .joined .eq ::
      (word.marks true ++ Compound.defaultMarks options)

/-- The name under which the other options are collected. -/
def Lambda.restMarks : Option String → List Mark
  | none => []
  | some name => [.apart .amp, .joined (.bareword ("@" ++ name))]

end

/-- The tokens of a chunk, with spans. -/
def Chunk.flatten (c : Chunk) : List Spanned :=
  Mark.place 0 c.marks

/-! ## Trees without spans -/

/-- The span in place of all others. -/
def Span.nowhere : Span :=
  ⟨0, 0⟩

mutual

/-- The chunk without its spans. -/
def Chunk.unplaced : Chunk → Chunk
  | ⟨pipelines⟩ => ⟨Pipeline.allUnplaced pipelines⟩

/-- The pipelines without their spans. -/
def Pipeline.allUnplaced : List Pipeline → List Pipeline
  | [] => []
  | p :: ps => p.unplaced :: Pipeline.allUnplaced ps

/-- The pipeline without its spans. -/
def Pipeline.unplaced : Pipeline → Pipeline
  | ⟨_, forms⟩ => ⟨.nowhere, Form.allUnplaced forms⟩

/-- The forms without their spans. -/
def Form.allUnplaced : List Form → List Form
  | [] => []
  | f :: fs => f.unplaced :: Form.allUnplaced fs

/-- The form without its spans. -/
def Form.unplaced : Form → Form
  | ⟨_, head, items, redirs⟩ => ⟨.nowhere, head.unplaced, Item.allUnplaced items, Redir.allUnplaced redirs⟩

/-- The items without their spans. -/
def Item.allUnplaced : List Item → List Item
  | [] => []
  | i :: is => i.unplaced :: Item.allUnplaced is

/-- The item without its spans. -/
def Item.unplaced : Item → Item
  | .arg word => .arg word.unplaced
  | .opt _ name none => .opt .nowhere name none
  | .opt _ name (some word) => .opt .nowhere name (some word.unplaced)
  | .eq _ => .eq .nowhere

/-- The redirections without their spans. -/
def Redir.allUnplaced : List Redir → List Redir
  | [] => []
  | r :: rs => r.unplaced :: Redir.allUnplaced rs

/-- The redirection without its spans. -/
def Redir.unplaced : Redir → Redir
  | ⟨_, fd, mode, none⟩ => ⟨.nowhere, fd, mode, none⟩
  | ⟨_, fd, mode, some word⟩ => ⟨.nowhere, fd, mode, some word.unplaced⟩

/-- The word without its spans. -/
def Compound.unplaced : Compound → Compound
  | ⟨_, parts⟩ => ⟨.nowhere, Indexed.allUnplaced parts⟩

/-- The words without their spans. -/
def Compound.allUnplaced : List Compound → List Compound
  | [] => []
  | w :: ws => w.unplaced :: Compound.allUnplaced ws

/-- The parts without their spans. -/
def Indexed.allUnplaced : List Indexed → List Indexed
  | [] => []
  | part :: parts => part.unplaced :: Indexed.allUnplaced parts

/-- The part without its spans. -/
def Indexed.unplaced : Indexed → Indexed
  | ⟨_, head, indices⟩ => ⟨.nowhere, head.unplaced, Indexed.indicesUnplaced indices⟩

/-- The indices without their spans. -/
def Indexed.indicesUnplaced : List (List Compound) → List (List Compound)
  | [] => []
  | ws :: indices => Compound.allUnplaced ws :: Indexed.indicesUnplaced indices

/-- The primary without its spans. -/
def Primary.unplaced : Primary → Primary
  | .bareword text => .bareword text
  | .quoted text => .quoted text
  | .variable name explode => .variable name explode
  | .capture inside => .capture inside.unplaced
  | .list ws => .list (Compound.allUnplaced ws)
  | .map ps => .map (Compound.pairsUnplaced ps)
  | .lambda l => .lambda l.unplaced

/-- The pairs without their spans. -/
def Compound.pairsUnplaced : List (Compound × Compound) → List (Compound × Compound)
  | [] => []
  | (key, value) :: ps => (key.unplaced, value.unplaced) :: Compound.pairsUnplaced ps

/-- The lambda without its spans. -/
def Lambda.unplaced : Lambda → Lambda
  | ⟨_, params, options, restOptions, body⟩ =>
    ⟨.nowhere, params, Compound.defaultsUnplaced options, restOptions, body.unplaced⟩

/-- The options without their spans. -/
def Compound.defaultsUnplaced : List (String × Compound) → List (String × Compound)
  | [] => []
  | (name, word) :: options => (name, word.unplaced) :: Compound.defaultsUnplaced options

end

end ValueShell
