import ValueShell.Proofs.Progress.Positions

/-!
# The loops of the grammar

Eight rules of the grammar repeat one thing until something else comes.  They call themselves once a round, and
what they give is put together on the way back.  Here each is taken apart: what one round does (`Parser.Loop.round`),
which either says that the loop is over or what to go on with and what to put in front of the rest, and what is given
at the end (`Parser.Loop.stop`).  `Parser.Loop.run_succ` puts them together again.
-/

set_option autoImplicit false

namespace ValueShell

namespace Parser

/-- The rules that go round, each with what it gives. -/
inductive Loop : Type → Type where
  | chunk (close : Option Token) : Loop Chunk
  | stages : Loop (List Form)
  | formRest : Loop (List Item × List Redir)
  | moreParts : Loop (List Indexed)
  | indexLists : Loop (List (List Compound))
  | wordsUntil (close : Token) : Loop (List Compound)
  | pairs : Loop (List (Compound × Compound))
  | signature (hasRest : Bool) : Loop (List Param × List (String × Compound) × Option String)

namespace Loop

variable {α : Type}

/-- The rule itself, with the number of steps it may use. -/
def run : {α : Type} → Loop α → Nat → Parser α
  | _, chunk close => Parser.chunk close
  | _, stages => Parser.stages
  | _, formRest => Parser.formRest
  | _, moreParts => Parser.moreParts
  | _, indexLists => Parser.indexLists
  | _, wordsUntil close => Parser.wordsUntil close
  | _, pairs => Parser.pairs
  | _, signature hasRest => Parser.signature hasRest

/-- What is given where the loop ends. -/
def stop : {α : Type} → Loop α → α
  | _, chunk _ => ⟨[]⟩
  | _, stages => []
  | _, formRest => ([], [])
  | _, moreParts => []
  | _, indexLists => []
  | _, wordsUntil _ => []
  | _, pairs => []
  | _, signature _ => ([], [], none)

/-- One round with steps for the rules it calls: nothing if the loop ends here, or the loop to go on with and what has
been read for the front of what it will give. -/
def round : {α : Type} → Loop α → Nat → Parser (Option (Loop α × (α → α)))
  | _, chunk close, n => do
    skipSeparators
    match ← peek, close with
    | none, none => return none
    | none, some wanted => fail (.expected wanted none)
    | some token, _ =>
      if some token = close then return none
      else
        let first ← pipeline n
        endPipeline close
        return some (chunk close, fun others ↦ ⟨first :: others.pipelines⟩)
  | _, stages, n => do
    if (← peek) = some .pipe then
      discard advance
      skipNewlines
      let first ← form n
      return some (stages, (first :: ·))
    else return none
  | _, formRest, n => do
    match ← peek with
    | none | some .newline | some .semicolon | some .pipe | some .rparen | some .rbrace => return none
    | some .amp =>
      let first ← option n
      return some (formRest, fun (items, redirs) ↦ (first :: items, redirs))
    | some .eq =>
      let start ← here
      discard advance
      let span ← spanFrom start
      return some (formRest, fun (items, redirs) ↦ (.eq span :: items, redirs))
    | some (.redir fd mode) =>
      let first ← redir (fd.getD 1) mode n
      return some (formRest, fun (items, redirs) ↦ (items, first :: redirs))
    | some token =>
      if token.startsWord then
        let first ← compound n
        return some (formRest, fun (items, redirs) ↦ (.arg first :: items, redirs))
      else fail (.unexpected token)
  | _, moreParts, n => do
    if ← wordContinues then
      let first ← indexed n
      return some (moreParts, (first :: ·))
    else return none
  | _, indexLists, n => do
    match ← peek, ← touches with
    | some .lbracket, true =>
      discard advance
      let first ← Parser.wordsUntil .rbracket n
      return some (indexLists, (first :: ·))
    | _, _ => return none
  | _, wordsUntil close, n => do
    skipNewlines
    let next ← peek
    if next = some close then
      discard advance
      return none
    else if next.any Token.startsWord then
      let first ← compound n
      return some (wordsUntil close, (first :: ·))
    else fail (.expected close next)
  | _, pairs, n => do
    skipNewlines
    if (← peek) = some .rbracket then
      discard advance
      return none
    else
      expect .amp
      if (← peek) = some .rbracket then return some (pairs, id)
      else
        let first ← pair n
        return some (pairs, (first :: ·))
  | _, signature hasRest, n => do
    let start ← here
    match ← advance with
    | none => fail .openSignature
    | some .pipe => return none
    | some .newline => return some (signature hasRest, id)
    | some (.bareword word) =>
      match word.toList with
      | '@' :: name =>
        if hasRest then failAt start .secondRestParam
        else
          return some (signature true, fun (params, options, restOptions) ↦
            (⟨String.ofList name, true⟩ :: params, options, restOptions))
      | _ =>
        return some (signature hasRest, fun (params, options, restOptions) ↦
          (⟨word, false⟩ :: params, options, restOptions))
    | some .amp =>
      match ← advance with
      | some (.bareword word) =>
        match word.toList with
        | '@' :: name =>
          return some (signature hasRest, fun (params, options, restOptions) ↦
            (params, options, restOptions.orElse fun _ ↦ some (String.ofList name)))
        | _ =>
          expect .eq
          let default ← compound n
          return some (signature hasRest, fun (params, options, restOptions) ↦
            (params, (word, default) :: options, restOptions))
      | _ => failAt start .noOptionName
    | some token => failAt start (.notInSignature token)

/-- What a loop does after a round. -/
def goOn (l : Loop α) (n : Nat) : Option (Loop α × (α → α)) → Parser α
  | none => return l.stop
  | some (next, put) => do return put (← next.run n)

/-- A word begins with `@`, or it does not. -/
theorem isRest_or (word : List Char) : (∃ name, word = '@' :: name) ∨ ∀ name, word = '@' :: name → False :=
  (Classical.em _).imp_right not_exists.1

/-- A loop makes a round, and then ends or goes on. -/
theorem run_succ (l : Loop α) (n : Nat) : l.run (n + 1) = l.round n >>= l.goOn n := by
  cases l with
  | chunk close =>
    rw [run, Parser.chunk, round]
    simp only [bind_assoc]
    refine bind_congr fun _ ↦ bind_congr fun next ↦ ?_
    cases next with
    | none => cases close <;> rfl
    | some token =>
      dsimp only
      split
      · rfl
      · simp only [bind_assoc, pure_bind]
        rfl
  | stages =>
    rw [run, Parser.stages, round]
    simp only [bind_assoc]
    refine bind_congr fun next ↦ ?_
    split
    · simp only [bind_assoc, pure_bind]
      rfl
    · rfl
  | formRest =>
    rw [run, Parser.formRest, round]
    simp only [bind_assoc]
    refine bind_congr fun next ↦ ?_
    cases next with
    | none => rfl
    | some token =>
      cases token with
      | newline | semicolon | pipe | rparen | rbrace | rbracket => rfl
      | _ =>
        simp only [Token.startsWord, if_true, bind_assoc, pure_bind]
        rfl
  | moreParts =>
    rw [run, Parser.moreParts, round]
    simp only [bind_assoc]
    refine bind_congr fun continues ↦ ?_
    split
    · simp only [bind_assoc, pure_bind]
      rfl
    · rfl
  | indexLists =>
    rw [run, Parser.indexLists, round]
    simp only [bind_assoc]
    refine bind_congr fun next ↦ bind_congr fun touches ↦ ?_
    cases next with
    | none => rfl
    | some token =>
      cases token with
      | lbracket =>
        cases touches with
        | false => rfl
        | true =>
          simp only [bind_assoc, pure_bind]
          rfl
      | _ => rfl
  | wordsUntil close =>
    rw [run, Parser.wordsUntil, round]
    simp only [bind_assoc]
    refine bind_congr fun _ ↦ bind_congr fun next ↦ ?_
    split
    · simp only [bind_assoc, pure_bind]
      rfl
    · split
      · simp only [bind_assoc, pure_bind]
        rfl
      · rfl
  | pairs =>
    rw [run, Parser.pairs, round]
    simp only [bind_assoc]
    refine bind_congr fun _ ↦ bind_congr fun next ↦ ?_
    split
    · simp only [bind_assoc, pure_bind]
      rfl
    · simp only [bind_assoc]
      refine bind_congr fun _ ↦ bind_congr fun next ↦ ?_
      split
      · exact (bind_pure _).symm
      · simp only [bind_assoc, pure_bind]
        rfl
  | signature hasRest =>
    rw [run, Parser.signature, round]
    simp only [bind_assoc]
    refine bind_congr fun start ↦ bind_congr fun next ↦ ?_
    cases next with
    | none => rfl
    | some token =>
      cases token with
      | newline => exact (bind_pure _).symm
      | bareword word =>
        dsimp only
        obtain ⟨name, hword⟩ | hword := isRest_or word.toList
        · simp only [hword]
          split <;> rfl
        · simp only
          rfl
      | amp =>
        simp only [bind_assoc]
        refine bind_congr fun next ↦ ?_
        cases next with
        | none => rfl
        | some token =>
          cases token with
          | bareword word =>
            dsimp only
            obtain ⟨name, hword⟩ | hword := isRest_or word.toList
            · simp only [hword]
              rfl
            · simp only [bind_assoc, pure_bind]
              rfl
          | _ => rfl
      | _ => rfl

end Loop

end Parser

end ValueShell
