import ValueShell.Proofs.Progress.Loops

/-!
# The parser always moves on

Every rule of the grammar comes to an end on every list of tokens and from every position in it, and never because
its steps are used up: 10 steps for each token that is left and a few for the rule itself (`Parser.Rule.rank`) are
enough, and more make no difference.  What it gives leaves the parser at a later position or where it was, never
behind the tokens, and a fault is at such a position too.

The ranks say how deep the rules call each other before a token is read: a rule calls one of lower rank where it
stands, and any rule further on.  So every call keeps enough steps, whatever is left to read
(`Parser.Enough.here`, `Parser.Enough.later`), and it is for calls of the second kind that a rule is known to have read
something (`Parser.Rule.Reads`).

All of this is one statement about all rules with two numbers of steps, `Parser.RulesSettle`, with one lemma for each
rule or for one round of it, and by induction on the two numbers.
-/

set_option autoImplicit false

namespace ValueShell

namespace Parser

/-! ## The rules -/

/-- What stands behind the bracket of a list or of a map. -/
def listOrMap (n : Nat) : Parser Primary := do
  skipNewlines
  if (← peek) = some .amp then return .map (← pairs n)
  else return .list (← wordsUntil .rbracket n)

/-- The rules of the grammar, each with what it gives. -/
inductive Rule : Type → Type 1 where
  | loop {α : Type} (l : Loop α) : Rule α
  | pipeline : Rule Pipeline
  | form : Rule Form
  | option : Rule Item
  | optionValue : Rule (Option Compound)
  | redir (fd : Nat) (mode : RedirMode) : Rule Redir
  | compound : Rule Compound
  | indexed : Rule Indexed
  | primary : Rule Primary
  | listOrMap : Rule Primary
  | pair : Rule (Compound × Compound)
  | lambda (start : Nat) : Rule Primary
  | lambdaBody (start : Nat) (params : List Param) (options : List (String × Compound))
    (restOptions : Option String) : Rule Primary

/-- How many rules, this one with them, may be entered in a row before a token is read. -/
def Loop.rank : {α : Type} → Loop α → Nat
  | _, .chunk _ => 6
  | _, .formRest | _, .wordsUntil _ => 4
  | _, .moreParts => 3
  | _, .stages | _, .indexLists | _, .pairs | _, .signature _ => 1

/-- Does the loop read the token that ends it? -/
def Loop.Closes : {α : Type} → Loop α → Prop
  | _, .wordsUntil _ | _, .pairs | _, .signature _ => True
  | _, _ => False

/-- What a round of the loop has to have read: something, if the loop goes on, or if it has to read the token that ends
it. -/
def Loop.Turns {α : Type} (l : Loop α) (pos i : Nat) (next : Option (Loop α × (α → α))) : Prop :=
  l.Closes ∨ next.isSome = true → pos < i

theorem Loop.turns_none {α : Type} {l : Loop α} {pos i : Nat} (h : ¬ l.Closes) : l.Turns pos i none := by
  rintro (hcloses | hnext)
  · exact absurd hcloses h
  · cases hnext

namespace Rule

variable {α : Type}

/-- The rule itself, with the number of steps it may use. -/
def run : {α : Type} → Rule α → Nat → Parser α
  | _, loop l => l.run
  | _, pipeline => Parser.pipeline
  | _, form => Parser.form
  | _, option => Parser.option
  | _, optionValue => Parser.optionValue
  | _, redir fd mode => Parser.redir fd mode
  | _, compound => Parser.compound
  | _, indexed => Parser.indexed
  | _, primary => Parser.primary
  | _, listOrMap => Parser.listOrMap
  | _, pair => Parser.pair
  | _, lambda start => Parser.lambda start
  | _, lambdaBody start params options restOptions => Parser.lambdaBody start params options restOptions

/-- How many rules, this one with them, may be entered in a row before a token is read. -/
def rank : {α : Type} → Rule α → Nat
  | _, loop l => l.rank
  | _, lambda _ => 8
  | _, lambdaBody .. => 7
  | _, pipeline => 5
  | _, form | _, pair | _, listOrMap => 4
  | _, compound => 3
  | _, indexed => 2
  | _, option | _, optionValue | _, redir .. | _, primary => 1

/-- Has the rule read something whenever it gives something?  Those that may give nothing have not, and a redirection
has if there is anything left, as where it is entered. -/
def Reads : {α : Type} → Rule α → Nat → Prop
  | _, loop l, _ => l.Closes
  | _, optionValue, _ => False
  | _, redir .., left => 0 < left
  | _, _, _ => True

theorem rank_lt (r : Rule α) : r.rank < 10 := by
  cases r with
  | loop l => cases l <;> simp [rank, Loop.rank]
  | _ => simp [rank]

theorem rank_pos (r : Rule α) : 0 < r.rank := by
  cases r with
  | loop l => cases l <;> simp [rank, Loop.rank]
  | _ => simp [rank]

end Rule

/-! ## Steps enough -/

variable {α : Type} {c : Cursor} {n m pos i rank rank' : Nat}

/-- Both numbers of steps are enough for a rule of the rank at the position. -/
def Enough (c : Cursor) (n m pos rank : Nat) : Prop :=
  10 * (c.rest.length - pos) + rank ≤ min n m

theorem Enough.onward (h : Enough c n m pos rank) (hle : pos ≤ i) : Enough c n m i rank := by
  rw [Enough] at h ⊢
  omega

theorem Enough.lower (h : Enough c n m pos rank) (hle : rank' ≤ rank) : Enough c n m pos rank' := by
  rw [Enough] at h ⊢
  omega

theorem Enough.here (h : Enough c (n + 1) (m + 1) pos rank) (hlt : rank' < rank) : Enough c n m pos rank' := by
  rw [Enough] at h ⊢
  omega

theorem Enough.later (h : Enough c (n + 1) (m + 1) pos rank) (hlt : pos < i) (hle : i ≤ c.rest.length)
    (hrank : rank' < 10) : Enough c n m i rank' := by
  rw [Enough] at h ⊢
  omega

/-- With either number of steps, if they are enough, every rule comes to the same end, and those that read have
read. -/
def RulesSettle (c : Cursor) (n m : Nat) : Prop :=
  ∀ {α : Type} (r : Rule α) (pos : Nat), Enough c n m pos r.rank →
    Settles c pos pos (r.run n) (r.run m) fun i _ ↦ r.Reads (c.rest.length - pos) → pos < i

namespace RulesSettle

variable {start : Nat}

/-- A rule of lower rank may be called at once. -/
theorem here (h : RulesSettle c n m) (hroom : Enough c (n + 1) (m + 1) pos rank) (r : Rule α) (hrank : r.rank < rank) :
    Settles c start pos (r.run n) (r.run m) fun i _ ↦ r.Reads (c.rest.length - pos) → pos < i :=
  (h r pos (hroom.here hrank)).called

/-- Any rule may be called further on. -/
theorem later (h : RulesSettle c n m) (hroom : Enough c (n + 1) (m + 1) pos rank) (r : Rule α) (hlt : pos < i) :
    Settles c start i (r.run n) (r.run m) fun j _ ↦ r.Reads (c.rest.length - i) → i < j :=
  fun hstart hle ↦ (h r i (hroom.later hlt hle r.rank_lt)).called hstart hle

/-! ### Words -/

theorem compound_step (h : RulesSettle c n m) (hroom : Enough c (n + 1) (m + 1) pos (Rule.rank .compound)) :
    Settles c pos pos (Parser.compound (n + 1)) (Parser.compound (m + 1)) fun i _ ↦ pos < i := by
  rw [Parser.compound, Parser.compound]
  refine .look rfl (.bind (h.here hroom .indexed (by decide)) fun i first _ hread ↦ ?_)
  refine .bind (h.later hroom (.loop .moreParts) (hread trivial)) fun j others hle _ ↦ .look rfl (.pure ?_)
  exact Nat.lt_of_lt_of_le (hread trivial) hle

theorem indexed_step (h : RulesSettle c n m) (hroom : Enough c (n + 1) (m + 1) pos (Rule.rank .indexed)) :
    Settles c pos pos (Parser.indexed (n + 1)) (Parser.indexed (m + 1)) fun i _ ↦ pos < i := by
  rw [Parser.indexed, Parser.indexed]
  refine .look rfl (.bind (h.here hroom .primary (by decide)) fun i head _ hread ↦ ?_)
  refine .bind (h.later hroom (.loop .indexLists) (hread trivial)) fun j indices hle _ ↦ .look rfl (.pure ?_)
  exact Nat.lt_of_lt_of_le (hread trivial) hle

theorem moreParts_round (h : RulesSettle c n m) (hroom : Enough c (n + 1) (m + 1) pos (Loop.rank .moreParts)) :
    Settles c pos pos (Loop.round .moreParts n) (Loop.round .moreParts m) (Loop.Turns .moreParts pos) := by
  rw [Loop.round, Loop.round]
  refine .look rfl ?_
  split
  · exact .bind (h.here hroom .indexed (by decide)) fun i first _ hread ↦ .pure fun _ ↦ hread trivial
  · exact .pure (Loop.turns_none id)

theorem indexLists_round (h : RulesSettle c n m) (hroom : Enough c (n + 1) (m + 1) pos (Loop.rank .indexLists)) :
    Settles c pos pos (Loop.round .indexLists n) (Loop.round .indexLists m) (Loop.Turns .indexLists pos) := by
  rw [Loop.round, Loop.round]
  refine .look rfl (.look rfl ?_)
  generalize hnext : (c.past pos).next? = next, (c.past pos).touches = touches
  split
  · refine .bind (.discard hnext) fun i _ _ hi ↦ ?_
    obtain rfl := hi
    refine .bind (h.later hroom (.loop (.wordsUntil .rbracket)) (Nat.lt_succ_self pos)) fun j first hle _ ↦ .pure ?_
    exact fun _ ↦ hle
  · exact .pure (Loop.turns_none id)

theorem wordsUntil_round (h : RulesSettle c n m) {close : Token}
    (hroom : Enough c (n + 1) (m + 1) pos (Loop.rank (.wordsUntil close))) :
    Settles c pos pos (Loop.round (.wordsUntil close) n) (Loop.round (.wordsUntil close) m)
      (Loop.Turns (.wordsUntil close) pos) := by
  rw [Loop.round, Loop.round]
  refine .bind (.skip _) fun i _ hle _ ↦ .look rfl ?_
  split
  next hnext => exact .bind (.discard hnext) fun j _ _ hj ↦ .pure fun _ ↦ hj ▸ Nat.lt_succ_of_le hle
  next =>
    split
    · refine .bind (h.here (hroom.onward hle) .compound (by simp [Rule.rank, Loop.rank])) fun j first _ hread ↦ .pure ?_
      exact fun _ ↦ Nat.lt_of_le_of_lt hle (hread trivial)
    · exact .fail (by simp)

theorem pairs_round (h : RulesSettle c n m) (hroom : Enough c (n + 1) (m + 1) pos (Loop.rank .pairs)) :
    Settles c pos pos (Loop.round .pairs n) (Loop.round .pairs m) (Loop.Turns .pairs pos) := by
  rw [Loop.round, Loop.round]
  refine .bind (.skip _) fun i _ hle _ ↦ .look rfl ?_
  split
  next hnext => exact .bind (.discard hnext) fun j _ _ hj ↦ .pure fun _ ↦ hj ▸ Nat.lt_succ_of_le hle
  next =>
    -- the `&` alone is something read
    refine .bind (.expect .amp) fun j _ _ hj ↦ .look rfl ?_
    have hlt : pos < j := hj ▸ Nat.lt_succ_of_le hle
    split
    · exact .pure fun _ ↦ hlt
    · refine .bind (h.later hroom .pair hlt) fun k first hle _ ↦ .pure ?_
      exact fun _ ↦ Nat.lt_of_lt_of_le hlt hle

theorem listOrMap_settles (hpairs : ∀ i, pos ≤ i → Settles c pos i (Parser.pairs n) (Parser.pairs m) fun j _ ↦ i < j)
    (hwords : ∀ i, pos ≤ i →
      Settles c pos i (Parser.wordsUntil .rbracket n) (Parser.wordsUntil .rbracket m) fun j _ ↦ i < j) :
    Settles c pos pos (Parser.listOrMap n) (Parser.listOrMap m) fun i _ ↦ pos < i := by
  rw [Parser.listOrMap, Parser.listOrMap]
  refine .bind (.skip _) fun i _ hle _ ↦ .look rfl ?_
  split
  · exact .bind (hpairs i hle) fun j ps _ hlt ↦ .pure (Nat.lt_of_le_of_lt hle hlt)
  · exact .bind (hwords i hle) fun j ws _ hlt ↦ .pure (Nat.lt_of_le_of_lt hle hlt)

theorem primary_step (h : RulesSettle c n m) (hroom : Enough c (n + 1) (m + 1) pos (Rule.rank .primary)) :
    Settles c pos pos (Parser.primary (n + 1)) (Parser.primary (m + 1)) fun i _ ↦ pos < i := by
  rw [Parser.primary, Parser.primary]
  refine .look rfl (.advance (fun _ ↦ .fail (by simp)) fun token _ ↦ ?_)
  have hlt := Nat.lt_succ_self pos
  cases token with
  | bareword | quoted => exact .pure hlt
  | «variable» name explode =>
    dsimp only
    split
    · exact .failAt (by simp)
    · exact .pure hlt
  | lparen =>
    refine .bind (h.later hroom (.loop (.chunk (some .rparen))) hlt) fun i inside hle _ ↦ ?_
    exact .bind (.expect _) fun j _ hle' _ ↦ .pure (Nat.lt_of_lt_of_le hlt (Nat.le_trans hle hle'))
  | lbracket => exact (h.later hroom .listOrMap hlt).imp fun i _ hle _ ↦ Nat.lt_of_lt_of_le hlt hle
  | lbrace => exact (h.later hroom (.lambda (c.past pos).here) hlt).imp fun i _ hle _ ↦ Nat.lt_of_lt_of_le hlt hle
  | _ => exact .failAt (by simp)

theorem pair_step (h : RulesSettle c n m) (hroom : Enough c (n + 1) (m + 1) pos (Rule.rank .pair)) :
    Settles c pos pos (Parser.pair (n + 1)) (Parser.pair (m + 1)) fun i _ ↦ pos < i := by
  rw [Parser.pair, Parser.pair]
  refine .look rfl ?_
  split
  · refine .bind (h.here hroom .compound (by decide)) fun i key _ hread ↦ .look rfl (.look rfl ?_)
    generalize hnext : (c.past i).next? = next, (c.past i).touches = touches
    split
    · refine .bind (.discard hnext) fun j _ hle _ ↦ .look rfl ?_
      have hlt : pos < j := Nat.lt_of_lt_of_le (hread trivial) hle
      split
      · exact .bind (h.later hroom .compound hlt) fun k value hle' _ ↦ .pure (Nat.lt_of_lt_of_le hlt hle')
      · exact .fail (by simp)
    · exact .fail (by simp)
  · exact .fail (by simp)

/-! ### Lambdas -/

theorem signature_round (h : RulesSettle c n m) {hasRest : Bool}
    (hroom : Enough c (n + 1) (m + 1) pos (Loop.rank (.signature hasRest))) :
    Settles c pos pos (Loop.round (.signature hasRest) n) (Loop.round (.signature hasRest) m)
      (Loop.Turns (.signature hasRest) pos) := by
  rw [Loop.round, Loop.round]
  refine .look rfl (.advance (fun _ ↦ .fail (by simp)) fun token _ ↦ ?_)
  have hlt := Nat.lt_succ_self pos
  cases token with
  | pipe | newline => exact .pure fun _ ↦ hlt
  | bareword word =>
    dsimp only
    split
    · split
      · exact .failAt (by simp)
      · exact .pure fun _ ↦ hlt
    · exact .pure fun _ ↦ hlt
  | amp =>
    refine .advance (fun _ ↦ .failAt (by simp)) fun token _ ↦ ?_
    have hlt : pos < pos + 1 + 1 := by omega
    cases token with
    | bareword word =>
      dsimp only
      split
      · exact .pure fun _ ↦ hlt
      · refine .bind (.expect _) fun i _ hle _ ↦ ?_
        have hlt := Nat.lt_of_lt_of_le hlt hle
        refine .bind (h.later hroom .compound hlt) fun j default hle _ ↦ .pure ?_
        exact fun _ ↦ Nat.lt_of_lt_of_le hlt hle
    | _ => exact .failAt (by simp)
  | _ => exact .failAt (by simp)

theorem lambda_step (h : RulesSettle c n m) {start : Nat}
    (hroom : Enough c (n + 1) (m + 1) pos (Rule.rank (.lambda start))) :
    Settles c pos pos (Parser.lambda start (n + 1)) (Parser.lambda start (m + 1)) fun i _ ↦ pos < i := by
  rw [Parser.lambda, Parser.lambda]
  refine .look rfl (.look rfl ?_)
  generalize hnext : (c.past pos).next? = next, (c.past pos).touches = touches
  split
  · refine .bind (.discard hnext) fun i _ _ hi ↦ ?_
    have hlt : pos < i := hi ▸ Nat.lt_succ_self pos
    refine .bind (h.later hroom (.loop (.signature false)) hlt) fun j x hle _ ↦ ?_
    have hlt := Nat.lt_of_lt_of_le hlt hle
    exact (h.later hroom (.lambdaBody start x.1 x.2.1 x.2.2) hlt).imp fun k _ hle _ ↦ Nat.lt_of_lt_of_le hlt hle
  · exact (h.here hroom (.lambdaBody start [] [] none) (by simp [Rule.rank])).imp fun i _ _ hread ↦ hread trivial

theorem lambdaBody_step (h : RulesSettle c n m) {start : Nat} {params : List Param}
    {options : List (String × Compound)} {restOptions : Option String}
    (hroom : Enough c (n + 1) (m + 1) pos (Rule.rank (.lambdaBody start params options restOptions))) :
    Settles c pos pos (Parser.lambdaBody start params options restOptions (n + 1))
      (Parser.lambdaBody start params options restOptions (m + 1)) fun i _ ↦ pos < i := by
  rw [Parser.lambdaBody, Parser.lambdaBody]
  refine .bind (h.here hroom (.loop (.chunk (some .rbrace))) (by simp [Rule.rank, Loop.rank])) fun i body hle _ ↦ ?_
  exact .bind (.expect _) fun j _ _ hj ↦ .look rfl (.pure (hj ▸ Nat.lt_succ_of_le hle))

/-! ### Commands -/

theorem option_step (h : RulesSettle c n m) (hroom : Enough c (n + 1) (m + 1) pos (Rule.rank .option)) :
    Settles c pos pos (Parser.option (n + 1)) (Parser.option (m + 1)) fun i _ ↦ pos < i := by
  rw [Parser.option, Parser.option]
  refine .look rfl (.bind (.expect _) fun i _ _ hi ↦ .look rfl (.look rfl ?_))
  have hlt : pos < i := hi ▸ Nat.lt_succ_self pos
  generalize hnext : (c.past i).next? = next, (c.past i).touches = touches
  split
  · refine .bind (.discard hnext) fun j _ hle _ ↦ ?_
    have hlt := Nat.lt_of_lt_of_le hlt hle
    refine .bind (h.later hroom .optionValue hlt) fun k value hle _ ↦ .look rfl (.pure ?_)
    exact Nat.lt_of_lt_of_le hlt hle
  · exact .fail (by simp)

theorem optionValue_step (h : RulesSettle c n m) (hroom : Enough c (n + 1) (m + 1) pos (Rule.rank .optionValue)) :
    Settles c pos pos (Parser.optionValue (n + 1)) (Parser.optionValue (m + 1)) fun _ _ ↦ True := by
  rw [Parser.optionValue, Parser.optionValue]
  refine .look rfl (.look rfl ?_)
  generalize hnext : (c.past pos).next? = next, (c.past pos).touches = touches
  split
  · refine .bind (.discard hnext) fun i _ _ hi ↦ .look rfl ?_
    split
    · exact .bind (h.later hroom .compound (hi ▸ Nat.lt_succ_self pos)) fun j value _ _ ↦ .pure trivial
    · exact .fail (by simp)
  · exact .pure trivial

theorem redir_step (h : RulesSettle c n m) {fd : Nat} {mode : RedirMode}
    (hroom : Enough c (n + 1) (m + 1) pos (Rule.rank (.redir fd mode))) :
    Settles c pos pos (Parser.redir fd mode (n + 1)) (Parser.redir fd mode (m + 1))
      fun i _ ↦ 0 < c.rest.length - pos → pos < i := by
  rw [Parser.redir, Parser.redir]
  refine .look rfl ?_
  cases hnext : (c.past pos).next? with
  | none =>
    have hnot : ¬ 0 < c.rest.length - pos := by
      have hle := Cursor.le_of_next? hnext
      omega
    refine .bind (.discard_none hnext) fun i _ _ hi ↦ ?_
    obtain rfl := hi
    cases mode with
    | dup other => exact .look rfl (.pure fun hleft ↦ absurd hleft hnot)
    | write | append =>
      refine .look rfl ?_
      rw [hnext]
      exact .fail (by simp)
  | some token =>
    refine .bind (.discard hnext) fun i _ _ hi ↦ ?_
    have hlt : pos < i := hi ▸ Nat.lt_succ_self pos
    cases mode with
    | dup other => exact .look rfl (.pure fun _ ↦ hlt)
    | write | append =>
      refine .look rfl ?_
      split
      · refine .bind (h.later hroom .compound hlt) fun j target hle _ ↦ .look rfl (.pure ?_)
        exact fun _ ↦ Nat.lt_of_lt_of_le hlt hle
      · exact .fail (by simp)

theorem formRest_round (h : RulesSettle c n m) (hroom : Enough c (n + 1) (m + 1) pos (Loop.rank .formRest)) :
    Settles c pos pos (Loop.round .formRest n) (Loop.round .formRest m) (Loop.Turns .formRest pos) := by
  rw [Loop.round, Loop.round]
  refine .look rfl ?_
  cases hnext : (c.past pos).next? with
  | none => exact .pure (Loop.turns_none id)
  | some token =>
    have hleft : 0 < c.rest.length - pos := by
      have hlt := Cursor.lt_of_next? hnext
      omega
    cases token with
    | newline | semicolon | pipe | rparen | rbrace => exact .pure (Loop.turns_none id)
    | amp => exact .bind (h.here hroom .option (by decide)) fun i first _ hread ↦ .pure fun _ ↦ hread trivial
    | eq =>
      refine .look rfl (.bind (.discard hnext) fun i _ _ hi ↦ .look rfl (.pure fun _ ↦ ?_))
      exact hi ▸ Nat.lt_succ_self pos
    | redir fd mode =>
      refine .bind (h.here hroom (.redir (fd.getD 1) mode) (by simp [Rule.rank, Loop.rank])) fun i first _ hread ↦ ?_
      exact .pure fun _ ↦ hread hleft
    | rbracket => exact .fail (by simp)
    | _ => exact .bind (h.here hroom .compound (by decide)) fun i first _ hread ↦ .pure fun _ ↦ hread trivial

theorem form_step (h : RulesSettle c n m) (hroom : Enough c (n + 1) (m + 1) pos (Rule.rank .form)) :
    Settles c pos pos (Parser.form (n + 1)) (Parser.form (m + 1)) fun i _ ↦ pos < i := by
  rw [Parser.form, Parser.form]
  refine .look rfl (.look rfl ?_)
  split
  · refine .bind (h.here hroom .compound (by decide)) fun i head _ hread ↦ ?_
    refine .bind (h.later hroom (.loop .formRest) (hread trivial)) fun j x hle _ ↦ .look rfl (.pure ?_)
    exact Nat.lt_of_lt_of_le (hread trivial) hle
  · exact .fail (by simp)

theorem stages_round (h : RulesSettle c n m) (hroom : Enough c (n + 1) (m + 1) pos (Loop.rank .stages)) :
    Settles c pos pos (Loop.round .stages n) (Loop.round .stages m) (Loop.Turns .stages pos) := by
  rw [Loop.round, Loop.round]
  refine .look rfl ?_
  split
  next hnext =>
    refine .bind (.discard hnext) fun i _ _ hi ↦ .bind (.skip _) fun j _ hle _ ↦ ?_
    have hlt : pos < j := Nat.lt_of_lt_of_le (hi ▸ Nat.lt_succ_self pos) hle
    exact .bind (h.later hroom .form hlt) fun k first hle _ ↦ .pure fun _ ↦ Nat.lt_of_lt_of_le hlt hle
  next => exact .pure (Loop.turns_none id)

theorem pipeline_step (h : RulesSettle c n m) (hroom : Enough c (n + 1) (m + 1) pos (Rule.rank .pipeline)) :
    Settles c pos pos (Parser.pipeline (n + 1)) (Parser.pipeline (m + 1)) fun i _ ↦ pos < i := by
  rw [Parser.pipeline, Parser.pipeline]
  refine .look rfl (.bind (h.here hroom .form (by decide)) fun i first _ hread ↦ ?_)
  refine .bind (h.later hroom (.loop .stages) (hread trivial)) fun j others hle _ ↦ .look rfl (.pure ?_)
  exact Nat.lt_of_lt_of_le (hread trivial) hle

theorem chunk_round (h : RulesSettle c n m) {close : Option Token}
    (hroom : Enough c (n + 1) (m + 1) pos (Loop.rank (.chunk close))) :
    Settles c pos pos (Loop.round (.chunk close) n) (Loop.round (.chunk close) m) (Loop.Turns (.chunk close) pos) := by
  rw [Loop.round, Loop.round]
  refine .bind (.skip _) fun i _ hle _ ↦ .look rfl ?_
  split
  · exact .pure (Loop.turns_none id)
  · exact .fail (by simp)
  · split
    · exact .pure (Loop.turns_none id)
    · refine .bind (h.here (hroom.onward hle) .pipeline (by simp [Rule.rank, Loop.rank])) fun j first _ hread ↦ ?_
      refine .bind (.endPipeline _) fun k _ hle' _ ↦ .pure fun _ ↦ ?_
      exact Nat.lt_of_le_of_lt hle (Nat.lt_of_lt_of_le (hread trivial) hle')

/-! ### All rules -/

/-- A round of any loop. -/
theorem round (h : RulesSettle c n m) (l : Loop α) (hroom : Enough c (n + 1) (m + 1) pos l.rank) :
    Settles c pos pos (l.round n) (l.round m) (l.Turns pos) := by
  cases l with
  | chunk close => exact h.chunk_round hroom
  | stages => exact h.stages_round hroom
  | formRest => exact h.formRest_round hroom
  | moreParts => exact h.moreParts_round hroom
  | indexLists => exact h.indexLists_round hroom
  | wordsUntil close => exact h.wordsUntil_round hroom
  | pairs => exact h.pairs_round hroom
  | signature hasRest => exact h.signature_round hroom

/-- A loop goes on further on only. -/
theorem loop_step (h : RulesSettle c n m) (l : Loop α) (hroom : Enough c (n + 1) (m + 1) pos l.rank) :
    Settles c pos pos (l.run (n + 1)) (l.run (m + 1)) fun i _ ↦ l.Closes → pos < i := by
  rw [l.run_succ, l.run_succ]
  refine .bind (h.round l hroom) fun i next _ hturns ↦ ?_
  cases next with
  | none => exact .pure fun hcloses ↦ hturns (.inl hcloses)
  | some next =>
    have hlt : pos < i := hturns (.inr rfl)
    refine .bind (h.later hroom (.loop next.1) hlt) fun j rest hle _ ↦ .pure fun _ ↦ ?_
    exact Nat.lt_of_lt_of_le hlt hle

theorem step (h : RulesSettle c n m) : RulesSettle c (n + 1) (m + 1) := by
  intro α r pos hroom
  cases r with
  | loop l => exact h.loop_step l hroom
  | pipeline => exact (h.pipeline_step hroom).imp fun _ _ _ hlt _ ↦ hlt
  | form => exact (h.form_step hroom).imp fun _ _ _ hlt _ ↦ hlt
  | option => exact (h.option_step hroom).imp fun _ _ _ hlt _ ↦ hlt
  | optionValue => exact (h.optionValue_step hroom).imp fun _ _ _ _ ↦ False.elim
  | redir fd mode => exact h.redir_step hroom
  | compound => exact (h.compound_step hroom).imp fun _ _ _ hlt _ ↦ hlt
  | indexed => exact (h.indexed_step hroom).imp fun _ _ _ hlt _ ↦ hlt
  | primary => exact (h.primary_step hroom).imp fun _ _ _ hlt _ ↦ hlt
  | listOrMap =>
    have hpairs (i : Nat) (hle : pos ≤ i) := h.loop_step .pairs ((hroom.onward hle).lower (by decide))
    have hwords (i : Nat) (hle : pos ≤ i) := h.loop_step (.wordsUntil .rbracket) ((hroom.onward hle).lower (by decide))
    refine (listOrMap_settles (fun i hle ↦ ?_) (fun i hle ↦ ?_)).imp fun _ _ _ hlt _ ↦ hlt
    · exact (hpairs i hle).called.imp fun _ _ _ hlt ↦ hlt trivial
    · exact (hwords i hle).called.imp fun _ _ _ hlt ↦ hlt trivial
  | pair => exact (h.pair_step hroom).imp fun _ _ _ hlt _ ↦ hlt
  | lambda start => exact (h.lambda_step hroom).imp fun _ _ _ hlt _ ↦ hlt
  | lambdaBody start params options restOptions => exact (h.lambdaBody_step hroom).imp fun _ _ _ hlt _ ↦ hlt

/-- Without a step there are not enough for any rule. -/
theorem all (c : Cursor) : ∀ n m, RulesSettle c n m
  | 0, _ => fun r _ hroom ↦ by
    have hrank := r.rank_pos
    rw [Enough, Nat.zero_min] at hroom
    omega
  | _, 0 => fun r _ hroom ↦ by
    have hrank := r.rank_pos
    rw [Enough, Nat.min_zero] at hroom
    omega
  | n + 1, m + 1 => RulesSettle.step (all c n m)

end RulesSettle

/-! ## Progress -/

/-- A script is a chunk, and has the steps it needs. -/
theorem script_ne_outOfSteps (tokens : List Spanned) (finish offset : Nat) :
    script tokens finish ≠ .error (.outOfSteps, offset) := by
  intro h
  let c : Cursor := ⟨tokens, none, finish⟩
  have henough : Enough c (steps tokens.length) (steps tokens.length) 0 (Rule.rank (.loop (.chunk none))) :=
    Nat.le_min.2 ⟨Nat.add_le_add_left (by decide) _, Nat.add_le_add_left (by decide) _⟩
  have hsettled : Settled c 0 0 _ (chunk none (steps tokens.length) c) :=
    (RulesSettle.all c _ _ (.loop (.chunk none)) 0 henough (Nat.le_refl 0) (Nat.zero_le _)).2
  rw [script] at h
  split at h
  next => cases h
  next fault hfault =>
    rw [hfault] at hsettled
    cases h
    cases hsettled with
    | error hne _ _ => exact hne rfl

/-- **The parser makes progress.**  From every position in a list of tokens, every rule ends, and more steps change
nothing.  What it gives leaves it at a position from there on, further on for the rules that read, and a fault is at
one from there on as well.  Of the rules that are loops, a round that is not the last reads a token.  A whole script
ends, whatever its tokens are. -/
theorem makes_progress (tokens : List Spanned) (finish pos : Nat) (hpos : pos ≤ tokens.length) :
    let c : Cursor := ⟨tokens, none, finish⟩
    (∀ {α : Type} (r : Rule α) (n : Nat), 10 * (tokens.length - pos) + r.rank ≤ n →
      (∀ m, n ≤ m → r.run m (c.past pos) = r.run n (c.past pos)) ∧
      Settled c pos pos (fun i _ ↦ r.Reads (tokens.length - pos) → pos < i) (r.run n (c.past pos))) ∧
    (∀ {α : Type} (l : Loop α) (n : Nat), 10 * (tokens.length - pos) + l.rank ≤ n + 1 →
      l.run (n + 1) = l.round n >>= l.goOn n ∧
      Settled c pos pos (l.Turns pos) (l.round n (c.past pos))) ∧
    ∀ offset, script tokens finish ≠ .error (.outOfSteps, offset) := by
  intro c
  have hrules : ∀ {α : Type} (r : Rule α) (n m : Nat), 10 * (tokens.length - pos) + r.rank ≤ n → n ≤ m →
      r.run n (c.past pos) = r.run m (c.past pos) ∧
        Settled c pos pos (fun i _ ↦ r.Reads (tokens.length - pos) → pos < i) (r.run n (c.past pos)) :=
    fun r n m hn hm ↦ RulesSettle.all c n m r pos (Nat.le_min.2 ⟨hn, Nat.le_trans hn hm⟩) (Nat.le_refl pos) hpos
  refine ⟨fun r n hn ↦ ⟨fun m hm ↦ (hrules r n m hn hm).1.symm, (hrules r n n hn (Nat.le_refl n)).2⟩,
    fun l n hn ↦ ⟨l.run_succ n, ?_⟩, script_ne_outOfSteps tokens finish⟩
  exact (RulesSettle.round (RulesSettle.all c n n) l (Nat.le_min.2 ⟨hn, hn⟩) (Nat.le_refl pos) hpos).2

/-- Behind the bracket of a map that breaks off: there is a fault, with any number of steps from 11 on, and one round
reads the `&`. -/
theorem makes_progress_openMap :
    let c : Cursor := ⟨[⟨.lbracket, ⟨0, 1⟩⟩, ⟨.amp, ⟨1, 2⟩⟩], none, 2⟩
    1 ≤ c.rest.length ∧ (∀ m, 11 ≤ m → pairs m (c.past 1) = .error (.noMapKey, 2)) ∧
      Settled c 1 1 (Loop.Turns .pairs 1) (Loop.round .pairs 10 (c.past 1)) ∧
      ∀ offset, script c.rest 2 ≠ .error (.outOfSteps, offset) := by
  intro c
  have hpos : 1 ≤ c.rest.length := by decide
  obtain ⟨hrules, hrounds, hscript⟩ := makes_progress c.rest 2 1 hpos
  refine ⟨hpos, fun m hm ↦ ?_, (hrounds .pairs 10 (by decide)).2, hscript⟩
  exact ((hrules (.loop .pairs) 11 (by decide)).1 m hm).trans rfl

end Parser

end ValueShell
