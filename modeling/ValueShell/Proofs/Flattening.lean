import ValueShell.Proofs.Flattening.Reading
import ValueShell.Proofs.Flattening.WellFormed

/-!
# Parsing undoes flattening

A well-formed syntax tree can be written out as tokens and read again, and the parser makes no other trees: the
well-formed trees are, but for their spans, those that scripts have.

`Parser.script_flatten` (how the flat tokens are read) and `parse_wellFormed` (what comes out of any text) are put
together here, and tried on a tree with something of each construct.
-/

set_option autoImplicit false

namespace ValueShell

/-- The flat tokens of every well-formed tree are read as that tree up to spans, and every tree that a text is
read as is well formed. -/
theorem Parser.inverts_flatten :
    (∀ c : Chunk, c.WellFormed → ∀ finish, ∃ c', Parser.script c.flatten finish = .ok c' ∧
      c'.unplaced = c.unplaced) ∧
    (∀ (text : List Char) (c : Chunk), parse text = .ok c → c.WellFormed) :=
  ⟨fun _ h finish ↦ script_flatten h finish, fun _ _ h ↦ parse_wellFormed h⟩

/-- A word of one part. -/
def flatWord (p : Primary) : Compound :=
  ⟨.nowhere, [⟨.nowhere, p, []⟩]⟩

/-- A lambda with parameters, options and a body: `{|a @b &c=d &@e| $a[(f)] }`. -/
def flatLambda : Lambda :=
  ⟨.nowhere, [⟨"a", false⟩, ⟨"b", true⟩], [("c", flatWord (.bareword "d"))], some "e",
    ⟨[⟨.nowhere, [⟨.nowhere, ⟨.nowhere, [⟨.nowhere, .variable "a" false,
      [[flatWord (.capture ⟨[⟨.nowhere, [⟨.nowhere, flatWord (.bareword "f"), [], []⟩]⟩]⟩)]]⟩]⟩, [], []⟩]⟩]⟩⟩

/-- Two pipelines: `g &h=[&i=[j k]] &l = > m 2>&1 | n'o'; {|a …| … }`. -/
def flatSample : Chunk :=
  ⟨[⟨.nowhere,
    [⟨.nowhere, flatWord (.bareword "g"),
      [.opt .nowhere "h" (some (flatWord (.map [(flatWord (.bareword "i"),
        flatWord (.list [flatWord (.bareword "j"), flatWord (.bareword "k")]))]))),
        .opt .nowhere "l" none, .eq .nowhere],
      [⟨.nowhere, 1, .write, some (flatWord (.bareword "m"))⟩, ⟨.nowhere, 2, .dup 1, none⟩]⟩,
    ⟨.nowhere, ⟨.nowhere, [⟨.nowhere, .bareword "n", []⟩, ⟨.nowhere, .quoted "o", []⟩]⟩, [], []⟩]⟩,
  ⟨.nowhere, [⟨.nowhere, flatWord (.lambda flatLambda), [], []⟩]⟩]⟩

/-- The sample is read back, and the tree of a text is well formed. -/
theorem Parser.inverts_flatten_sample :
    flatSample.WellFormed ∧
    (∃ c, Parser.script flatSample.flatten 0 = .ok c ∧ c.unplaced = flatSample.unplaced) ∧
    ∃ c, parse ['g', ' ', '[', '&', ']'] = .ok c ∧ c.WellFormed := by
  have hsample : flatSample.WellFormed := by
    simp [flatSample, flatLambda, flatWord, Chunk.WellFormed, Pipeline.AllWellFormed, Pipeline.WellFormed,
      Form.AllWellFormed, Form.WellFormed, Item.AllWellFormed, Item.WellFormed, Redir.AllWellFormed,
      Redir.WellFormed, Compound.WellFormed, Indexed.AllContinue, Indexed.WellFormed,
      Indexed.IndicesWellFormed, Compound.AllWellFormed, Primary.WellFormed, Compound.PairsWellFormed,
      Lambda.WellFormed, Compound.DefaultsWellFormed, Primary.continues, Name.startsAt]
  have hparses : (parse ['g', ' ', '[', '&', ']']).isOk = true := by decide +kernel
  obtain ⟨c, hc⟩ : ∃ c, parse ['g', ' ', '[', '&', ']'] = .ok c := by
    cases h : parse ['g', ' ', '[', '&', ']'] with
    | ok c => exact ⟨c, rfl⟩
    | error fault => rw [h] at hparses; cases hparses
  exact ⟨hsample, Parser.inverts_flatten.1 flatSample hsample 0, c, hc, Parser.inverts_flatten.2 _ c hc⟩

end ValueShell
