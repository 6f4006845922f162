import ValueShell.Eval

/-!
# Outlines

What a piece of code does to names, with everything else left out: in which order it refers to names, declares
them and removes them, which parts of it may be skipped, and which parts are closures with names of their own.
`Op.outline` gives the outline of an operation, in the order in which the parts *run*, which is not always the
order in which they are written.

Three lists are read off an outline.  `certain` are the names that are declared whenever the code gets to its
end.  `declared` are all names it declares in its own scope, and `doubtful` those of which that is not quite
true, at whatever depth: declared where it may be skipped, or removed again.  A declared name that is not
doubtful is certain (`Outline.certain_of_declared`).

`Outline.Clear` is the property that matters: every guarded name is among those that are there when the code
refers to it.
-/

set_option autoImplicit false

namespace ValueShell

/-- What a piece of code does to names, in the order in which it does it. -/
inductive Outline where
  | nothing
  | refers (name : String)
  | declares (name : String)
  | forgets (name : String)
  /-- What a form does that stands at a site -/
  | form (site : CallSite) (o : Outline)
  | seq (first second : Outline)
  /-- What may be skipped, or be run after what is written behind it -/
  | loose (o : Outline)
  /-- The code of a closure, which starts with names of its own -/
  | own (names : List String) (o : Outline)

namespace Outline

/-- The names that are declared for certain once the code has been run. -/
def certain : Outline → List String
  | declares name => [name]
  | form _ o => o.certain
  | seq a b => a.certain ++ b.certain
  | _ => []

/-- The names that the code declares in its own scope. -/
def declared : Outline → List String
  | declares name => [name]
  | form _ o | loose o => o.declared
  | seq a b => a.declared ++ b.declared
  | _ => []

/-- The names that the code, or that of a closure in it, declares where it may be skipped, or removes. -/
def doubtful : Outline → List String
  | forgets name => [name]
  | form _ o | own _ o => o.doubtful
  | seq a b => a.doubtful ++ b.doubtful
  | loose o => o.declared ++ o.doubtful
  | _ => []

/-- The sites of the forms. -/
def sites : Outline → List CallSite
  | form site o => site :: o.sites
  | seq a b => a.sites ++ b.sites
  | loose o | own _ o => o.sites
  | _ => []

/-- Where the names `visible` are there, every guarded name is there when the code refers to it, and none is
removed. -/
def Clear (guarded : String → Prop) : List String → Outline → Prop
  | visible, refers name => guarded name → name ∈ visible
  | _, forgets name => ¬ guarded name
  | visible, form _ o | visible, loose o => Clear guarded visible o
  | visible, seq a b => Clear guarded visible a ∧ Clear guarded (visible ++ a.certain) b
  | visible, own names o => Clear guarded (visible ++ names) o
  | _, _ => True

/-- One after another. -/
def all : List Outline → Outline
  | [] => nothing
  | o :: os => seq o (all os)

variable {guarded : String → Prop} {visible visible' : List String} {o : Outline} {name : String}

/-- More names do no harm. -/
theorem Clear.mono (h : o.Clear guarded visible)
    (hv : ∀ x, guarded x → x ∈ visible → x ∈ visible') : o.Clear guarded visible' := by
  induction o generalizing visible visible' with
  | refers name => exact fun hg ↦ hv name hg (h hg)
  | form _ o ih => exact ih h hv
  | loose o ih => exact ih h hv
  | seq a b iha ihb =>
    refine ⟨iha h.1 hv, ihb h.2 fun x hg hx ↦ ?_⟩
    rw [List.mem_append] at hx ⊢
    exact hx.imp_left (hv x hg)
  | own names o ih =>
    refine ih h fun x hg hx ↦ ?_
    rw [List.mem_append] at hx ⊢
    exact hx.imp_left (hv x hg)
  | nothing => trivial
  | declares => trivial
  | forgets => exact h

/-- A name that is declared and not doubtful is certain. -/
theorem certain_of_declared (hd : name ∈ o.declared) (hn : name ∉ o.doubtful) : name ∈ o.certain := by
  induction o with
  | declares => exact hd
  | form _ o ih => exact ih hd hn
  | seq a b iha ihb =>
    rw [doubtful, List.mem_append, not_or] at hn
    rw [declared, List.mem_append] at hd
    rw [certain, List.mem_append]
    exact hd.imp (iha · hn.1) (ihb · hn.2)
  | loose o => exact absurd (List.mem_append_left _ hd) hn
  | _ => cases hd

theorem declared_of_certain (h : name ∈ o.certain) : name ∈ o.declared := by
  induction o with
  | declares => exact h
  | form _ o ih => exact ih h
  | seq a b iha ihb =>
    rw [certain, List.mem_append] at h
    rw [declared, List.mem_append]
    exact h.imp iha ihb
  | _ => cases h

end Outline

/-! ## The outline of code -/

/-- What removing what is at a place does to names. -/
def Place.removal : Place → Outline
  | .mk name [] => .forgets name
  | _ => .nothing

mutual

/-- What a word does to names. -/
def Expr.outline : Expr → Outline
  | .literal _ => .nothing
  | .variable name _ => .refers name
  | .capture op => op.outline
  | .list items => Expr.outlines items
  | .map pairs => Expr.outlinesOfPairs pairs
  | .lambda l => l.outline
  | .indexed head indices => .seq head.outline (Expr.outlinesOfIndices indices)
  | .compound parts => Expr.outlines parts

/-- What several words do to names. -/
def Expr.outlines : List Expr → Outline
  | [] => .nothing
  | e :: es => .seq e.outline (Expr.outlines es)

/-- What the pairs of a map do to names. -/
def Expr.outlinesOfPairs : List (Expr × Expr) → Outline
  | [] => .nothing
  | (k, v) :: pairs => .seq (.seq k.outline v.outline) (Expr.outlinesOfPairs pairs)

/-- What indices do to names. -/
def Expr.outlinesOfIndices : List (List Expr) → Outline
  | [] => .nothing
  | index :: indices => .seq (Expr.outlines index) (Expr.outlinesOfIndices indices)

/-- What options do to names.  They are evaluated after all arguments, wherever they stand. -/
def Expr.outlinesOfOptions : List (String × Option Expr) → Outline
  | [] => .nothing
  | (_, none) :: opts => Expr.outlinesOfOptions opts
  | (_, some e) :: opts => .seq e.outline (Expr.outlinesOfOptions opts)

/-- What defaults do to names. -/
def Expr.outlinesOfDefaults : List (String × Expr) → Outline
  | [] => .nothing
  | (_, e) :: options => .seq e.outline (Expr.outlinesOfDefaults options)

/-- What a word does to names that may not be there or may be skipped. -/
def Expr.outlineOfOptional : Option Expr → Outline
  | none => .nothing
  | some e => .loose e.outline

/-- What branches do to names.  Of the first the condition is evaluated in any case. -/
def Expr.outlinesOfBranches : List (Expr × Expr) → Outline
  | [] => .nothing
  | (cond, body) :: branches =>
    .seq cond.outline (.seq (.loose body.outline) (.loose (Expr.outlinesOfBranches branches)))

/-- What the words of `and` and `or` do to names.  The first is evaluated in any case. -/
def Expr.outlinesOfLogic : List Expr → Outline
  | [] => .nothing
  | e :: es => .seq e.outline (.loose (Expr.outlinesOfLogic es))

/-- What a lambda does to names when it becomes a closure, and its code when that is run. -/
def LambdaDef.outline : LambdaDef → Outline
  | .mk _ params _ options restOptions body =>
    .seq (Expr.outlinesOfDefaults options)
      (.own (params ++ options.map (·.1) ++ restOptions.toList) body.outline)

/-- What redirections do to names. -/
def Redirect.outlines : List Redirect → Outline
  | [] => .nothing
  | .dup _ _ :: redirs => Redirect.outlines redirs
  | .file _ path _ :: redirs => .seq path.outline (Redirect.outlines redirs)

/-- What a command word does to names. -/
def Head.outline : Head → Outline
  | .function var => .refers var
  | .external _ => .nothing
  | .word e => e.outline

/-- What finding a place does to names. -/
def Place.outline : Place → Outline
  | .mk name indices => .seq (.refers name) (Expr.outlines indices)

/-- What finding places does to names. -/
def Place.outlines : List Place → Outline
  | [] => .nothing
  | p :: places => .seq p.outline (Place.outlines places)

/-- What a handler does to names. -/
def Expr.outlineOfHandler : Option (Option String × Expr) → Outline
  | none => .nothing
  | some (none, body) => .loose body.outline
  | some (some name, body) => .loose (.seq (.declares name) body.outline)

/-- What an operation does to names. -/
def Op.outline : Op → Outline
  | .chunk ops => Op.outlines ops
  | .pipeline site stages => .form site (Op.outlinesOfStages stages)
  | .form site head args opts redirs =>
    .form site (.seq head.outline (.seq (Expr.outlines args)
      (.seq (.loose (Expr.outlinesOfOptions opts)) (Redirect.outlines redirs))))
  | .var site targets _ values =>
    .form site (.seq (Op.outlineOfValues values)
      (.all (targets.map fun
        | some name => .declares name
        | none => .nothing)))
  | .set site targets _ values => .form site (.seq (Expr.outlines values) (Place.outlines targets))
  | .del site target => .form site (.seq target.outline target.removal)
  | .fn site var lambda => .form site (.seq (.declares var) lambda.outline)
  | .fnBody body => .loose body.outline
  | .use site _ var => .form site (.declares var)
  | .ifForm site branches otherwise =>
    .form site (.seq (Expr.outlinesOfBranches branches) (Expr.outlineOfOptional otherwise))
  | .whileForm site cond body otherwise =>
    .form site (.seq body.outline (.seq (.loose cond.outline) (Expr.outlineOfOptional otherwise)))
  | .forForm site var iterable body otherwise =>
    .form site (.seq iterable.outline (.seq (.declares var)
      (.seq body.outline (Expr.outlineOfOptional otherwise))))
  | .tryForm site body handler otherwise last =>
    .form site (.seq (.loose body.outline) (.seq (Expr.outlineOfHandler handler)
      (.seq (Expr.outlineOfOptional otherwise) (Op.outlineOfLast last))))
  | .logic site _ args => .form site (Expr.outlinesOfLogic args)

/-- What operations one after another do to names. -/
def Op.outlines : List Op → Outline
  | [] => .nothing
  | op :: ops => .seq op.outline (Op.outlines ops)

/-- What the stages of a pipeline do to names.  Each runs by itself. -/
def Op.outlinesOfStages : List Op → Outline
  | [] => .nothing
  | op :: ops => .seq (.loose op.outline) (Op.outlinesOfStages ops)

/-- What the values of a declaration do to names. -/
def Op.outlineOfValues : Option (List Expr) → Outline
  | none => .nothing
  | some es => Expr.outlines es

/-- What the last part of a `try` does to names; it is run in any case. -/
def Op.outlineOfLast : Option Expr → Outline
  | none => .nothing
  | some e => e.outline

end

end ValueShell
