import ValueShell.Proofs.StoreEffects

/-!
# The same code where more names are visible

A script may be compiled for a scope or for one that holds more names, and then little may change: a command
word that stood for an external program may now stand for a function.  `Op.WidensTo s` relates the operations of
the two, part by part down to the bodies of lambdas, and says besides that all of it is code of the source `s`:
every call site lies in `s`, and every lambda says that `s` is its source.

The two runs of the compiler are compared by `Lowering.Simulates`: whatever the first gives the second gives
too, up to a relation, with the same names declared on the way.  Nothing is said of a first run that fails, so
where a check only lets more through there is nothing to show (`Simulates.guard`).
-/

set_option autoImplicit false

namespace ValueShell

/-- All names of `A` are in the same part of `B`. -/
structure Scope.Within (A B : Scope) : Prop where
  inner : ∀ name ∈ A.inner, name ∈ B.inner
  outer : ∀ names ∈ A.outer, ∀ name ∈ names, ∃ names' ∈ B.outer, name ∈ names'
  builtin : ∀ name ∈ A.builtin, name ∈ B.builtin

namespace Scope

variable {A B : Scope}

theorem Within.refl (A : Scope) : A.Within A :=
  ⟨fun _ h ↦ h, fun names h _ hname ↦ ⟨names, h, hname⟩, fun _ h ↦ h⟩

theorem has_iff {name : String} : A.has name = true ↔
    name ∈ A.inner ∨ (∃ names ∈ A.outer, name ∈ names) ∨ name ∈ A.builtin := by
  simp [Scope.has, or_assoc]

theorem Within.has (h : A.Within B) {name : String} (hname : A.has name = true) : B.has name = true := by
  rw [has_iff] at hname ⊢
  rcases hname with hname | ⟨names, hnames, hname⟩ | hname
  · exact .inl (h.inner name hname)
  · exact .inr (.inl (h.outer names hnames name hname))
  · exact .inr (.inr (h.builtin name hname))

end Scope

/-! ## Operations -/

section Operations

variable (s : Source)

mutual

/-- The second operation is the first where more names are visible, and both are code of `s`. -/
def Op.WidensTo : Op → Op → Prop
  | .chunk ops, .chunk ops' => Op.AllWiden ops ops'
  | .pipeline site stages, .pipeline site' stages' =>
    (site.source = s ∧ site' = site) ∧ Op.AllWiden stages stages'
  | .form site head args opts redirs, .form site' head' args' opts' redirs' =>
    (site.source = s ∧ site' = site) ∧ head.WidensTo head' ∧ Expr.AllWiden args args' ∧
      Expr.OptionsWiden opts opts' ∧ Redirect.AllWiden redirs redirs'
  | .var site names rest values, .var site' names' rest' values' =>
    (site.source = s ∧ site' = site) ∧ names' = names ∧ rest' = rest ∧ Expr.ValuesWiden values values'
  | .set site targets rest values, .set site' targets' rest' values' =>
    (site.source = s ∧ site' = site) ∧ Place.AllWiden targets targets' ∧ rest' = rest ∧
      Expr.AllWiden values values'
  | .del site target, .del site' target' => (site.source = s ∧ site' = site) ∧ target.WidensTo target'
  | .fn site var l, .fn site' var' l' => (site.source = s ∧ site' = site) ∧ var' = var ∧ l.WidensTo l'
  | .fnBody body, .fnBody body' => body.WidensTo body'
  | .use site spec var, .use site' spec' var' => (site.source = s ∧ site' = site) ∧ spec' = spec ∧ var' = var
  | .ifForm site branches otherwise, .ifForm site' branches' otherwise' =>
    (site.source = s ∧ site' = site) ∧ Expr.PairsWiden branches branches' ∧
      Expr.BodyWidens otherwise otherwise'
  | .whileForm site cond body otherwise, .whileForm site' cond' body' otherwise' =>
    (site.source = s ∧ site' = site) ∧ cond.WidensTo cond' ∧ body.WidensTo body' ∧
      Expr.BodyWidens otherwise otherwise'
  | .forForm site var iterable body otherwise, .forForm site' var' iterable' body' otherwise' =>
    (site.source = s ∧ site' = site) ∧ var' = var ∧ iterable.WidensTo iterable' ∧ body.WidensTo body' ∧
      Expr.BodyWidens otherwise otherwise'
  | .tryForm site body handler otherwise last, .tryForm site' body' handler' otherwise' last' =>
    (site.source = s ∧ site' = site) ∧ body.WidensTo body' ∧ Expr.HandlerWidens handler handler' ∧
      Expr.BodyWidens otherwise otherwise' ∧ Expr.BodyWidens last last'
  | .logic site stopOn args, .logic site' stopOn' args' =>
    (site.source = s ∧ site' = site) ∧ stopOn' = stopOn ∧ Expr.AllWiden args args'
  | _, _ => False

/-- The operations are the others, one by one. -/
def Op.AllWiden : List Op → List Op → Prop
  | [], [] => True
  | op :: ops, op' :: ops' => op.WidensTo op' ∧ Op.AllWiden ops ops'
  | _, _ => False

/-- A command word stands for the same, or for a function where it stood for the program of that name. -/
def Head.WidensTo : Head → Head → Prop
  | .function var, .function var' => var' = var
  | .external program, .external program' => program' = program
  | .external program, .function var => var = Name.function program
  | .word e, .word e' => e.WidensTo e'
  | _, _ => False

/-- The redirections are the others, one by one. -/
def Redirect.AllWiden : List Redirect → List Redirect → Prop
  | [], [] => True
  | .file fd path append :: rs, .file fd' path' append' :: rs' =>
    fd' = fd ∧ path.WidensTo path' ∧ append' = append ∧ Redirect.AllWiden rs rs'
  | .dup fd source :: rs, .dup fd' source' :: rs' => fd' = fd ∧ source' = source ∧ Redirect.AllWiden rs rs'
  | _, _ => False

/-- The place is the other. -/
def Place.WidensTo : Place → Place → Prop
  | .mk name indices, .mk name' indices' => name' = name ∧ Expr.AllWiden indices indices'

/-- The places are the others, one by one. -/
def Place.AllWiden : List Place → List Place → Prop
  | [], [] => True
  | p :: ps, p' :: ps' => p.WidensTo p' ∧ Place.AllWiden ps ps'
  | _, _ => False

/-- The second word is the first where more names are visible, and both are code of `s`. -/
def Expr.WidensTo : Expr → Expr → Prop
  | .literal text, .literal text' => text' = text
  | .variable name explode, .variable name' explode' => name' = name ∧ explode' = explode
  | .capture op, .capture op' => op.WidensTo op'
  | .list items, .list items' => Expr.AllWiden items items'
  | .map pairs, .map pairs' => Expr.PairsWiden pairs pairs'
  | .lambda l, .lambda l' => l.WidensTo l'
  | .indexed head indices, .indexed head' indices' => head.WidensTo head' ∧ Expr.ListsWiden indices indices'
  | .compound parts, .compound parts' => Expr.AllWiden parts parts'
  | _, _ => False

/-- The words are the others, one by one. -/
def Expr.AllWiden : List Expr → List Expr → Prop
  | [], [] => True
  | e :: es, e' :: es' => e.WidensTo e' ∧ Expr.AllWiden es es'
  | _, _ => False

/-- The values of a declaration are the others, if it has any. -/
def Expr.ValuesWiden : Option (List Expr) → Option (List Expr) → Prop
  | none, none => True
  | some es, some es' => Expr.AllWiden es es'
  | _, _ => False

/-- The lists of words are the others, one by one. -/
def Expr.ListsWiden : List (List Expr) → List (List Expr) → Prop
  | [], [] => True
  | es :: rest, es' :: rest' => Expr.AllWiden es es' ∧ Expr.ListsWiden rest rest'
  | _, _ => False

/-- The pairs of words are the others, one by one. -/
def Expr.PairsWiden : List (Expr × Expr) → List (Expr × Expr) → Prop
  | [], [] => True
  | (a, b) :: pairs, (a', b') :: pairs' => (a.WidensTo a' ∧ b.WidensTo b') ∧ Expr.PairsWiden pairs pairs'
  | _, _ => False

/-- The options are the others, one by one. -/
def Expr.OptionsWiden : List (String × Option Expr) → List (String × Option Expr) → Prop
  | [], [] => True
  | (name, none) :: opts, (name', none) :: opts' => name' = name ∧ Expr.OptionsWiden opts opts'
  | (name, some e) :: opts, (name', some e') :: opts' =>
    (name' = name ∧ e.WidensTo e') ∧ Expr.OptionsWiden opts opts'
  | _, _ => False

/-- The defaults of options are the others, one by one. -/
def Expr.DefaultsWiden : List (String × Expr) → List (String × Expr) → Prop
  | [], [] => True
  | (name, e) :: options, (name', e') :: options' =>
    (name' = name ∧ e.WidensTo e') ∧ Expr.DefaultsWiden options options'
  | _, _ => False

/-- The body is the other, if there is one. -/
def Expr.BodyWidens : Option Expr → Option Expr → Prop
  | none, none => True
  | some e, some e' => e.WidensTo e'
  | _, _ => False

/-- The body of a `catch` is the other, if there is one. -/
def Expr.HandlerWidens : Option (Option String × Expr) → Option (Option String × Expr) → Prop
  | none, none => True
  | some (var, e), some (var', e') => var' = var ∧ e.WidensTo e'
  | _, _ => False

/-- The lambda is the other, and its source is `s`. -/
def LambdaDef.WidensTo : LambdaDef → LambdaDef → Prop
  | .mk source params rest options restOptions body, .mk source' params' rest' options' restOptions' body' =>
    (source = s ∧ source' = source) ∧ params' = params ∧ rest' = rest ∧ Expr.DefaultsWiden options options' ∧
      restOptions' = restOptions ∧ body.WidensTo body'

end

attribute [simp] Op.WidensTo Op.AllWiden Head.WidensTo Redirect.AllWiden Place.WidensTo Place.AllWiden
  Expr.WidensTo Expr.AllWiden Expr.ValuesWiden Expr.ListsWiden Expr.PairsWiden Expr.OptionsWiden
  Expr.DefaultsWiden Expr.BodyWidens Expr.HandlerWidens LambdaDef.WidensTo

end Operations

/-! ## Two runs of the compiler -/

namespace Lowering

variable {α β α' β' : Type}

/-- Where the first step succeeds, so does the second: with the same names declared, and with a result that `R`
relates to the first one. -/
def Simulates (m : Lower α) (m' : Lower α') (R : α → α' → Prop) : Prop :=
  ∀ D x D₁, m D = .ok (x, D₁) → ∃ x', m' D = .ok (x', D₁) ∧ R x x'

namespace Simulates

variable {m : Lower α} {m' : Lower α'} {f : α → Lower β} {f' : α' → Lower β'} {R : α → α' → Prop}
  {S : β → β' → Prop}

theorem pure {x : α} {x' : α'} (h : R x x') : Simulates (Pure.pure x) (Pure.pure x') R := by
  rintro D _ _ ⟨⟩
  exact ⟨x', rfl, h⟩

theorem fail {span : Span} {fault : CompileFault} : Simulates (Lowering.fail span fault) m' R := by
  rintro D _ _ ⟨⟩

/-- What comes behind a failure is never run. -/
theorem failing {f : Unit → Lower α} {span : Span} {fault : CompileFault} :
    Simulates (Lowering.fail span fault >>= f) m' R := by
  rintro D _ _ ⟨⟩

theorem bind (h : Simulates m m' R) (hf : ∀ x x', R x x' → Simulates (f x) (f' x') S) :
    Simulates (m >>= f) (m' >>= f') S := by
  intro D y D₂ hy
  obtain ⟨⟨x, D₁⟩, hx, hy⟩ := bind_eq_ok hy
  obtain ⟨x', hx', hR⟩ := h D x D₁ hx
  obtain ⟨y', hy', hS⟩ := hf x x' hR D₁ y D₂ hy
  refine ⟨y', ?_, hS⟩
  change (m' D).bind (fun r ↦ f' r.1 r.2) = _
  rw [hx']
  exact hy'

/-- A step that asks nothing of the scope gives the same in both runs. -/
theorem same {m : Lower α} : Simulates m m Eq :=
  fun _ x _ h ↦ ⟨x, h, rfl⟩

/-- What comes first asks nothing of the scope. -/
theorem after {m : Lower α} {f : α → Lower β} {f' : α → Lower β'} (hf : ∀ x, Simulates (f x) (f' x) S) :
    Simulates (m >>= f) (m >>= f') S :=
  same.bind fun x _ hx ↦ hx ▸ hf x

/-- A check may let more through in the second run, if what it does not let through fails. -/
theorem guard {n : Lower α} {n' : Lower α'} {c c' : Bool} (hc : c = true → c' = true) (h : Simulates m m' R)
    (hfail : ∀ k : Lower α', Simulates n k R) :
    Simulates (if c = true then m else n) (if c' = true then m' else n') R := by
  by_cases htrue : c = true
  · rwa [if_pos htrue, if_pos (hc htrue)]
  · rw [if_neg htrue]
    exact hfail _

end Simulates

end Lowering

end ValueShell
