import ValueShell.Proofs.Derived
import ValueShell.Proofs.ReadBack.Lowering

/-!
# What `resolve` tells

The static check and `resolve` ask the same question of a command word (`Name.command`), and differ in how they
find out whether a variable can be seen: the check looks for the name itself in the scope, while a running script
follows it through the namespaces on its path.  `Name.refers` is the question with the answers given, and
`Lowering.command_eq_refers` and `Frame.gives_command` say that each of the two asks it.

For a plain variable the two ways to find out agree (`World.scopeAround_has_iff`), and what is asked about is
plain in all cases but one.  The root of a qualified name is (`Name.isQualified_root`), and so is the function of
a plain name unless that name ends in a colon: `m:` is plain and its function `m:~` is not.  So `resolve` is right
about every name that is not the name of a namespace (`Frame.resolve_agrees`), and it can be wrong about those that
are (`Frame.resolve_disagrees`).
-/

set_option autoImplicit false

namespace ValueShell

/-! ## What a word refers to -/

namespace Name

variable {name : String} {visible visible' : String → Bool}

/-- What a command word refers to when it is known what can be seen. -/
def refers (visible : String → Bool) (name : String) : Command :=
  match name.toList with
  | 'e' :: ':' :: program => .external (String.ofList program)
  | _ =>
    if isQualified name then
      if visible (root name) then .function (function name) else .unbound (function name)
    else
      if visible (function name) then .function (function name) else .external name

/-- A name that is plain though its function is not: it ends in its only colon. -/
def isSpace (name : String) : Bool :=
  !isQualified name && isQualified (function name)

/-- A word that is not a program behind `e:` is looked up. -/
theorem command_of_lookedUp {m : Type → Type} [Monad m] {find : String → m Bool}
    (h : ∀ program, name.toList ≠ 'e' :: ':' :: program) :
    command name find =
      if isQualified name then do
        return if ← find (root name) then .function (function name) else .unbound (function name)
      else do return if ← find (function name) then .function (function name) else .external name := by
  rw [command.eq_def]
  split
  next program hprogram => exact absurd hprogram (h program)
  next => rfl

theorem refers_of_lookedUp (h : ∀ program, name.toList ≠ 'e' :: ':' :: program) :
    refers visible name =
      if isQualified name then if visible (root name) then .function (function name) else .unbound (function name)
      else if visible (function name) then .function (function name) else .external name := by
  rw [refers.eq_def]
  split
  next program hprogram => exact absurd hprogram (h program)
  next => rfl

/-- Only the root of a qualified name and the function of a plain one matter. -/
theorem refers_congr (hroot : visible (root name) = visible' (root name))
    (hfunction : isQualified name = false → (∀ program, name.toList ≠ 'e' :: ':' :: program) →
      visible (function name) = visible' (function name)) :
    refers visible name = refers visible' name := by
  by_cases hprogram : ∃ program, name.toList = 'e' :: ':' :: program
  · obtain ⟨program, hprogram⟩ := hprogram
    rw [refers, refers, hprogram]
    rfl
  · have hlooked : ∀ program, name.toList ≠ 'e' :: ':' :: program := fun program h ↦ hprogram ⟨program, h⟩
    rw [refers_of_lookedUp hlooked, refers_of_lookedUp hlooked]
    by_cases hname : isQualified name = true
    · rw [if_pos hname, if_pos hname, hroot]
    · rw [if_neg hname, if_neg hname, hfunction (Bool.eq_false_iff.2 hname) hlooked]

end Name

/-- The static check asks for the name itself. -/
theorem Lowering.command_eq_refers (env : Enclosing) (name : String) (D : List String) :
    Name.command name (has env) D = .ok (Name.refers (fun var ↦
      D.contains var || env.lambdas.any (·.contains var) || env.scope.has var) name, D) := by
  have hhas (var : String) : has env var D =
      .ok (D.contains var || env.lambdas.any (·.contains var) || env.scope.has var, D) := rfl
  by_cases hprogram : ∃ program, name.toList = 'e' :: ':' :: program
  · obtain ⟨program, hprogram⟩ := hprogram
    rw [Name.command.eq_def, Name.refers, hprogram]
    rfl
  · have hlooked : ∀ program, name.toList ≠ 'e' :: ':' :: program := fun program h ↦ hprogram ⟨program, h⟩
    rw [Name.command_of_lookedUp hlooked, Name.refers_of_lookedUp hlooked]
    by_cases hname : Name.isQualified name = true
    · rw [if_pos hname, if_pos hname, bind_eq (hhas _)]
      rfl
    · rw [if_neg hname, if_neg hname, bind_eq (hhas _)]
      rfl

/-- A running script follows the name. -/
theorem Frame.gives_command (fm : Frame) (w : World) (name : String) :
    Comp.Gives (Name.command name fun var ↦ do return (← fm.find? var).isSome) w
      (Name.refers (fun var ↦ (w.find? fm.space fm.outer var).isSome) name) w := by
  have hfind (var : String) : Comp.Gives (do return (← fm.find? var).isSome) w
      (w.find? fm.space fm.outer var).isSome w :=
    .bind (.act rfl) (.pure _ w)
  by_cases hprogram : ∃ program, name.toList = 'e' :: ':' :: program
  · obtain ⟨program, hprogram⟩ := hprogram
    rw [Name.command.eq_def, Name.refers, hprogram]
    exact .pure _ w
  · have hlooked : ∀ program, name.toList ≠ 'e' :: ':' :: program := fun program h ↦ hprogram ⟨program, h⟩
    rw [Name.command_of_lookedUp hlooked, Name.refers_of_lookedUp hlooked]
    by_cases hname : Name.isQualified name = true
    · rw [if_pos hname, if_pos hname]
      exact (hfind _).bind (.pure _ w)
    · rw [if_neg hname, if_neg hname]
      exact (hfind _).bind (.pure _ w)

/-! ## The check of a command word -/

/-- What the check makes of a form that is just a command word, in the scope of a frame. -/
def Frame.lowers (fm : Frame) (w : World) (span : Span) (name : String) :
    Except (CompileFault × Nat) (Op × List String) :=
  Lowering.form ⟨fm.source, w.scopeAround fm.space fm.outer, []⟩
    ⟨span, ⟨span, [⟨span, .bareword name, []⟩]⟩, [], []⟩ []

/-- In the scope of the frame, a form of the command word is lowered to one with this head. -/
def Frame.Heads (fm : Frame) (w : World) (name : String) (head : Head) : Prop :=
  ∀ span, fm.lowers w span name = .ok (.form ⟨fm.source, span⟩ head [] [] [], [])

/-- In the scope of the frame, a form of the command word is rejected for want of the variable. -/
def Frame.Rejects (fm : Frame) (w : World) (name var : String) : Prop :=
  ∀ span, fm.lowers w span name = .error (.noVariable var, span.start)

namespace Frame

variable {fm : Frame} {w : World} {name var program : String} {head : Head}

/-- A special form is neither a command nor rejected for want of a variable. -/
theorem lowers_special (h : Name.isSpecial name = true) (span : Span) :
    (∀ site head args opts redirs D, fm.lowers w span name ≠ .ok (.form site head args opts redirs, D)) ∧
      ∀ var start, fm.lowers w span name ≠ .error (.noVariable var, start) := by
  generalize henv : (⟨fm.source, w.scopeAround fm.space fm.outer, []⟩ : Lowering.Enclosing) = env
  have hname : name ∈ Name.specialForms := by simpa [Name.isSpecial] using h
  simp only [Name.specialForms, List.mem_cons, List.not_mem_nil, or_false] at hname
  rw [lowers, henv, Lowering.form.eq_def]
  -- none of them is lowered to a form, with or without arguments
  obtain rfl | rfl | rfl | rfl | rfl | rfl | rfl | rfl | rfl | rfl | rfl := hname
  all_goals exact ⟨nofun, nofun⟩

/-- Any other word is lowered to what it refers to in the scope. -/
theorem lowers_command (h : Name.isSpecial name = false) (span : Span) :
    fm.lowers w span name =
      match Name.refers (w.scopeAround fm.space fm.outer).has name with
      | .function var => .ok (.form ⟨fm.source, span⟩ (.function var) [] [] [], [])
      | .external program => .ok (.form ⟨fm.source, span⟩ (.external program) [] [] [], [])
      | .unbound var => .error (.noVariable var, span.start) := by
  generalize henv : (⟨fm.source, w.scopeAround fm.space fm.outer, []⟩ : Lowering.Enclosing) = env
  have hcommand : Name.command name (Lowering.has env) [] =
      .ok (Name.refers (w.scopeAround fm.space fm.outer).has name, []) := by
    rw [← henv]
    exact Lowering.command_eq_refers _ name []
  have hword : (Compound.bareword? ⟨span, [⟨span, .bareword name, []⟩]⟩).filter Name.isSpecial = none := by
    rw [Compound.bareword?, Option.filter_some, h]
    rfl
  have hhead : Lowering.commandHead env ⟨span, [⟨span, .bareword name, []⟩]⟩ [] =
      match Name.refers (w.scopeAround fm.space fm.outer).has name with
      | .function var => .ok (.function var, [])
      | .external program => .ok (.external program, [])
      | .unbound var => .error (.noVariable var, span.start) := by
    rw [Lowering.commandHead]
    change (Name.command name (Lowering.has env) >>= _) [] = _
    rw [bind_eq hcommand]
    cases Name.refers (w.scopeAround fm.space fm.outer).has name <;> rfl
  rw [lowers, henv, Lowering.form.eq_def]
  dsimp only
  rw [hword]
  dsimp only
  cases hrefers : Name.refers (w.scopeAround fm.space fm.outer).has name with
  | function var =>
    rw [hrefers] at hhead
    rw [bind_eq hhead, Lowering.arguments, Lowering.redirects, ← henv]
    rfl
  | external program =>
    rw [hrefers] at hhead
    rw [bind_eq hhead, Lowering.arguments, Lowering.redirects, ← henv]
    rfl
  | unbound var =>
    rw [hrefers] at hhead
    change (Lowering.commandHead env _ [] >>= _) = _
    rw [hhead]
    rfl

/-! ## What `resolve` answers -/

/-- Called with the name in the frame, `resolve` puts out the text, or raises the reason. -/
def Tells (fm : Frame) (w : World) (name : String) : Except Reason String → Prop
  | .ok text => ∀ n, ((engine n).callValue fm (.builtin .resolve) [.str name] []).Offers
      w fm.wiring.output.values (.str text) w
  | .error reason => ∀ n, Comp.Fails ((engine n).callValue fm (.builtin .resolve) [.str name] [])
      w (fm.raise reason) w

/-- The answer about a variable in which a function is looked for. -/
def found (fm : Frame) (w : World) (var : String) : Except Reason String :=
  match w.find? fm.space fm.outer var with
  | none => .error (.noSuchVariable var)
  | some c =>
    if (w.store.read c).callable then .ok s!"${var}"
    else .error (.wrongKind "command" "callable" (w.store.read c))

/-- The answer about a name. -/
def resolved (fm : Frame) (w : World) (name : String) : Except Reason String :=
  if Name.isSpecial name then .ok "special"
  else
    match Name.refers (fun var ↦ (w.find? fm.space fm.outer var).isSome) name with
    | .external program => .ok s!"(external {program})"
    | .unbound var => .error (.noSuchVariable var)
    | .function var => fm.found w var

theorem fails_throw (reason : Reason) : Comp.Fails (fm.throw reason : Comp Unit) w (fm.raise reason) w :=
  .bind (.note _ w) (.fail _ w)

section Word

variable (hspecial : Name.isSpecial name = false)

include hspecial

/-- `resolve` follows the word first. -/
theorem call_resolve (n : Nat) :
    (engine n).callValue fm (.builtin .resolve) [.str name] [] = (do
      match ← Name.command name fun var ↦ do return (← fm.find? var).isSome with
      | .external program => fm.put (.str s!"(external {program})")
      | .unbound var => fm.throw (.noSuchVariable var)
      | .function var =>
        let v ← fm.value var
        if v.callable then fm.put (.str s!"${var}")
        else fm.throw (.wrongKind "command" "callable" v)) := by
  have hcall : (engine n).callValue fm (.builtin .resolve) [.str name] [] = Engine.resolveWord fm name := rfl
  rw [hcall, Engine.resolveWord, hspecial]
  rfl

/-- A word for a function leads to an answer about its variable. -/
theorem tells_found
    (hword : Comp.Gives (Name.command name fun var ↦ do return (← fm.find? var).isSome) w (.function var) w) :
    fm.Tells w name (fm.found w var) := by
  rw [found]
  cases hfind : w.find? fm.space fm.outer var with
  | none =>
    intro n
    have hvalue : (fm.value? var).Gives w none w := by
      have hact := Comp.Gives.act (w := w) (a := .find fm.space fm.outer var) rfl
      rw [Act.perform, hfind] at hact
      exact hact.bind (.pure _ w)
    rw [call_resolve hspecial]
    exact .bind hword (.bind_left (.bind hvalue (.bind (.note _ w) (.fail _ w))))
  | some c =>
    have hvalue : (fm.value var).Gives w (w.store.read c) w := gives_value ⟨c, hfind, rfl⟩
    dsimp only
    by_cases hcallable : (w.store.read c).callable = true
    · rw [if_pos hcallable]
      intro n
      rw [call_resolve hspecial]
      refine .bind hword (.bind hvalue ?_)
      rw [if_pos hcallable]
      exact offers_put
    · rw [if_neg hcallable]
      intro n
      rw [call_resolve hspecial]
      refine .bind hword (.bind hvalue ?_)
      rw [if_neg hcallable]
      exact fails_throw _

end Word

/-- `resolve` gives its answer, whatever the name and the frame. -/
theorem tells_resolved (fm : Frame) (w : World) (name : String) : fm.Tells w name (fm.resolved w name) := by
  by_cases hspecial : Name.isSpecial name = true
  · rw [resolved, if_pos hspecial]
    intro n
    have hcall : (engine n).callValue fm (.builtin .resolve) [.str name] [] = Engine.resolveWord fm name := rfl
    rw [hcall, Engine.resolveWord, if_pos hspecial]
    exact offers_put
  · rw [resolved, if_neg hspecial]
    have hcommand : Name.isSpecial name = false := Bool.eq_false_iff.2 hspecial
    have hword := fm.gives_command w name
    cases hrefers : Name.refers (fun var ↦ (w.find? fm.space fm.outer var).isSome) name with
    | external program =>
      intro n
      rw [hrefers] at hword
      rw [call_resolve hcommand]
      exact .bind hword offers_put
    | unbound var =>
      intro n
      rw [hrefers] at hword
      rw [call_resolve hcommand]
      exact .bind hword (fails_throw _)
    | function var =>
      rw [hrefers] at hword
      exact tells_found hcommand hword

theorem tells_of_resolved {answer : Except Reason String} (h : fm.resolved w name = answer) :
    fm.Tells w name answer := by
  rw [← h]
  exact fm.tells_resolved w name

/-! ## Agreement -/

/-- The answer says what the check of the command word says, and what a look at the variable adds. -/
structure Agrees (fm : Frame) (w : World) (name : String) (answer : Except Reason String) : Prop where
  special : answer = .ok "special" ↔ Name.isSpecial name = true
  external : ∀ program, answer = .ok s!"(external {program})" ↔ fm.Heads w name (.external program)
  function : ∀ var, answer = .ok s!"${var}" ↔ fm.Heads w name (.function var) ∧
    ∃ c, w.find? fm.space fm.outer var = some c ∧ (w.store.read c).callable = true
  missing : ∀ var, answer = .error (.noSuchVariable var) ↔ fm.Rejects w name var ∨
    fm.Heads w name (.function var) ∧ w.find? fm.space fm.outer var = none
  unfit : ∀ kind, answer = .error (.badValue "command" "callable" kind) ↔ ∃ var c, fm.Heads w name (.function var) ∧
    w.find? fm.space fm.outer var = some c ∧ (w.store.read c).callable = false ∧ (w.store.read c).kind = kind

/-! The three kinds of texts are different, and each of them shows the name in it. -/

theorem dollar_inj {var other : String} : s!"${var}" = s!"${other}" ↔ var = other := by
  constructor
  · intro h
    have htext : "$" ++ var = "$" ++ other := h
    exact String.ext (by simpa using congrArg String.toList htext)
  · rintro rfl
    rfl

theorem external_inj {program other : String} :
    s!"(external {program})" = s!"(external {other})" ↔ program = other := by
  constructor
  · intro h
    have htext : "(external " ++ program ++ ")" = "(external " ++ other ++ ")" := h
    exact String.ext (by simpa using congrArg String.toList htext)
  · rintro rfl
    rfl

theorem dollar_ne_external {var program : String} : s!"${var}" ≠ s!"(external {program})" := by
  intro h
  have htext : "$" ++ var = "(external " ++ program ++ ")" := h
  simpa using congrArg String.toList htext

theorem dollar_ne_special {var : String} : s!"${var}" ≠ "special" := by
  intro h
  have htext : "$" ++ var = "special" := h
  simpa using congrArg String.toList htext

theorem external_ne_special {program : String} : s!"(external {program})" ≠ "special" := by
  intro h
  have htext : "(external " ++ program ++ ")" = "special" := h
  simpa using congrArg String.toList htext

/-- Unless it is the name of a namespace, a word refers to the same for the check and for a running script. -/
theorem refers_scope (h : Name.isSpace name = true → name = "e:") :
    Name.refers (w.scopeAround fm.space fm.outer).has name =
      Name.refers (fun var ↦ (w.find? fm.space fm.outer var).isSome) name := by
  have hplain (var : String) (hvar : Name.isQualified var = false) :
      (w.scopeAround fm.space fm.outer).has var = (w.find? fm.space fm.outer var).isSome :=
    Bool.eq_iff_iff.2 (World.scopeAround_has_iff _ _ _ hvar)
  refine Name.refers_congr (hplain _ (Name.isQualified_root name)) fun hname hprogram ↦ hplain _ ?_
  by_contra hfunction
  have hspace : Name.isSpace name = true := by
    simpa [Name.isSpace, hname] using hfunction
  exact hprogram [] (by rw [h hspace]; rfl)

/-- The head that the form of a word has. -/
theorem heads_iff (h : Name.isSpecial name = false) :
    fm.Heads w name head ↔
      match Name.refers (w.scopeAround fm.space fm.outer).has name with
      | .function var => head = .function var
      | .external program => head = .external program
      | .unbound _ => False := by
  rw [Heads]
  simp only [lowers_command h]
  cases hrefers : Name.refers (w.scopeAround fm.space fm.outer).has name <;> simp [eq_comm]

theorem rejects_iff (h : Name.isSpecial name = false) :
    fm.Rejects w name var ↔ Name.refers (w.scopeAround fm.space fm.outer).has name = .unbound var := by
  rw [Rejects]
  simp only [lowers_command h]
  cases hrefers : Name.refers (w.scopeAround fm.space fm.outer).has name <;> simp

theorem agrees_special (h : Name.isSpecial name = true) : fm.Agrees w name (.ok "special") := by
  have hhead (head : Head) : ¬ fm.Heads w name head := fun hhead ↦ (lowers_special h ⟨0, 0⟩).1 _ _ _ _ _ _ (hhead _)
  have hreject (var : String) : ¬ fm.Rejects w name var := fun hreject ↦ (lowers_special h ⟨0, 0⟩).2 _ _ (hreject _)
  constructor
  · simp [h]
  · simp [hhead, external_ne_special.symm]
  · simp [hhead, dollar_ne_special.symm]
  · simp [hhead, hreject]
  · simp [hhead]

theorem agrees_external (hspecial : Name.isSpecial name = false)
    (hheads : ∀ head, fm.Heads w name head ↔ head = .external program) (hrejects : ∀ var, ¬ fm.Rejects w name var) :
    fm.Agrees w name (.ok s!"(external {program})") := by
  constructor
  · simp [hspecial, external_ne_special]
  · intro program'
    rw [Except.ok.injEq, external_inj, hheads, Head.external.injEq, eq_comm]
  · simp [hheads, dollar_ne_external.symm]
  · simp [hheads, hrejects]
  · simp [hheads]

theorem agrees_unbound (hspecial : Name.isSpecial name = false) (hheads : ∀ head, ¬ fm.Heads w name head)
    (hrejects : ∀ var', fm.Rejects w name var' ↔ var' = var) :
    fm.Agrees w name (.error (.noSuchVariable var)) := by
  constructor
  · simp [hspecial]
  · simp [hheads]
  · simp [hheads]
  · intro var'
    simp only [hheads, hrejects, false_and, or_false]
    exact ⟨fun h ↦ by cases h; rfl, fun h ↦ by rw [h]⟩
  · intro v
    simp only [hheads, false_and, exists_false]
    exact ⟨nofun, nofun⟩

section Function

variable (hspecial : Name.isSpecial name = false)
  (hheads : ∀ head, fm.Heads w name head ↔ head = .function var) (hrejects : ∀ var, ¬ fm.Rejects w name var)

include hspecial hheads hrejects

theorem agrees_missing (hfind : w.find? fm.space fm.outer var = none) :
    fm.Agrees w name (.error (.noSuchVariable var)) := by
  constructor
  · simp [hspecial]
  · simp [hheads]
  · simp [hheads, hfind]
  · intro var'
    simp only [hrejects, hheads, Head.function.injEq, false_or]
    constructor
    · rintro ⟨⟩
      exact ⟨rfl, hfind⟩
    · rintro ⟨rfl, -⟩
      rfl
  · refine fun v ↦ ⟨nofun, ?_⟩
    simp [hheads, hfind]

theorem agrees_callable {c : CellId} (hfind : w.find? fm.space fm.outer var = some c)
    (hcallable : (w.store.read c).callable = true) : fm.Agrees w name (.ok s!"${var}") := by
  constructor
  · simp [hspecial, dollar_ne_special]
  · simp [hheads, dollar_ne_external]
  · intro var'
    rw [Except.ok.injEq, dollar_inj, hheads, Head.function.injEq]
    constructor
    · rintro rfl
      exact ⟨rfl, c, hfind, hcallable⟩
    · exact fun h ↦ h.1.symm
  · simp [hrejects, hheads, hfind]
  · simp [hheads, hfind, hcallable]

theorem agrees_unfit {c : CellId} (hfind : w.find? fm.space fm.outer var = some c)
    (hcallable : (w.store.read c).callable = false) :
    fm.Agrees w name (.error (.wrongKind "command" "callable" (w.store.read c))) := by
  have hfunction (var' : String) : fm.Heads w name (.function var') ↔ var' = var := by
    rw [hheads, Head.function.injEq]
  constructor
  · simp [hspecial]
  · simp [hheads]
  · simp [hheads, hfind, hcallable]
  · refine fun var' ↦ ⟨nofun, ?_⟩
    rintro (hreject | ⟨hvar, hnone⟩)
    · exact absurd hreject (hrejects var')
    · rw [(hfunction var').1 hvar, hfind] at hnone
      cases hnone
  · intro kind
    constructor
    · intro h
      cases h
      exact ⟨var, c, (hfunction var).2 rfl, hfind, hcallable, rfl⟩
    · rintro ⟨var', c', hvar, hfind', -, rfl⟩
      rw [(hfunction var').1 hvar, hfind] at hfind'
      cases hfind'
      rfl

/-- The answer about a variable agrees with a check that makes of the word a call of its function. -/
theorem agrees_found : fm.Agrees w name (fm.found w var) := by
  rw [found]
  cases hfind : w.find? fm.space fm.outer var with
  | none => exact agrees_missing hspecial hheads hrejects hfind
  | some c =>
    dsimp only
    by_cases hcallable : (w.store.read c).callable = true
    · rw [if_pos hcallable]
      exact agrees_callable hspecial hheads hrejects hfind hcallable
    · rw [if_neg hcallable]
      exact agrees_unfit hspecial hheads hrejects hfind (Bool.eq_false_iff.2 hcallable)

end Function

/-- **`resolve` tells what the name refers to**, if the name is not that of a namespace. -/
theorem resolve_agrees (h : Name.isSpace name = true → name = "e:") :
    ∃ answer, fm.Tells w name answer ∧ fm.Agrees w name answer := by
  refine ⟨fm.resolved w name, fm.tells_resolved w name, ?_⟩
  by_cases hspecial : Name.isSpecial name = true
  · rw [resolved, if_pos hspecial]
    exact agrees_special hspecial
  · have hcommand : Name.isSpecial name = false := Bool.eq_false_iff.2 hspecial
    have hheads (head : Head) := @heads_iff fm w name head hcommand
    have hrejects (var : String) := @rejects_iff fm w name var hcommand
    rw [refers_scope h] at hheads hrejects
    rw [resolved, if_neg hspecial]
    cases hrefers : Name.refers (fun var ↦ (w.find? fm.space fm.outer var).isSome) name with
    | external program =>
      rw [hrefers] at hheads hrejects
      exact agrees_external hcommand hheads fun var ↦ by simp [hrejects]
    | unbound var =>
      rw [hrefers] at hheads hrejects
      exact agrees_unbound hcommand (fun head ↦ by simp [hheads]) fun var' ↦ by simp [hrejects, eq_comm]
    | function var =>
      rw [hrefers] at hheads hrejects
      exact agrees_found hcommand hheads fun var ↦ by simp [hrejects]

end Frame

/-- A fresh world but for the namespace `m:`, which holds a function that has no name. -/
def World.withNameless : World :=
  let made := (Act.newSpaceOf [("~", .builtin .put)]).perform (World.fresh .default)
  made.2.declareGlobal "m:" (.ns made.1)

/-- A frame at the top level, whose output is thrown away. -/
def Frame.unheard : Frame :=
  let nowhere : Outlet := ⟨.discard, .discard⟩
  .top .default (World.fresh .default).global ⟨⟨none, none⟩, nowhere, nowhere⟩ default

/-- Whether a function is in the namespace is seen by nobody before the script runs. -/
theorem Frame.resolve_agrees_inNamespace :
    (Name.isSpace "m:f" = true → "m:f" = "e:") ∧
      Frame.unheard.Tells World.withNameless "m:f" (.error (.noSuchVariable "m:f~")) ∧
      Frame.unheard.Heads World.withNameless "m:f" (.function "m:f~") := by
  have hspace : Name.isSpace "m:f" = true → "m:f" = "e:" := by decide +kernel
  obtain ⟨answer, htells, hagrees⟩ :=
    @Frame.resolve_agrees Frame.unheard World.withNameless "m:f" hspace
  have hrefers : Name.refers (World.withNameless.scopeAround Frame.unheard.space Frame.unheard.outer).has "m:f" =
      .function "m:f~" := by decide +kernel
  have hheads : Frame.unheard.Heads World.withNameless "m:f" (.function "m:f~") := by
    rw [Frame.heads_iff (by decide +kernel), hrefers]
  have hfind : World.withNameless.find? Frame.unheard.space Frame.unheard.outer "m:f~" = none := by decide +kernel
  rw [(hagrees.missing "m:f~").2 (.inr ⟨hheads, hfind⟩)] at htells
  exact ⟨hspace, htells, hheads⟩

/-- **The name of a namespace can be told wrong.**  The check takes `m:` for a program outside the shell, since
there is no variable `m:~`; `resolve` follows `m:~` into the namespace and tells that a function is run. -/
theorem Frame.resolve_disagrees :
    Frame.unheard.Heads World.withNameless "m:" (.external "m:") ∧
      Frame.unheard.Tells World.withNameless "m:" (.ok "$m:~") ∧
      ¬ ∃ answer, Frame.unheard.Tells World.withNameless "m:" answer ∧
        Frame.unheard.Agrees World.withNameless "m:" answer := by
  have hrefers : Name.refers (World.withNameless.scopeAround Frame.unheard.space Frame.unheard.outer).has "m:" =
      .external "m:" := by decide +kernel
  have hheads : Frame.unheard.Heads World.withNameless "m:" (.external "m:") := by
    rw [Frame.heads_iff (by decide +kernel), hrefers]
  have htells : Frame.unheard.Tells World.withNameless "m:" (.ok "$m:~") := by
    have hfollows : Name.refers (fun var ↦
        (World.withNameless.find? Frame.unheard.space Frame.unheard.outer var).isSome) "m:" = .function "m:~" := by
      decide +kernel
    have hput : (World.withNameless.find? Frame.unheard.space Frame.unheard.outer "m:~").map
        (fun c ↦ (World.withNameless.store.read c).callable) = some true := by decide +kernel
    obtain ⟨c, hfind, hcallable⟩ := Option.map_eq_some_iff.1 hput
    have hresolved : Frame.unheard.resolved World.withNameless "m:" = .ok "$m:~" := by
      rw [Frame.resolved, if_neg (by decide +kernel), hfollows]
      dsimp only
      rw [Frame.found, hfind]
      dsimp only
      rw [if_pos hcallable]
      rfl
    exact Frame.tells_of_resolved hresolved
  refine ⟨hheads, htells, ?_⟩
  rintro ⟨answer, htells', hagrees⟩
  rw [(hagrees.external "m:").2 hheads] at htells'
  have hsame := (htells 0).unique (htells' 0) rfl rfl rfl rfl
  exact absurd (Value.str.inj hsame) (by decide)

end ValueShell
