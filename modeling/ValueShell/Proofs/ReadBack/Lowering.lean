import ValueShell.Proofs.ReadBack.Evaluation
import ValueShell.Proofs.ReadBack.Syntax

/-!
# Written values as code

A word that spells a value is lowered, and what it becomes yields the value (`Value.lowers`).  The check asks
for nothing but the vocabulary of written values, and declares nothing.

Maps are where it matters that keys are different: each pair of a written map is put into the map that is there
already, and only a new key goes to the end.
-/

set_option autoImplicit false

namespace ValueShell

/-! ## Maps of different keys -/

namespace Entries

variable {entries : Entries}

/-- A new key comes last. -/
theorem insert_new {key v : Value} (h : ∀ old ∈ entries, key.keyEq old.1 = false) :
    entries.insert key v = entries ++ [(key, v)] := by
  induction entries with
  | nil => rfl
  | cons old entries ih =>
    have hold : key.keyEq old.1 = false := h old List.mem_cons_self
    rw [insert, if_neg (by rw [hold]; decide), ih fun other hother ↦ h other (List.mem_cons_of_mem _ hother)]
    rfl

/-- Pairs with different keys are the entries of the map they make. -/
theorem ofPairs_eq (h : entries.Pairwise fun old new ↦ new.1.keyEq old.1 = false) :
    ofPairs entries = entries := by
  have hfold : ∀ (before : Entries), (∀ new ∈ entries, ∀ old ∈ before, new.1.keyEq old.1 = false) →
      entries.foldl (fun entries e ↦ entries.insert e.1 e.2) before = before ++ entries := by
    induction entries with
    | nil => exact fun before _ ↦ (List.append_nil before).symm
    | cons entry entries ih =>
      intro before hbefore
      obtain ⟨hentry, hentries⟩ := List.pairwise_cons.1 h
      rw [List.foldl_cons, insert_new (hbefore entry List.mem_cons_self), ih hentries, List.append_assoc]
      · rfl
      · intro new hnew old hold
        rw [List.mem_append, List.mem_singleton] at hold
        rcases hold with hold | rfl
        · exact hbefore new (List.mem_cons_of_mem _ hnew) old hold
        · exact hentry new hnew
  exact hfold [] (fun _ _ _ ↦ nofun)

end Entries

/-! ## Lowering -/

namespace Lowering

variable {env : Enclosing} {D : List String} {e : Expr}

/-- What is lowered sees the vocabulary of written values. -/
def Enclosing.Understands (env : Enclosing) : Prop :=
  ∀ entry ∈ vocabulary, env.scope.has entry.1 = true

theorem has_eq {name : String} (h : env.scope.has name = true) : has env name D = .ok (true, D) := by
  change Except.ok (D.contains name || env.lambdas.any (·.contains name) || env.scope.has name, D) = _
  rw [h, Bool.or_true]

theorem primary_variable {span : Span} {name : String} (hname : Name.root name = name)
    (h : env.scope.has name = true) :
    primary env span (.variable name false) D = .ok (.variable name false, D) := by
  have hcheck : checkVar env span name D = .ok ((), D) := by
    rw [checkVar, bind_eq (has_eq (by rw [hname]; exact h))]
    rfl
  rw [primary, bind_eq hcheck]
  rfl

/-- A word of one part is that part. -/
theorem compound_isJust {word : Compound} {p : Primary} (hword : word.IsJust p)
    (h : ∀ span, primary env span p D = .ok (e, D)) : compound env word D = .ok (e, D) := by
  obtain ⟨span, span', rfl⟩ := hword
  have hparts : indexedList env [⟨span', p, []⟩] D = .ok ([e], D) := by
    rw [indexedList, indexed, bind_eq (h span'), indexedList]
    rfl
  rw [compound, bind_eq hparts]
  rfl

/-- A command of a name that is looked up. -/
theorem chunk_commands {inside : Chunk} {name : String} {arg : Compound} (hinside : inside.Commands name arg)
    (hspecial : Name.isSpecial name = false)
    (hcommand : Name.command name (has env) D = .ok (.function (Name.function name), D))
    (harg : compound env arg D = .ok (e, D)) :
    ∃ site, chunk env inside D = .ok (.command site (Name.function name) e, D) := by
  obtain ⟨span, span', head, rfl, span₁, span₂, rfl⟩ := hinside
  have hhead : commandHead env ⟨span₁, [⟨span₂, .bareword name, []⟩]⟩ D =
      .ok (.function (Name.function name), D) := by
    rw [commandHead]
    change (Name.command name (has env) >>= _) D = _
    rw [bind_eq hcommand]
    rfl
  have hargs : arguments env [.arg arg] D = .ok (([e], []), D) := by
    rw [arguments, bind_eq harg, arguments]
    rfl
  have hfilter : (Compound.bareword? ⟨span₁, [⟨span₂, .bareword name, []⟩]⟩).filter Name.isSpecial = none := by
    rw [Compound.bareword?, Option.filter_some, hspecial]
    rfl
  have hform : form env ⟨span', ⟨span₁, [⟨span₂, .bareword name, []⟩]⟩, [.arg arg], []⟩ D =
      .ok (.form (site env span') (.function (Name.function name)) [e] [] [], D) := by
    rw [form.eq_def]
    dsimp only
    rw [hfilter]
    dsimp only
    rw [bind_eq hhead, bind_eq hargs, redirects]
    rfl
  refine ⟨site env span', ?_⟩
  have hpipelines :
      pipelineList env [⟨span, [⟨span', ⟨span₁, [⟨span₂, .bareword name, []⟩]⟩, [.arg arg], []⟩]⟩] D =
        .ok ([.form (site env span') (.function (Name.function name)) [e] [] []], D) := by
    rw [pipelineList, pipeline, bind_eq hform, pipelineList]
    rfl
  rw [chunk, bind_eq hpipelines]
  rfl

/-- Names that are neither qualified nor of special forms and are visible are looked up. -/
theorem command_eq {name : String} (hname : Name.isQualified name = false)
    (hexternal : ∀ cs, name.toList ≠ 'e' :: ':' :: cs) (h : env.scope.has (Name.function name) = true) :
    Name.command name (has env) D = .ok (.function (Name.function name), D) := by
  have hlooked : Name.command name (has env) = (do
      return if ← has env (Name.function name) then .function (Name.function name) else .external name) := by
    rw [Name.command.eq_def, if_neg (by rw [hname]; decide)]
    split
    next cs hcs => exact absurd hcs (hexternal cs)
    next => rfl
  rw [hlooked, bind_eq (has_eq h)]
  rfl

end Lowering

/-! ## Words that spell values -/

variable {env : Lowering.Enclosing}

/-- What spells the value is lowered to a word that yields it, with nothing declared. -/
def Value.Lowers (env : Lowering.Enclosing) (v : Value) : Prop :=
  ∀ (p : Primary) (D : List String), v.SpelledBy p →
    ∃ e : Expr, e.Yields v ∧ ∀ span, Lowering.primary env span p D = .ok (e, D)

theorem lowers_constant {v : Value} {name : String} (henv : env.Understands)
    (hspelled : ∀ p, v.SpelledBy p → p = .variable name false) (hname : Name.root name = name)
    (h : (name, v) ∈ vocabulary) : v.Lowers env := by
  intro p D hp
  obtain rfl := hspelled p hp
  exact ⟨.variable name false, Expr.yields_variable h, fun _ ↦ Lowering.primary_variable hname (henv _ h)⟩

theorem lowers_str (s : String) : (Value.str s).Lowers env := by
  intro p D hp
  refine ⟨.literal s, Expr.yields_literal s, fun span ↦ ?_⟩
  rcases hp with rfl | rfl <;> rw [Lowering.primary] <;> rfl

theorem lowers_num (henv : env.Understands) {x : Num} (h : x.Exact) : (Value.num x).Lowers env := by
  rintro p D ⟨inside, arg, rfl, hinside, harg⟩
  have hnum : (Name.function "num", Value.builtin .num) ∈ vocabulary := by
    simp [vocabulary]
  have hcommand : Name.command "num" (Lowering.has env) D = .ok (.function (Name.function "num"), D) :=
    Lowering.command_eq (by decide) (fun cs ↦ by simp) (henv _ hnum)
  have hliteral : Lowering.compound env arg D = .ok (.literal x.text, D) :=
    Lowering.compound_isJust harg fun span ↦ by rw [Lowering.primary]; rfl
  obtain ⟨site, hchunk⟩ := Lowering.chunk_commands hinside (by decide) hcommand hliteral
  refine ⟨_, Expr.yields_number site (Num.read?_text h), fun span ↦ ?_⟩
  rw [Lowering.primary, bind_eq hchunk]
  rfl

/-- The items' words are lowered one after another. -/
def LowersItems (env : Lowering.Enclosing) (vs : List Value) : Prop :=
  ∀ (words : List Compound) (D : List String), ItemsSpelledBy vs words →
    ∃ es, Expr.YieldAll es vs ∧ Lowering.compoundList env words D = .ok (es, D)

/-- The entries' words are lowered one after another. -/
def LowersEntries (env : Lowering.Enclosing) (entries : List (Value × Value)) : Prop :=
  ∀ (ps : List (Compound × Compound)) (D : List String), EntriesSpelledBy entries ps →
    ∃ es, Expr.YieldPairs es entries ∧ Lowering.pairList env ps D = .ok (es, D)

mutual

/-- **A word that spells a value is code that yields it.** -/
theorem Value.lowers (henv : env.Understands) : ∀ {v : Value}, v.Plain → v.Lowers env
  | .nil, _ => lowers_constant henv (fun _ h ↦ h) (by decide) (by simp [vocabulary])
  | .bool true, _ => lowers_constant henv (fun _ h ↦ h) (by decide) (by simp [vocabulary])
  | .bool false, _ => lowers_constant henv (fun _ h ↦ h) (by decide) (by simp [vocabulary])
  | .str s, _ => lowers_str s
  | .num _, h => lowers_num henv h
  | .list vs, h => by
    rintro p D ⟨words, rfl, hwords⟩
    obtain ⟨es, hyield, hes⟩ := lowers_items henv h words D hwords
    refine ⟨.list es, Expr.yields_list hyield, fun span ↦ ?_⟩
    rw [Lowering.primary, bind_eq hes]
    rfl
  | .map entries, h => by
    rintro p D ⟨ps, rfl, hps⟩
    obtain ⟨es, hyield, hes⟩ := lowers_entries henv h.1 ps D hps
    have hmap := Expr.yields_map hyield
    rw [Value.ofPairs, Entries.ofPairs_eq h.2] at hmap
    refine ⟨.map es, hmap, fun span ↦ ?_⟩
    rw [Lowering.primary, bind_eq hes]
    rfl

theorem lowers_items (henv : env.Understands) : ∀ {vs : List Value}, PlainItems vs → LowersItems env vs
  | [], _ => by
    rintro words D rfl
    exact ⟨[], .nil, by rw [Lowering.compoundList]; rfl⟩
  | v :: vs, h => by
    rintro words D ⟨word, others, p, rfl, hword, hspelled, hothers⟩
    obtain ⟨e, he, hfirst⟩ := Value.lowers henv h.1 p D hspelled
    obtain ⟨es, hes, hrest⟩ := lowers_items henv h.2 others D hothers
    refine ⟨e :: es, .cons he hes, ?_⟩
    rw [Lowering.compoundList, bind_eq (Lowering.compound_isJust hword hfirst), bind_eq hrest]
    rfl

theorem lowers_entries (henv : env.Understands) : ∀ {entries : List (Value × Value)},
    PlainEntries entries → LowersEntries env entries
  | [], _ => by
    rintro ps D rfl
    exact ⟨[], .nil, by rw [Lowering.pairList]; rfl⟩
  | (k, v) :: entries, h => by
    rintro ps D ⟨key, value, others, p, q, rfl, hkey, hk, hvalue, hv, hothers⟩
    obtain ⟨e, he, hfirst⟩ := Value.lowers henv h.1 p D hk
    obtain ⟨e', he', hsecond⟩ := Value.lowers henv h.2.1 q D hv
    obtain ⟨es, hes, hrest⟩ := lowers_entries henv h.2.2 others D hothers
    refine ⟨(e, e') :: es, .cons ⟨he, he'⟩ hes, ?_⟩
    rw [Lowering.pairList, bind_eq (Lowering.compound_isJust hkey hfirst),
      bind_eq (Lowering.compound_isJust hvalue hsecond), bind_eq hrest]
    rfl

end

end ValueShell
