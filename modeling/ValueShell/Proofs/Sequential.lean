import ValueShell.Proofs.Orderly.Modules
import ValueShell.Proofs.Requests

/-!
# Evaluators that run sequential code

The life of an evaluator that runs one program at a time (`Moment.Lives`).  Between programs and even during
them anything may be done to the world from outside, as long as the table of modules is left alone.

If all code is sequential, loading modules never waits: whenever an operation starts or a module is asked for,
the modules being loaded are those in the chain of the frame, each once (`Moment.Lives.loads_in_sequence`).  So
nobody asks to load a module that is being loaded, and a module that leads back to itself is refused.
-/

set_option autoImplicit false

namespace ValueShell

/-! ## Programs that are run from outside -/

/-- What may be run from outside, in a dialect: text, a file, or a source at the top level, or the call of a
value or the `use` of a module in a frame in which nothing is being loaded. -/
inductive Prog.FromOutside (d : Dialect) : Prog → Prop
  | text (config : Config) (global : NsId) (name code : String) (wiring : Wiring) :
      FromOutside d (World.runText config global name code wiring).program
  | file (config : Config) (global : NsId) (path : String) (wiring : Wiring) :
      FromOutside d (World.runFile config global path wiring).program
  | source (config : Config) (global : NsId) (source : Source) (wiring : Wiring)
      (h : d.has source.code = true) : FromOutside d (World.topLevel config global source wiring).program
  | call (n : Nat) (fm : Frame) (f : Value) (args : List Value) (opts : Options) (h : fm.loading = []) :
      FromOutside d ((engine n).call fm f args opts).program
  | use (n : Nat) (fm : Frame) (spec : String) (h : fm.loading = []) :
      FromOutside d (discard ((engine n).useModule fm spec)).program

/-- What is run from outside is a request. -/
theorem Prog.FromOutside.request {d : Dialect} {p : Prog} (h : p.FromOutside d) :
    ∃ r n, p = Request.program r n ∧ r.isIn d = true ∧ r.frame.loading = [] := by
  cases h with
  | text config global name code wiring => exact ⟨.text config global name code wiring, World.patience, rfl, rfl, rfl⟩
  | file config global path wiring => exact ⟨.file config global path wiring, World.patience, rfl, rfl, rfl⟩
  | source config global source wiring h => exact ⟨.source config global source wiring, World.patience, rfl, h, rfl⟩
  | call n fm f args opts h => exact ⟨.call fm f args opts, n, rfl, rfl, h⟩
  | use n fm spec h => exact ⟨.use fm spec, n, rfl, rfl, h⟩

/-- A request ends all loads it begins. -/
theorem Request.balances {d : Dialect} (hd : d.pipelines = false) {r : Request} (h : r.isIn d = true) (n : Nat) :
    (r.run (engine n)).Balances d r.frame.loading fun _ ↦ True := by
  have heng := engine_balances hd n
  have hrun : (Comp.balances hd).Holds r.frame.setting (fun _ ↦ r.run (engine n)) fun _ ↦ True :=
    .request (heng.runs hd _) (heng.calls hd _) (heng.serves hd _) r (Comp.balances_fits hd r.frame) h
  exact hrun n

/-- What is run from outside while no module is being loaded is orderly. -/
theorem Prog.FromOutside.orderly {p : Prog} {s : LoadState} (h : p.FromOutside .sequential)
    (hs : s.LoadsExactly []) : p.Orderly .sequential (·.LoadsExactly []) s := by
  obtain ⟨r, n, rfl, hr, hloading⟩ := h.request
  have hbalances := Request.balances rfl hr n
  rw [hloading] at hbalances
  exact hbalances.program hs

/-! ## The life of an evaluator -/

namespace Moment

variable {d : Dialect} {m m' : Moment} {e : Event}

/-- The evaluator may have come to this moment, all code that it has run being in the dialect.  It begins with no
module being loaded. -/
inductive Lives (d : Dialect) : Moment → Prop
  | idle {o : Outcome} {w : World} (h : ∀ p, w.loads.status? p ≠ some .loading) :
      Lives d ⟨.running (.done o), w⟩
  /-- The world is changed from outside -/
  | touch {t : Task} {w w' : World} (h : Lives d ⟨t, w⟩) (hw : w'.loads = w.loads) : Lives d ⟨t, w'⟩
  /-- A program is run when the one before it has ended -/
  | start {o : Outcome} {w : World} {p : Prog} (h : Lives d ⟨.running (.done o), w⟩) (hp : p.FromOutside d) :
      Lives d ⟨.running p, w⟩
  | step {m m' : Moment} {e : Event} (h : Lives d m) (hstep : m.Step e m') (he : e.isIn d = true) : Lives d m'

namespace Lives

/-- In a life of sequential code all programs are orderly. -/
theorem orderly (h : m.Lives .sequential) : m.Orderly .sequential (·.LoadsExactly []) := by
  induction h with
  | idle h => exact ⟨_, rfl, LoadState.loadsExactly_nil.2 h⟩
  | touch _ hw ih =>
    obtain ⟨p, hp, horderly⟩ := ih
    exact ⟨p, hp, hw ▸ horderly⟩
  | start _ hp ih =>
    obtain ⟨_, ⟨⟩, hdone⟩ := ih
    exact ⟨_, rfl, hp.orderly hdone⟩
  | step _ hstep he ih => exact ih.step hstep he

/-- **Sequential code loads modules one inside another.**  The task is in one piece and does not wait for a
module.  Whenever an operation starts or a module is asked for, the modules being loaded are exactly those of the
frame's chain, which has none twice.  Nobody asks to load a module that is being loaded, and a `use` whose module
is being loaded is refused. -/
theorem loads_in_sequence (h : m.Lives .sequential) :
    (∃ p, m.task = .running p ∧ ∀ waiter path next, p ≠ .act (.awaitLoad waiter path) next) ∧
      ∀ e m', m.Step e m' →
        (∀ site source loading, e = .note (.starts site source loading) →
          m.world.loads.LoadsExactly loading) ∧
        (∀ spec loading, e = .note (.uses spec loading) → m.world.loads.LoadsExactly loading) ∧
        (∀ path chain claim, e = .act (.attemptLoad path chain) claim →
          m.world.loads.status? path ≠ some .loading ∧ (claim = .load ∨ ∃ ns, claim = .ready ns)) ∧
        ∀ spec base path, e = .act (.resolveModule spec base) (.ok path) →
          m.world.loads.status? path = some .loading →
            ∃ next, m.task = .running (.act (.resolveModule spec base) next) ∧
              m'.task = .running (next (.ok path)) ∧ RefusesModule next spec path := by
  have horderly := h.orderly
  constructor
  · obtain ⟨p, hp, hsafe⟩ := horderly
    refine ⟨p, hp, ?_⟩
    rintro waiter path next rfl
    exact hsafe.1
  · intro e m' hstep
    refine ⟨?_, ?_, ?_, ?_⟩
    · rintro site source loading rfl
      exact horderly.note hstep
    · rintro spec loading rfl
      exact horderly.note hstep
    · rintro path chain claim rfl
      obtain ⟨rfl, hpath, -⟩ := horderly.act hstep
      refine ⟨hpath, ?_⟩
      rw [Act.perform]
      obtain ⟨-, hattempt⟩ | ⟨ns, -, hattempt⟩ := m.world.loads.attempt_of_not_loading chain hpath
      · exact .inl (by rw [hattempt])
      · exact .inr ⟨ns, by rw [hattempt]⟩
    · rintro spec base path rfl hloading
      obtain ⟨-, -, next, hnow, hthen, hanswered⟩ := horderly.act hstep
      exact ⟨next, hnow, hthen, hanswered rfl hloading⟩

end Lives

end Moment

/-! ## A module that uses itself -/

/-- Do the first `n` acts and notes of a program bring in only code of the dialect? -/
def Prog.staysIn (d : Dialect) : Nat → Prog → World → Bool
  | n + 1, .act a next, w =>
    !a.ready w || ((Event.act a (a.perform w).1).isIn d &&
      (next (a.perform w).1).staysIn d n (a.perform w).2)
  | n + 1, .note _ p, w => p.staysIn d n w
  | _, _, _ => true

namespace Moment

/-- After `n` acts and notes of a program. -/
def after (n : Nat) (p : Prog) (w : World) : Moment :=
  ⟨.running (p.advance false n w).1, (p.advance false n w).2.1⟩

theorem Lives.advance {d : Dialect} {p : Prog} {w : World} (h : Lives d ⟨.running p, w⟩) (moved : Bool) (n : Nat)
    (hp : p.staysIn d n w = true) :
    Lives d ⟨.running (p.advance moved n w).1, (p.advance moved n w).2.1⟩ := by
  fun_induction Prog.advance moved n p w with
  | case1 moved n a next w hready r w' hperform ih =>
    rw [Prog.staysIn, hready, hperform] at hp
    simp only [Bool.not_true, Bool.false_or, Bool.and_eq_true] at hp
    have hstep : Step ⟨.running (.act a next), w⟩ (.act a r) ⟨.running (next r), w'⟩ := by
      have hact : Step ⟨.running (.act a next), w⟩ _ _ := .act hready
      rwa [hperform] at hact
    exact ih (h.step hstep hp.1) hp.2
  | case2 moved n a next w hready => exact h
  | case3 moved n note p w ih => exact ih (h.step .note rfl) hp
  | case4 => exact h

end Moment

/-- The place whose module a program is about to ask for, and where it is looked for. -/
def Prog.asks? : Prog → Option (String × Option String)
  | .act (.resolveModule spec base) _ => some (spec, base)
  | _ => none

theorem Prog.step_of_asks {p : Prog} {w : World} {spec : String} {base : Option String} {path : FilePath}
    (h : p.asks? = some (spec, base))
    (hpath : ((Act.resolveModule spec base).perform w).1.toOption = some path) :
    ∃ m', Moment.Step ⟨.running p, w⟩ (.act (.resolveModule spec base) (.ok path)) m' := by
  unfold asks? at h
  split at h <;> cases h
  have hreply : ((Act.resolveModule spec base).perform w).1 = .ok path := eq_ok_of_toOption hpath
  rw [← hreply]
  exact ⟨_, .act rfl⟩

/-- The world with a file that uses itself as a module. -/
def World.withOwnModule : World :=
  let w := fresh .default
  { w with files := w.files.install "m.qb" (.file (Utf8.encode "use ./m")) }

/-- The `use` of that module. -/
def useOwnModule : Prog :=
  let nowhere : Outlet := ⟨.discard, .discard⟩
  let fm := Frame.top .default World.withOwnModule.global ⟨⟨none, none⟩, nowhere, nowhere⟩ default
  (discard ((engine 9).useModule fm "./m")).program

namespace Moment

/-- In the middle of its own load the module is asked for again, and refused. -/
theorem loads_in_sequence_ownModule :
    ∃ m m' : Moment, m.Lives .sequential ∧ m.world.loads.status? ["W", "m.qb"] = some .loading ∧
      m.Step (.act (.resolveModule "./m" (some "/W")) (.ok ["W", "m.qb"])) m' ∧
      ∃ next, m'.task = .running (next (.ok ["W", "m.qb"])) ∧ RefusesModule next "./m" ["W", "m.qb"] := by
  let m := after 11 useOwnModule .withOwnModule
  have hlives : m.Lives .sequential := by
    have hstart : Lives .sequential ⟨.running useOwnModule, .withOwnModule⟩ :=
      .start (.idle (o := .ok ()) nofun) (.use 9 _ "./m" rfl)
    exact hstart.advance false 11 (by decide +kernel)
  have hloading : m.world.loads.status? ["W", "m.qb"] = some .loading := by decide +kernel
  obtain ⟨m', hstep⟩ : ∃ m', m.Step (.act (.resolveModule "./m" (some "/W")) (.ok ["W", "m.qb"])) m' :=
    Prog.step_of_asks (by decide +kernel) (by decide +kernel)
  obtain ⟨-, -, -, hcycle⟩ := (Lives.loads_in_sequence hlives).2 _ m' hstep
  obtain ⟨next, -, hnext, hrefuses⟩ := hcycle _ _ _ rfl hloading
  exact ⟨m, m', hlives, hloading, hstep, next, hnext, hrefuses⟩

end Moment

end ValueShell
