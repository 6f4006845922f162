import ValueShell.Proofs.Sequential

/-!
# Using a module

A `use` either gives the namespace of the module or leaves no trace of itself in the table of modules.  Once it has
given the namespace, every later `use` of the same file gives it again, and neither reads nor runs anything.

How a `use` ends is said without regard to what follows it: `Comp.Returns` is about every rest of the program, so
nothing but the result of the computation is passed on.  `Comp.Orderly.holds` turns what is known of an orderly
computation into a fact about its returns.

* `Comp.Returns.uses` says what one `use` leaves behind.
* `Moment.Later` is the rest of an evaluator's life, in which modules that have been loaded stay loaded
  (`Moment.Later.keeps_done`).
* `Moment.Lives.uses_once` puts the two together.
-/

set_option autoImplicit false

namespace ValueShell

variable {α : Type} {d : Dialect}

/-! ## How a computation ends -/

/-- The table of modules is the same in both worlds, and so is all that the place of a module depends on. -/
structure World.SameModules (w w' : World) : Prop where
  loads : w'.loads = w.loads
  files : w'.files = w.files
  native : w'.native = w.native
  config : w'.config = w.config

namespace World.SameModules

variable {w w' w'' : World}

theorem refl (w : World) : w.SameModules w :=
  ⟨rfl, rfl, rfl, rfl⟩

theorem trans (h : w.SameModules w') (h' : w'.SameModules w'') : w.SameModules w'' :=
  ⟨h'.loads.trans h.loads, h'.files.trans h.files, h'.native.trans h.native, h'.config.trans h.config⟩

end World.SameModules

namespace Moment

/-- Steps of one task with code in the dialect.  Between them the world may be changed from outside, except for
modules and files. -/
inductive Leads (d : Dialect) (m : Moment) : Moment → Prop
  | refl : Leads d m m
  | touch {t : Task} {w w' : World} (h : Leads d m ⟨t, w⟩) (hw : w.SameModules w') : Leads d m ⟨t, w'⟩
  | step {m₁ m₂ : Moment} {e : Event} (h : Leads d m m₁) (hstep : m₁.Step e m₂) (he : e.isIn d = true) :
      Leads d m m₂

/-- The rest of the life of an evaluator. -/
inductive Later (d : Dialect) (m : Moment) : Moment → Prop
  | refl : Later d m m
  | touch {t : Task} {w w' : World} (h : Later d m ⟨t, w⟩) (hw : w'.loads = w.loads) : Later d m ⟨t, w'⟩
  | start {o : Outcome} {w : World} {p : Prog} (h : Later d m ⟨.running (.done o), w⟩) (hp : p.FromOutside d) :
      Later d m ⟨.running p, w⟩
  | step {m₁ m₂ : Moment} {e : Event} (h : Later d m m₁) (hstep : m₁.Step e m₂) (he : e.isIn d = true) :
      Later d m m₂

end Moment

/-- Run in a world, the computation ends with a result in another world, whatever the rest of the program is. -/
def Comp.Returns (d : Dialect) (m : Comp α) (w : World) (r : Except Failure α) (w' : World) : Prop :=
  ∀ k, Moment.Leads d ⟨.running (m k), w⟩ ⟨.running (k r), w'⟩

namespace Moment

variable {m m' : Moment} {post : LoadState → Prop} {path : FilePath} {ns : NsId}

theorem Leads.later (h : m.Leads d m') : m.Later d m' := by
  induction h with
  | refl => exact .refl
  | touch _ hw ih => exact ih.touch hw.loads
  | step _ hstep he ih => exact ih.step hstep he

theorem Leads.trans {m₁ m₂ m₃ : Moment} (h : m₁.Leads d m₂) (h' : m₂.Leads d m₃) : m₁.Leads d m₃ := by
  induction h' with
  | refl => exact h
  | touch _ hw ih => exact ih.touch hw
  | step _ hstep he ih => exact ih.step hstep he

theorem Lives.later (hm : m.Lives d) (h : m.Later d m') : m'.Lives d := by
  induction h with
  | refl => exact hm
  | touch _ hw ih => exact ih.touch hw
  | start _ hp ih => exact ih.start hp
  | step _ hstep he ih => exact ih.step hstep he

/-- An orderly program stays orderly. -/
theorem Orderly.leads (hm : m.Orderly d post) (h : m.Leads d m') : m'.Orderly d post := by
  induction h with
  | refl => exact hm
  | touch _ hw ih =>
    obtain ⟨p, hp, horderly⟩ := ih
    exact ⟨p, hp, hw.loads ▸ horderly⟩
  | step _ hstep he ih => exact ih.step hstep he

/-- **What has been loaded stays loaded**, for the rest of the life of an evaluator that runs sequential code. -/
theorem Later.keeps_done (hm : m.Lives .sequential) (h : m.Later .sequential m')
    (hdone : m.world.loads.status? path = some (.done ns)) : m'.world.loads.status? path = some (.done ns) := by
  induction h with
  | refl => exact hdone
  | touch _ hw ih =>
    dsimp only at ih ⊢
    rw [hw]
    exact ih
  | start _ _ ih => exact ih
  | step hlater hstep _ ih => exact (hm.later hlater).orderly.keeps_done hstep ih

/-- Whatever a program leads to begins with its first step that is more than waiting. -/
theorem Leads.head {p : Prog} {w : World} (hp : ∀ stages next, p ≠ .fork stages next)
    (h : Leads d ⟨.running p, w⟩ m') :
    (m'.task = .running p ∧ w.SameModules m'.world) ∨
      ∃ w₁ e m₁, w.SameModules w₁ ∧ e ≠ .quiet ∧ Step ⟨.running p, w₁⟩ e m₁ ∧ Leads d m₁ m' := by
  induction h with
  | refl => exact .inl ⟨rfl, .refl w⟩
  | touch _ hw ih =>
    rcases ih with ⟨htask, hsame⟩ | ⟨w₁, e, m₁, hsame, he, hfirst, hleads⟩
    · exact .inl ⟨htask, hsame.trans hw⟩
    · exact .inr ⟨w₁, e, m₁, hsame, he, hfirst, hleads.touch hw⟩
  | @step m₁ m₂ e _ hstep he ih =>
    rcases ih with ⟨htask, hsame⟩ | ⟨w₁, e₁, m₀, hsame, he₁, hfirst, hleads⟩
    · obtain ⟨t, w₁⟩ := m₁
      dsimp only at htask hsame
      subst htask
      cases hstep with
      | @act a _ _ hready =>
        have hevent : Event.act a (a.perform w₁).1 ≠ .quiet := nofun
        exact .inr ⟨w₁, _, _, hsame, hevent, .act hready, .refl⟩
      | @note n _ _ =>
        have hevent : Event.note n ≠ .quiet := nofun
        exact .inr ⟨w₁, _, _, hsame, hevent, .note, .refl⟩
      | fork => exact absurd rfl (hp _ _)
      | wait => exact .inl ⟨rfl, hsame.trans ⟨rfl, rfl, rfl, rfl⟩⟩
    · exact .inr ⟨w₁, e₁, m₀, hsame, he₁, hfirst, hleads.step hstep he⟩

theorem Leads.of_note {n : Note} {p : Prog} {w w' : World} {o : Outcome}
    (h : Leads d ⟨.running (.note n p), w⟩ ⟨.running (.done o), w'⟩) :
    ∃ w₁, w.SameModules w₁ ∧ Leads d ⟨.running p, w₁⟩ ⟨.running (.done o), w'⟩ := by
  rcases h.head (by simp) with ⟨htask, -⟩ | ⟨w₁, e, m₁, hsame, he, hfirst, hleads⟩
  · cases htask
  · cases hfirst with
    | note => exact ⟨w₁, hsame, hleads⟩
    | wait => exact absurd rfl he

theorem Leads.of_act {a : Act} {next : a.Reply → Prog} {w w' : World} {o : Outcome}
    (h : Leads d ⟨.running (.act a next), w⟩ ⟨.running (.done o), w'⟩) :
    ∃ w₁, w.SameModules w₁ ∧
      Leads d ⟨.running (next (a.perform w₁).1), (a.perform w₁).2⟩ ⟨.running (.done o), w'⟩ := by
  rcases h.head (by simp) with ⟨htask, -⟩ | ⟨w₁, e, m₁, hsame, he, hfirst, hleads⟩
  · cases htask
  · cases hfirst with
    | act => exact ⟨w₁, hsame, hleads⟩
    | wait => exact absurd rfl he

end Moment

namespace Comp.Returns

variable {β : Type} {m : Comp α} {f : α → Comp β} {w w₁ w₂ : World} {a : α} {r : Except Failure β}

theorem ofExcept (r : Except Failure α) (w : World) : (Comp.ofExcept r).Returns d w r w :=
  fun _ ↦ .refl

theorem pure (a : α) (w : World) : Comp.Returns d (Pure.pure a) w (.ok a) w :=
  ofExcept (.ok a) w

theorem bind (h : m.Returns d w (.ok a) w₁) (hs : (f a).Returns d w₁ r w₂) : (m >>= f).Returns d w r w₂ :=
  fun k ↦ (h _).trans (hs k)

theorem result {r : Except Failure α} (h : m.Returns d w r w₁) : m.result.Returns d w (.ok r) w₁ :=
  fun _ ↦ h _

theorem act {a : Act} (hready : a.ready w = true) (he : (Event.act a (a.perform w).1).isIn d = true) :
    (Comp.act a).Returns d w (.ok (a.perform w).1) (a.perform w).2 :=
  fun _ ↦ .step .refl (.act hready) he

theorem note (n : Note) (w : World) : (Comp.note n).Returns d w (.ok ()) w :=
  fun _ ↦ .step .refl .note rfl

end Comp.Returns

open Classical in
/-- The rest of a program that is at its end after this result, and gets nowhere after any other. -/
noncomputable def Comp.upTo (r : Except Failure α) (r' : Except Failure α) : Prog :=
  if r' = r then .done (.ok ()) else .spent

@[simp] theorem Comp.upTo_self (r : Except Failure α) : Comp.upTo r r = .done (.ok ()) :=
  if_pos rfl

/-- What holds of an orderly computation when it comes to a result holds of the result it returns. -/
theorem Comp.Orderly.holds {m : Comp α} {w w' : World} {r : Except Failure α}
    {Q : LoadState → Except Failure α → Prop} (h : m.Orderly d w.loads Q)
    (hr : Moment.Leads d ⟨.running (m (Comp.upTo r)), w⟩ ⟨.running (.done (.ok ())), w'⟩) : Q w'.loads r := by
  have horderly : (m (Comp.upTo r)).Orderly d (fun s ↦ Q s r) w.loads := by
    refine h _ _ fun s' r' hQ ↦ ?_
    by_cases hsame : r' = r
    · subst hsame
      rw [Comp.upTo_self]
      exact hQ
    · rw [Comp.upTo, if_neg hsame]
      trivial
  have hstart : Moment.Orderly d (fun s ↦ Q s r) ⟨.running (m (Comp.upTo r)), w⟩ := ⟨_, rfl, horderly⟩
  obtain ⟨p, hp, hdone⟩ := hstart.leads hr
  cases hp
  exact hdone

/-! ## One use -/

/-- In the world, the specifier means the module at this place for code of the frame, and no native module. -/
structure Frame.Resolves (fm : Frame) (w : World) (spec : String) (path : FilePath) : Prop where
  notNative : Modules.isPath spec = true ∨ w.native.find? (·.1 = spec) = none
  resolve : Modules.resolve w.files spec (fm.source.path.bind parentPath) w.config.libDirs Modules.extension =
    .ok path

namespace Frame.Resolves

variable {fm : Frame} {w w' : World} {spec : String} {path : FilePath}

theorem same (h : fm.Resolves w spec path) (hw : w.SameModules w') : fm.Resolves w' spec path := by
  constructor
  · rw [hw.native]
    exact h.notNative
  · rw [hw.files, hw.config]
    exact h.resolve

theorem perform_native (h : fm.Resolves w spec path) (hspec : Modules.isPath spec = false) :
    (Act.nativeModule spec).perform w = (none, w) := by
  have hnone : w.native.find? (·.1 = spec) = none := by simpa [hspec] using h.notNative
  rw [Act.perform, hnone]
  rfl

theorem perform_resolve (h : fm.Resolves w spec path) :
    (Act.resolveModule spec (fm.source.path.bind parentPath)).perform w = (.ok path, w) := by
  rw [Act.perform, h.resolve]

/-- The acts of a `use` up to the place of its module. -/
theorem useModule_eq {eng : Engine} {k : Except Failure NsId → Prog} :
    eng.useModule fm spec k = .note (.uses spec fm.loading) ((do
      match ← Engine.nativeSpace spec with
      | some space => return space
      | none =>
        let path ← fm.check (← Comp.act (.resolveModule spec (fm.source.path.bind parentPath)))
        eng.useFile fm spec path : Comp NsId) k) :=
  rfl

/-- A `use` comes to using the file, before anything has happened to the modules. -/
theorem comes_to_file {eng : Engine} {k : Except Failure NsId → Prog} {o : Outcome} (h : fm.Resolves w spec path)
    (hleads : Moment.Leads d ⟨.running (eng.useModule fm spec k), w⟩ ⟨.running (.done o), w'⟩) :
    ∃ w₁, w₁.loads = w.loads ∧
      Moment.Leads d ⟨.running (eng.useFile fm spec path k), w₁⟩ ⟨.running (.done o), w'⟩ := by
  have hresolved {w₁ : World} (hw₁ : w.SameModules w₁) (hleads : Moment.Leads d
      ⟨.running ((do
        let path ← fm.check (← Comp.act (.resolveModule spec (fm.source.path.bind parentPath)))
        eng.useFile fm spec path : Comp NsId) k), w₁⟩ ⟨.running (.done o), w'⟩) :
      ∃ w₂, w₂.loads = w.loads ∧
        Moment.Leads d ⟨.running (eng.useFile fm spec path k), w₂⟩ ⟨.running (.done o), w'⟩ := by
    obtain ⟨w₂, hw₂, hleads⟩ := hleads.of_act
    rw [(h.same (hw₁.trans hw₂)).perform_resolve] at hleads
    exact ⟨w₂, (hw₁.trans hw₂).loads, hleads⟩
  rw [useModule_eq] at hleads
  obtain ⟨w₁, hw₁, hleads⟩ := hleads.of_note
  by_cases hspec : Modules.isPath spec = true
  · rw [Engine.nativeSpace, if_pos hspec] at hleads
    exact hresolved hw₁ hleads
  · rw [Engine.nativeSpace, if_neg hspec] at hleads
    obtain ⟨w₂, hw₂, hleads⟩ := hleads.of_act
    rw [(h.same (hw₁.trans hw₂)).perform_native (Bool.eq_false_iff.2 hspec)] at hleads
    exact hresolved (hw₁.trans hw₂) hleads

end Frame.Resolves

/-- **What one use leaves behind**, when no module is being loaded but those on the way to it. -/
theorem Comp.Returns.uses {n : Nat} {fm : Frame} {spec : String} {path : FilePath} {w w' : World}
    {r : Except Failure NsId} (hr : Comp.Returns .sequential ((engine n).useModule fm spec) w r w')
    (hpath : fm.Resolves w spec path) (hw : w.loads.LoadsExactly fm.loading) : w.loads.Uses path w'.loads r := by
  have hend := hr (Comp.upTo r)
  rw [Comp.upTo_self] at hend
  obtain ⟨w₁, hloads, hleads⟩ := hpath.comes_to_file hend
  have hfile : ((engine n).useFile fm spec path).Orderly .sequential w₁.loads (w.loads.Uses path) := by
    rw [hloads]
    exact Comp.Balances.useFile rfl (engine_balances rfl n) hw
  exact hfile.holds hleads

/-! ## Every later use -/

/-- Run by itself, the program does just these acts, and none of them has to wait. -/
inductive Prog.Does : List Act → Prog → World → Prog → World → Prop
  | nil {p : Prog} {w : World} : Does [] p w p w
  | act {a : Act} {acts : List Act} {next : a.Reply → Prog} {w w' : World} {p' : Prog} (h : a.ready w = true)
      (hs : Does acts (next (a.perform w).1) (a.perform w).2 p' w') : Does (a :: acts) (.act a next) w p' w'
  | note {acts : List Act} {note : Note} {p p' : Prog} {w w' : World} (hs : Does acts p w p' w') :
      Does acts (.note note p) w p' w'

/-- A module that has been loaded is given at once: its file is neither read nor run. -/
theorem Frame.Resolves.does_useModule {n : Nat} {fm : Frame} {spec : String} {path : FilePath} {w : World}
    {ns : NsId} (h : fm.Resolves w spec path) (hdone : w.loads.status? path = some (.done ns))
    (hchain : path ∉ fm.loading) :
    ∃ acts, (∀ a ∈ acts, a = .nativeModule spec ∨ (∃ base, a = .resolveModule spec base) ∨
        a = .attemptLoad path fm.loading) ∧
      ∀ k, Prog.Does acts ((engine n).useModule fm spec k) w (k (.ok ns)) w := by
  have hattempt : (Act.attemptLoad path fm.loading).perform w = (.ready ns, w) := by
    rw [Act.perform, LoadState.attempt_done hdone]
  have hfile (k : Except Failure NsId → Prog) : Prog.Does [.attemptLoad path fm.loading]
      ((engine n).useFile fm spec path k) w (k (.ok ns)) w := by
    rw [Engine.useFile, if_neg (by simpa using hchain)]
    refine .act rfl ?_
    rw [hattempt]
    exact .nil
  let base := fm.source.path.bind parentPath
  have hresolved (k : Except Failure NsId → Prog) : Prog.Does
      [.resolveModule spec base, .attemptLoad path fm.loading]
      ((do
        let path ← fm.check (← Comp.act (.resolveModule spec base))
        (engine n).useFile fm spec path : Comp NsId) k) w (k (.ok ns)) w := by
    refine .act rfl ?_
    rw [h.perform_resolve]
    exact hfile k
  by_cases hspec : Modules.isPath spec = true
  · refine ⟨[.resolveModule spec base, .attemptLoad path fm.loading], by simp, fun k ↦ ?_⟩
    rw [useModule_eq, Engine.nativeSpace, if_pos hspec]
    exact .note (hresolved k)
  · refine ⟨[.nativeModule spec, .resolveModule spec base, .attemptLoad path fm.loading], by simp, fun k ↦ ?_⟩
    rw [useModule_eq, Engine.nativeSpace, if_neg hspec]
    refine .note (.act rfl ?_)
    rw [h.perform_native (Bool.eq_false_iff.2 hspec)]
    exact hresolved k

/-- **A module is used all or nothing, and once.**  When a `use` in a life of sequential code ends, what had been
loaded still is.  If it fails, whatever the reason, the module's entry in the table is what it was before.  If it
gives a namespace, then so does every later `use` that means the same file, in whatever frame and by whatever
specifier, and all it does is to ask for the place and for the module: nothing is read, made or run. -/
theorem Moment.Lives.uses_once {n : Nat} {fm : Frame} {spec : String} {path : FilePath}
    {k : Except Failure NsId → Prog} {w w' : World} {r : Except Failure NsId}
    (h : Moment.Lives .sequential ⟨.running ((engine n).useModule fm spec k), w⟩) (hpath : fm.Resolves w spec path)
    (hr : Comp.Returns .sequential ((engine n).useModule fm spec) w r w') :
    (∀ p ns, w.loads.status? p = some (.done ns) → w'.loads.status? p = some (.done ns)) ∧
      (∀ e, r = .error e → w'.loads.status? path = w.loads.status? path) ∧
      ∀ ns, r = .ok ns → w'.loads.status? path = some (.done ns) ∧
        ∀ n' fm' spec' k' w'', Moment.Later .sequential ⟨.running (k r), w'⟩
            ⟨.running ((engine n').useModule fm' spec' k'), w''⟩ → fm'.Resolves w'' spec' path →
          ∃ acts, (∀ a ∈ acts, a = .nativeModule spec' ∨ (∃ base, a = .resolveModule spec' base) ∨
              a = .attemptLoad path fm'.loading) ∧
            ∀ k, Prog.Does acts ((engine n').useModule fm' spec' k) w'' (k (.ok ns)) w'' := by
  have hchain {n : Nat} {fm : Frame} {spec : String} {k : Except Failure NsId → Prog} {w : World}
      (h : Moment.Lives .sequential ⟨.running ((engine n).useModule fm spec k), w⟩) :
      w.loads.LoadsExactly fm.loading := by
    obtain ⟨p, hp, horderly⟩ := h.orderly
    cases hp
    exact horderly.1
  have huses : w.loads.Uses path w'.loads r := hr.uses hpath (hchain h)
  refine ⟨huses.balanced.done, huses.failed, ?_⟩
  intro ns hns
  have hdone : w'.loads.status? path = some (.done ns) := huses.given ns hns
  refine ⟨hdone, ?_⟩
  intro n' fm' spec' k' w'' hlater hpath'
  have hthen : Moment.Lives .sequential ⟨.running (k r), w'⟩ := h.later (hr k).later
  have hstill : w''.loads.status? path = some (.done ns) := hlater.keeps_done hthen hdone
  have hfree : path ∉ fm'.loading := by
    rw [(hchain (hthen.later hlater)).mem, hstill]
    exact nofun
  exact hpath'.does_useModule hstill hfree

/-! ## A module that does nothing -/

/-- A fresh world but for an empty file, which is a module. -/
def World.withEmptyModule : World :=
  let w := fresh .default
  { w with files := w.files.install "m.qb" (.file (Utf8.encode "")) }

/-- A frame at the top level there, whose output is thrown away. -/
def Frame.besideEmptyModule : Frame :=
  let nowhere : Outlet := ⟨.discard, .discard⟩
  .top .default World.withEmptyModule.global ⟨⟨none, none⟩, nowhere, nowhere⟩ default

/-- The world while the module is being loaded, with its source and its namespace. -/
def World.emptyModuleMade : NsId × World :=
  let claimed := ((Act.attemptLoad ["W", "m.qb"] []).perform .withEmptyModule).2
  let place := FilePath.text ["W", "m.qb"]
  (Act.newSpace []).perform ((Act.newSource place "" (some place)).perform claimed).2

/-- The world in which it has been loaded. -/
def World.withEmptyModuleLoaded : World :=
  ((Act.finishLoad ["W", "m.qb"] World.emptyModuleMade.1).perform World.emptyModuleMade.2).2

theorem Frame.resolves_emptyModule (w : World) (hfiles : w.files = World.withEmptyModule.files)
    (hconfig : w.config = World.withEmptyModule.config) {spec : String}
    (hspec : spec = "./m" ∨ spec = "././m") :
    Frame.besideEmptyModule.Resolves w spec ["W", "m.qb"] := by
  constructor
  · left
    rcases hspec with rfl | rfl <;> decide +kernel
  · rw [hfiles, hconfig]
    rcases hspec with rfl | rfl <;> exact eq_ok_of_toOption (by decide +kernel)

theorem compile_empty {source : Source} {scope : Scope} (h : source.code = "") :
    compile source scope = .ok (.chunk []) := by
  have hparse : (parse "".toList).toOption.map (·.pipelines.isEmpty) = some true := by decide +kernel
  obtain ⟨⟨pipelines⟩, htree, hempty⟩ := Option.map_eq_some_iff.1 hparse
  obtain rfl : pipelines = [] := List.isEmpty_iff.1 hempty
  rw [compile, h, eq_ok_of_toOption htree]
  rfl

theorem Engine.compileFor_empty {source : Source} {space : NsId} {k : Except Failure Op → Prog}
    (h : source.code = "") :
    Engine.compileFor source space k = .act (.scope space) fun _ ↦ k (.ok (.chunk [])) := by
  change (Prog.act (.scope space) fun scope ↦ k (compile source scope)) = _
  simp only [compile_empty h]

theorem Engine.run_empty {n : Nat} {fm : Frame} {k : Outcome → Prog} :
    (engine (n + 1)).run (.chunk []) fm k = .note (.starts none fm.source fm.loading) (k (.ok ())) := by
  change (Op.chunk []).exec (engine n) fm k = _
  rw [Op.exec, execChunk]
  rfl

theorem Comp.Returns.compileEmpty {source : Source} {space : NsId} {w : World} (h : source.code = "") :
    (Engine.compileFor source space).Returns d w (.ok (.chunk [])) w := by
  intro k
  rw [Engine.compileFor_empty h]
  exact .step .refl (.act rfl) rfl

theorem Comp.Returns.runEmpty (n : Nat) (fm : Frame) (w : World) :
    ((engine (n + 1)).run (.chunk []) fm).Returns d w (.ok ()) w := by
  intro k
  rw [Engine.run_empty]
  exact .step .refl .note rfl

/-- Reading, checking and running it gives its namespace. -/
theorem Comp.Returns.loadEmptyModule :
    ((engine 9).loadModule Frame.besideEmptyModule ["W", "m.qb"]).Returns .sequential
      ((Act.attemptLoad ["W", "m.qb"] []).perform .withEmptyModule).2
      (.ok World.emptyModuleMade.1) World.emptyModuleMade.2 := by
  let claimed := ((Act.attemptLoad ["W", "m.qb"] []).perform .withEmptyModule).2
  let place := FilePath.text ["W", "m.qb"]
  have hread : (Act.readText place).perform claimed = (.ok "", claimed) :=
    Prod.ext (by decide +kernel) rfl
  refine .bind (.act rfl rfl) ?_
  rw [hread]
  refine .bind (.act (a := .newSource place "" (some place)) rfl (by decide +kernel)) ?_
  refine .bind (.act (a := .newSpace []) rfl rfl) ?_
  refine .bind (compileEmpty rfl) (.bind (.ofExcept (.ok _) _) (.bind (a := ()) ?_ (.pure _ _)))
  exact .bind (a := .ok ()) (.result (.runEmpty _ _ _)) (.ofExcept (.ok ()) _)

theorem Comp.Returns.useEmptyModule :
    ((engine 9).useModule Frame.besideEmptyModule "./m").Returns .sequential .withEmptyModule
      (.ok World.emptyModuleMade.1) .withEmptyModuleLoaded := by
  have hresolve : (Act.resolveModule "./m" (Frame.besideEmptyModule.source.path.bind parentPath)).perform
      .withEmptyModule = (.ok ["W", "m.qb"], .withEmptyModule) :=
    (Frame.resolves_emptyModule .withEmptyModule rfl rfl (.inl rfl)).perform_resolve
  refine .bind (.note _ _) (.bind (.pure none _) (.bind (.act rfl rfl) ?_))
  rw [hresolve]
  refine .bind (.pure ["W", "m.qb"] _) (.bind (.act (a := .attemptLoad ["W", "m.qb"] []) rfl rfl) ?_)
  refine .bind (.result loadEmptyModule) ?_
  exact .bind (.act rfl rfl) (.pure _ _)

/-- The module is loaded once, and used again by another name. -/
theorem Moment.Lives.uses_once_emptyModule :
    ∃ (w' : World) (ns : NsId),
      ((engine 9).useModule Frame.besideEmptyModule "./m").Returns .sequential .withEmptyModule (.ok ns) w' ∧
      w'.loads.status? ["W", "m.qb"] = some (.done ns) ∧
      ∃ acts, (∀ a ∈ acts, a = .nativeModule "././m" ∨ (∃ base, a = .resolveModule "././m" base) ∨
          a = .attemptLoad ["W", "m.qb"] []) ∧
        ∀ k, Prog.Does acts ((engine 9).useModule Frame.besideEmptyModule "././m" k) w' (k (.ok ns)) w' := by
  obtain ⟨k, hk, hend⟩ : ∃ k : Except Failure NsId → Prog,
      (∀ spec, (discard ((engine 9).useModule Frame.besideEmptyModule spec)).program =
        (engine 9).useModule Frame.besideEmptyModule spec k) ∧ ∀ ns, k (.ok ns) = .done (.ok ()) :=
    ⟨_, fun _ ↦ rfl, fun _ ↦ rfl⟩
  have huse (spec : String) :
      Prog.FromOutside .sequential ((engine 9).useModule Frame.besideEmptyModule spec k) := by
    rw [← hk]
    exact .use 9 Frame.besideEmptyModule spec rfl
  have hlives : Moment.Lives .sequential
      ⟨.running ((engine 9).useModule Frame.besideEmptyModule "./m" k), .withEmptyModule⟩ :=
    .start (.idle (o := .ok ()) nofun) (huse "./m")
  have hreturns := Comp.Returns.useEmptyModule
  have hpath := Frame.resolves_emptyModule .withEmptyModule rfl rfl (.inl rfl)
  obtain ⟨-, -, hgiven⟩ := hlives.uses_once hpath hreturns
  obtain ⟨hdone, hlater⟩ := hgiven _ rfl
  have hpath' := Frame.resolves_emptyModule .withEmptyModuleLoaded rfl rfl (.inr rfl)
  have hnext : Moment.Later .sequential ⟨.running (k (.ok World.emptyModuleMade.1)), .withEmptyModuleLoaded⟩
      ⟨.running ((engine 9).useModule Frame.besideEmptyModule "././m" k), .withEmptyModuleLoaded⟩ := by
    rw [hend]
    exact .start .refl (huse "././m")
  exact ⟨_, _, hreturns, hdone, hlater 9 _ _ _ _ hnext hpath'⟩

end ValueShell
