import Mathlib.Logic.Relation
import ValueShell.Session

/-!
# Steps and runs

`Task.drive` runs a program by one particular schedule.  What is proved about scripts should not hang on
that choice, so this file says what *any* schedule can do:

* `Moment.Step` is one step of one part of a task.  It is labelled with what the step does (`Event`), so
  that a statement can be about the step in which something happens.
* `Moment.Reaches` is any number of steps of one task.
* `Moment.Run` is the life of an evaluator: steps, new programs, and whatever whoever embeds the evaluator
  does from outside.

`Prog.run_reaches` says that the schedule of `Task.drive` is one of those meant, and `World.eval_run` and
`World.evalFile_run` that sessions are runs.
-/

set_option autoImplicit false

namespace ValueShell

open Relation

/-! ## Steps of a task -/

/-- What a step does. -/
inductive Event where
  | act (a : Act) (reply : a.Reply)
  | note (n : Note)
  /-- Nothing that shows: stages part or join, or time passes -/
  | quiet

/-- A task and the world it runs in. -/
structure Moment where
  task : Task
  world : World

namespace Moment

/-- One step of one part of a task.  Time may pass at any moment; the schedule lets it pass only when
nothing else can be done. -/
inductive Step : Moment → Event → Moment → Prop
  | act {a : Act} {next : a.Reply → Prog} {w : World} (h : a.ready w = true) :
      Step ⟨.running (.act a next), w⟩ (.act a (a.perform w).1)
        ⟨.running (next (a.perform w).1), (a.perform w).2⟩
  | note {n : Note} {p : Prog} {w : World} :
      Step ⟨.running (.note n p), w⟩ (.note n) ⟨.running p, w⟩
  | fork {stages : List Prog} {next : List Outcome → Prog} {w : World} :
      Step ⟨.running (.fork stages next), w⟩ .quiet ⟨.forked (stages.map .running) next, w⟩
  | stage {before after : List Task} {t t' : Task} {next : List Outcome → Prog} {w w' : World}
      {e : Event} (h : Step ⟨t, w⟩ e ⟨t', w'⟩) :
      Step ⟨.forked (before ++ t :: after) next, w⟩ e ⟨.forked (before ++ t' :: after) next, w'⟩
  | join {stages : List Task} {next : List Outcome → Prog} {os : List Outcome} {w : World}
      (h : stages.mapM Task.outcome? = some os) :
      Step ⟨.forked stages next, w⟩ .quiet ⟨.running (next os), w⟩
  | giveUp {stages : List Task} {next : List Outcome → Prog} {w : World}
      (h : stages.any Task.isSpent = true) :
      Step ⟨.forked stages next, w⟩ .quiet ⟨.running .spent, w⟩
  | wait {t : Task} {w : World} {now : Nat} (h : w.clock.now ≤ now) :
      Step ⟨t, w⟩ .quiet ⟨t, { w with clock := { w.clock with now } }⟩

/-- Any number of steps. -/
def Reaches : Moment → Moment → Prop :=
  ReflTransGen fun m m' ↦ ∃ e, m.Step e m'

namespace Reaches

theorem refl (m : Moment) : m.Reaches m :=
  ReflTransGen.refl

theorem trans {m₁ m₂ m₃ : Moment} (h₁ : m₁.Reaches m₂) (h₂ : m₂.Reaches m₃) : m₁.Reaches m₃ :=
  ReflTransGen.trans h₁ h₂

theorem one {m m' : Moment} {e : Event} (h : m.Step e m') : m.Reaches m' :=
  ReflTransGen.single ⟨e, h⟩

theorem head {m₁ m₂ m₃ : Moment} {e : Event} (h : m₁.Step e m₂) (hs : m₂.Reaches m₃) :
    m₁.Reaches m₃ :=
  (one h).trans hs

/-- Steps of a stage are steps of the fork. -/
theorem stage {t t' : Task} {w w' : World} (before after : List Task)
    (next : List Outcome → Prog) (h : Reaches ⟨t, w⟩ ⟨t', w'⟩) :
    Reaches ⟨.forked (before ++ t :: after) next, w⟩ ⟨.forked (before ++ t' :: after) next, w'⟩ :=
  ReflTransGen.lift (fun m : Moment ↦ (⟨.forked (before ++ m.task :: after) next, m.world⟩ : Moment))
    (fun _ _ ⟨e, h⟩ ↦ ⟨e, .stage h⟩) _ _ h

end Reaches

end Moment

/-! ## Tasks that have ended -/

namespace Task

theorem outcome?_eq_some_iff {t : Task} {o : Outcome} : t.outcome? = some o ↔ t = .running (.done o) := by
  constructor
  · intro h
    unfold outcome? at h
    split at h <;> cases h
    rfl
  · rintro rfl
    rfl

/-- Stages have ended with these outcomes if and only if they are nothing but their ends. -/
theorem outcomes_eq_some_iff {ts : List Task} {os : List Outcome} :
    ts.mapM outcome? = some os ↔ ts = os.map fun o ↦ .running (.done o) := by
  induction ts generalizing os with
  | nil => cases os <;> simp
  | cons t ts ih =>
    simp only [List.mapM_cons, Option.bind_eq_bind, Option.bind_eq_some_iff, outcome?_eq_some_iff, ih]
    constructor
    · rintro ⟨o, rfl, os, rfl, ⟨⟩⟩
      rfl
    · intro h
      obtain ⟨o, os, rfl, rfl, rfl⟩ := List.map_eq_cons_iff.1 h.symm
      exact ⟨o, rfl, os, rfl, rfl⟩

end Task

/-! ## The schedule makes steps -/

theorem Prog.advance_reaches (moved : Bool) (n : Nat) (p : Prog) (w : World) :
    Moment.Reaches ⟨.running p, w⟩
      ⟨.running (p.advance moved n w).1, (p.advance moved n w).2.1⟩ := by
  fun_induction Prog.advance moved n p w with
  | case1 moved n a next w h r w' hr ih =>
    refine .head (.act h) ?_
    rw [hr]
    exact ih
  | case2 moved n a next w h => exact .refl _
  | case3 moved n note p w ih => exact .head .note ih
  | case4 => exact .refl _

namespace Task

mutual

theorem round_reaches : ∀ (t : Task) (w : World),
    Moment.Reaches ⟨t, w⟩ ⟨(t.round w).1, (t.round w).2.1⟩
  | running p, w => by
    have h := p.advance_reaches false turn w
    rw [round]
    split
    next stages next w' _ hr =>
      rw [hr] at h
      exact h.trans (.one .fork)
    next p' w' moved hr hp =>
      rw [hp] at h
      exact h
  | forked stages next, w => by
    have h := rounds_reaches [] stages next w
    rw [round]
    generalize rounds stages w = r at h
    obtain ⟨ts, w', moved⟩ := r
    dsimp only
    split
    next hs => exact h.trans (.one (.giveUp hs))
    next =>
      split
      next os ho => exact h.trans (.one (.join ho))
      next => exact h

theorem rounds_reaches : ∀ (before stages : List Task) (next : List Outcome → Prog) (w : World),
    Moment.Reaches ⟨.forked (before ++ stages) next, w⟩
      ⟨.forked (before ++ (rounds stages w).1) next, (rounds stages w).2.1⟩
  | before, [], next, w => by
    rw [rounds]
    exact .refl _
  | before, t :: ts, next, w => by
    have h := (round_reaches t w).stage before ts next
    have hs := rounds_reaches (before ++ [(t.round w).1]) ts next (t.round w).2.1
    rw [List.append_assoc, List.append_assoc] at hs
    rw [rounds]
    exact h.trans hs

end

theorem drive_reaches (n : Nat) (t : Task) (w : World) :
    ∃ t', Moment.Reaches ⟨t, w⟩ ⟨t', (drive n t w).2⟩ ∧
      ∀ o, (drive n t w).1 = .ended o → t' = running (.done o) := by
  induction n generalizing t w with
  | zero => exact ⟨t, .refl _, fun o h ↦ by simp [drive] at h⟩
  | succ n ih =>
    have h := round_reaches t w
    rw [drive]
    split
    next o w' _ hr =>
      rw [hr] at h
      refine ⟨_, h, fun o' ho ↦ ?_⟩
      rw [Halt.ended.inj ho]
    next w' _ hr =>
      rw [hr] at h
      exact ⟨_, h, fun o ho ↦ by cases ho⟩
    next t' w' _ _ hr =>
      rw [hr] at h
      obtain ⟨t'', hs, hd⟩ := ih t' w'
      exact ⟨t'', h.trans hs, hd⟩
    next t' w' _ _ hr =>
      rw [hr] at h
      split
      next due hdue =>
        obtain ⟨t'', hs, hd⟩ :=
          ih t' { w' with clock := { w'.clock with now := max w'.clock.now due } }
        exact ⟨t'', h.trans (.head (.wait (Nat.le_max_left _ _)) hs), hd⟩
      next => exact ⟨_, h, fun o ho ↦ by cases ho⟩

end Task

/-- What the schedule makes of a program is a run of it. -/
theorem Prog.run_reaches (n : Nat) (p : Prog) (w : World) :
    ∃ t, Moment.Reaches ⟨.running p, w⟩ ⟨t, (p.run n w).2⟩ ∧
      ∀ o, (p.run n w).1 = .ended o → t = .running (.done o) :=
  Task.drive_reaches n (.running p) w

/-! ## The life of an evaluator -/

/-- What is done to the world from outside: an act, or anything that leaves the store alone.  The first
covers whoever holds on to namespaces and variables, the second feeds, files, modules, the interrupt and
the passing of time. -/
inductive World.Touch : World → World → Prop
  | act (a : Act) (w : World) : Touch w (a.perform w).2
  | around {w w' : World} (h : w'.store = w.store) : Touch w w'

namespace Moment

/-- What can happen next in the life of an evaluator. -/
inductive Next : Moment → Moment → Prop
  | step {m m' : Moment} {e : Event} (h : m.Step e m') : Next m m'
  | touch {t : Task} {w w' : World} (h : w.Touch w') : Next ⟨t, w⟩ ⟨t, w'⟩
  /-- A new program is run -/
  | start {t t' : Task} {w : World} : Next ⟨t, w⟩ ⟨t', w⟩

/-- Any number of things that happen one after another. -/
def Run : Moment → Moment → Prop :=
  ReflTransGen Next

theorem Reaches.run {m m' : Moment} (h : m.Reaches m') : m.Run m' :=
  ReflTransGen.mono (fun _ _ ⟨_, h⟩ ↦ .step h) _ _ h

theorem Run.trans {m₁ m₂ m₃ : Moment} (h₁ : m₁.Run m₂) (h₂ : m₂.Run m₃) : m₁.Run m₃ :=
  ReflTransGen.trans h₁ h₂

theorem Run.one {m m' : Moment} (h : m.Next m') : m.Run m' :=
  ReflTransGen.single h

end Moment

namespace World

@[simp] theorem supply_store (w : World) (feed : Feed) : (w.supply feed).2.store = w.store := by
  cases hv : feed.values <;> cases hb : feed.bytes <;>
    simp [supply, supplyValues, supplyBytes, hv, hb]

@[simp] theorem record_store (w : World) : w.record.2.store = w.store :=
  rfl

/-- Being observed from outside is a run. -/
theorem observe_run (t : Task) (w : World) (feed : Feed) (printing : Bool)
    (f : Wiring → Comp Unit) :
    ∃ t', Moment.Run ⟨t, w⟩ ⟨t', (w.observe feed printing f).2⟩ := by
  unfold observe
  generalize patience = n
  obtain ⟨t', h, -⟩ := (f ⟨(w.supply feed).1, (w.supply feed).2.record.1.outlet printing,
    (w.supply feed).2.record.2.record.1.outlet printing⟩).program.run_reaches n
      (w.supply feed).2.record.2.record.2
  have hs : (w.supply feed).2.record.2.record.2.store = w.store := by simp
  exact ⟨t', (Moment.Run.one (.touch (.around hs))).trans ((Moment.Run.one .start).trans h.run)⟩

theorem eval_run (t : Task) (w : World) (name code : String) (feed : Feed) (printing : Bool) :
    ∃ t', Moment.Run ⟨t, w⟩ ⟨t', (w.eval name code feed printing).2⟩ := by
  rw [eval]
  exact w.observe_run t feed printing _

theorem evalFile_run (t : Task) (w : World) (path : String) (feed : Feed) (printing : Bool) :
    ∃ t', Moment.Run ⟨t, w⟩ ⟨t', (w.evalFile path feed printing).2⟩ := by
  rw [evalFile]
  exact w.observe_run t feed printing _

end World

end ValueShell
