import ValueShell.Proofs.Alone
import ValueShell.Proofs.Dialect

/-!
# Running alone, with sleeps

`Prog.Goes` stops where a program has to wait.  `Prog.Comes` goes on where it only sleeps: time moves on to when the
timer goes off, as it does in any schedule with nothing else to do.  What a program comes to in this way is what it
comes to when it is run (`Prog.Comes.run`).  `Prog.MakesOnly` says of a program that it brings in no code but that of
a dialect.
-/

set_option autoImplicit false

namespace ValueShell

/-- Time moves on to when a timer goes off. -/
def World.sleepUntil (w : World) (due : Nat) : World :=
  { w with clock := { w.clock with now := max w.clock.now due } }

/-- The program run by itself comes to another program in another world.  It never waits but for timers, and all
code that it brings in is in the dialect. -/
inductive Prog.Comes (d : Dialect) : Prog → World → Prog → World → Prop
  | refl {p : Prog} {w : World} : Comes d p w p w
  | act {a : Act} {next : a.Reply → Prog} {w w' : World} {p' : Prog} (h : a.ready w = true)
      (he : (Event.act a (a.perform w).1).isIn d = true)
      (hs : Comes d (next (a.perform w).1) (a.perform w).2 p' w') : Comes d (.act a next) w p' w'
  | note {note : Note} {p p' : Prog} {w w' : World} (hs : Comes d p w p' w') : Comes d (.note note p) w p' w'
  | sleep {t : Timer} {line due : Nat} {next : Bool → Prog} {w w' : World} {p' : Prog}
      (h : (Act.awaitTimer t line).ready w = false) (hdue : t.due = some due)
      (hs : Comes d (.act (.awaitTimer t line) next) (w.sleepUntil due) p' w') :
      Comes d (.act (.awaitTimer t line) next) w p' w'

/-! ## Waiting for a timer -/

theorem Prog.advance_waiting {a : Act} {next : a.Reply → Prog} {w : World} (h : a.ready w = false) (moved : Bool)
    (n : Nat) : (Prog.act a next).advance moved n w = (.act a next, w, moved) := by
  cases n with
  | zero => rfl
  | succ n =>
    rw [advance, h]
    rfl

namespace Prog.Goes

variable {n : Nat} {p : Prog} {w w₁ : World} {t : Timer} {line due : Nat} {next : Bool → Prog}

/-- A round of a program that gets to waiting within a turn. -/
theorem round_waiting (h : Goes n p w (.act (.awaitTimer t line) next) w₁)
    (hwait : (Act.awaitTimer t line).ready w₁ = false) (hn : n ≤ Task.turn) :
    (Task.running p).round w = (Task.running (.act (.awaitTimer t line) next), w₁, decide (0 < n)) := by
  have hadvance := h.advance false (Task.turn - n)
  rw [Nat.add_sub_cancel' hn, advance_waiting hwait] at hadvance
  rw [Task.round, hadvance]
  rfl

/-- A program that gets to waiting for a timer goes on when it goes off. -/
theorem run_sleeping (h : Goes n p w (.act (.awaitTimer t line) next) w₁)
    (hwait : (Act.awaitTimer t line).ready w₁ = false) (hdue : t.due = some due) :
    ∃ k, ∀ rounds, p.run (rounds + k) w = (Prog.act (.awaitTimer t line) next).run rounds (w₁.sleepUntil due) := by
  have hsleep (rounds : Nat) : (Prog.act (.awaitTimer t line) next).run (rounds + 1) w₁ =
      (Prog.act (.awaitTimer t line) next).run rounds (w₁.sleepUntil due) := by
    have hround := (refl (p := .act (.awaitTimer t line) next)).round_waiting hwait (Nat.zero_le _)
    have hnext : (Task.running (.act (.awaitTimer t line) next)).nextDue? = some due := by
      rw [Task.nextDue?, hdue]
    rw [Prog.run, Task.drive, hround, decide_eq_false (Nat.lt_irrefl 0)]
    dsimp only
    rw [hnext]
    rfl
  induction n using Nat.strongRecOn generalizing p w with
  | ind n ih =>
    by_cases hle : n ≤ Task.turn
    · have hround := h.round_waiting hwait hle
      by_cases hn : 0 < n
      · refine ⟨2, fun rounds ↦ (?_ : p.run (rounds + 1 + 1) w = _).trans (hsleep rounds)⟩
        rw [Prog.run, Task.drive, hround, decide_eq_true hn]
        rfl
      · obtain rfl : n = 0 := by omega
        cases h
        exact ⟨1, hsleep⟩
    · obtain ⟨m, rfl⟩ : ∃ m, n = Task.turn + (m + 1) := ⟨n - Task.turn - 1, by omega⟩
      obtain ⟨p₁, w', hround, hs⟩ := h.round_of_lt
      obtain ⟨k, hk⟩ := ih (m + 1) (by rw [Task.turn]; omega) hs
      refine ⟨k + 1, fun rounds ↦ Eq.trans ?_ (hk rounds)⟩
      rw [← Nat.add_assoc, Prog.run, Task.drive, hround]
      cases hs <;> rfl

end Prog.Goes

/-! ## Runs with sleeps -/

namespace Prog.Comes

variable {d : Dialect} {p p₁ p₂ : Prog} {w w₁ w₂ : World}

theorem trans (h₁ : Comes d p w p₁ w₁) (h₂ : Comes d p₁ w₁ p₂ w₂) : Comes d p w p₂ w₂ := by
  induction h₁ with
  | refl => exact h₂
  | act h he _ ih => exact .act h he (ih h₂)
  | note _ ih => exact .note (ih h₂)
  | sleep h hdue _ ih => exact .sleep h hdue (ih h₂)

/-- Up to its end or to its next sleep a program goes without waiting, and after the sleep it is run to its end. -/
theorem goes {o : Outcome} (h : Comes d p w (.done o) w₂) :
    (∃ n, Goes n p w (.done o) w₂) ∨
      ∃ n t line next w₁ due, Goes n p w (.act (.awaitTimer t line) next) w₁ ∧
        (Act.awaitTimer t line).ready w₁ = false ∧ t.due = some due ∧
        ∃ least, ∀ rounds ≥ least,
          (Prog.act (.awaitTimer t line) next).run rounds (w₁.sleepUntil due) = (.ended o, w₂) := by
  generalize hp : Prog.done o = p' at h
  induction h with
  | refl =>
    subst hp
    exact .inl ⟨0, .refl⟩
  | act h _ _ ih =>
    subst hp
    rcases ih rfl with ⟨n, hgoes⟩ | ⟨n, t, line, next, w₁, due, hgoes, hrest⟩
    · exact .inl ⟨n + 1, .act h hgoes⟩
    · exact .inr ⟨n + 1, t, line, next, w₁, due, .act h hgoes, hrest⟩
  | note _ ih =>
    subst hp
    rcases ih rfl with ⟨n, hgoes⟩ | ⟨n, t, line, next, w₁, due, hgoes, hrest⟩
    · exact .inl ⟨n + 1, .note hgoes⟩
    · exact .inr ⟨n + 1, t, line, next, w₁, due, .note hgoes, hrest⟩
  | @sleep t line due next w _ _ hwait hdue _ ih =>
    subst hp
    refine .inr ⟨0, t, line, next, w, due, .refl, hwait, hdue, ?_⟩
    rcases ih rfl with ⟨n, hgoes⟩ | ⟨n, t', line', next', w₁, due', hgoes, hwait', hdue', least, hleast⟩
    · exact ⟨n + 1, fun rounds hrounds ↦ hgoes.run (Nat.lt_of_succ_le hrounds)⟩
    · obtain ⟨k, hk⟩ := hgoes.run_sleeping hwait' hdue'
      refine ⟨least + k, fun rounds hrounds ↦ ?_⟩
      obtain ⟨more, rfl⟩ : ∃ more, rounds = more + k := ⟨rounds - k, by omega⟩
      exact (hk more).trans (hleast more (by omega))

/-- **A program that comes to its end alone ends there** in every run that is given enough rounds. -/
theorem run {o : Outcome} (h : Comes d p w (.done o) w₂) :
    ∃ least, ∀ rounds ≥ least, p.run rounds w = (.ended o, w₂) := by
  rcases h.goes with ⟨n, hgoes⟩ | ⟨n, t, line, next, w₁, due, hgoes, hwait, hdue, least, hleast⟩
  · exact ⟨n + 1, fun rounds hrounds ↦ hgoes.run (Nat.lt_of_succ_le hrounds)⟩
  · obtain ⟨k, hk⟩ := hgoes.run_sleeping hwait hdue
    refine ⟨least + k, fun rounds hrounds ↦ ?_⟩
    obtain ⟨more, rfl⟩ : ∃ more, rounds = more + k := ⟨rounds - k, by omega⟩
    exact (hk more).trans (hleast more (by omega))

end Prog.Comes

/-! ## What sources are made -/

/-- Run by itself, the program makes sources only of texts in the dialect. -/
def Prog.MakesOnly (d : Dialect) (p : Prog) (w : World) : Prop :=
  ∀ name code path next w', Comes d p w (.act (.newSource name code path) next) w' → d.has code = true

namespace Prog.MakesOnly

variable {d : Dialect} {p : Prog} {w : World}

theorem spent : MakesOnly d .spent w :=
  fun _ _ _ _ _ hcomes ↦ nomatch hcomes

theorem done {o : Outcome} : MakesOnly d (.done o) w :=
  fun _ _ _ _ _ hcomes ↦ nomatch hcomes

theorem note {n : Note} (h : p.MakesOnly d w) : MakesOnly d (.note n p) w := by
  intro name code path next w' hcomes
  cases hcomes with
  | note hcomes => exact h _ _ _ _ _ hcomes

theorem act {a : Act} {next : a.Reply → Prog} (hready : a.ready w = true)
    (ha : ∀ name code path, a = .newSource name code path → d.has code = true)
    (h : (next (a.perform w).1).MakesOnly d (a.perform w).2) : MakesOnly d (.act a next) w := by
  intro name code path next' w' hcomes
  cases hcomes with
  | refl => exact ha name code path rfl
  | act _ _ hcomes => exact h _ _ _ _ _ hcomes
  | sleep hwait => exact absurd hready (by simp [hwait])

end Prog.MakesOnly

end ValueShell
