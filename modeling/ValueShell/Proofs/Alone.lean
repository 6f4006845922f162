import ValueShell.Proofs.Runs

/-!
# Running alone

A program that forks nothing and never has to wait has just one way to run, and `Prog.Goes` follows it, act by
act.  What it arrives at is what every schedule arrives at (`Prog.Goes.run`).

Programs are put together from computations, and what those do alone is said by three relations:

* `Comp.Gives`: the computation gives a value, and leaves a world.
* `Comp.Fails`: the computation fails, and leaves a world.
* `Comp.Offers`: the computation comes to putting a value on a sink, with which it is at its end.
* `Comp.Delivers`: the same, but notes may come behind it.  Whether the sink takes the value is left open; if it does
  then `Comp.Delivers.gives` goes on from there.

Each has rules for the ways to put computations together.
-/

set_option autoImplicit false

namespace ValueShell

variable {α β : Type}

/-- A program run by itself does `n` acts, none of which has to wait, and is then another program in another
world. -/
inductive Prog.Goes : Nat → Prog → World → Prog → World → Prop
  | refl {p : Prog} {w : World} : Goes 0 p w p w
  | act {n : Nat} {a : Act} {next : a.Reply → Prog} {w w' : World} {p' : Prog} (h : a.ready w = true)
      (hs : Goes n (next (a.perform w).1) (a.perform w).2 p' w') : Goes (n + 1) (.act a next) w p' w'
  | note {n : Nat} {note : Note} {p p' : Prog} {w w' : World} (hs : Goes n p w p' w') :
      Goes (n + 1) (.note note p) w p' w'

theorem Prog.advance_done (moved : Bool) (n : Nat) (o : Outcome) (w : World) :
    (Prog.done o).advance moved n w = (.done o, w, moved) := by
  cases n <;> rfl

namespace Prog.Goes

variable {m n : Nat} {p p₁ p₂ : Prog} {w w₁ w₂ : World}

theorem trans (h₁ : Goes m p w p₁ w₁) (h₂ : Goes n p₁ w₁ p₂ w₂) : Goes (m + n) p w p₂ w₂ := by
  induction h₁ with
  | refl => rwa [Nat.zero_add]
  | act h _ ih =>
    rw [Nat.add_right_comm]
    exact .act h (ih h₂)
  | note _ ih =>
    rw [Nat.add_right_comm]
    exact .note (ih h₂)

/-- What takes `m + n` acts is somewhere after the first `m` of them. -/
theorem split (m : Nat) (h : Goes (m + n) p w p₂ w₂) :
    ∃ p₁ w₁, Goes m p w p₁ w₁ ∧ Goes n p₁ w₁ p₂ w₂ := by
  induction m generalizing p w with
  | zero => exact ⟨p, w, .refl, by rwa [Nat.zero_add] at h⟩
  | succ m ih =>
    rw [Nat.add_right_comm] at h
    cases h with
    | act hready hs =>
      obtain ⟨p₁, w₁, h₁, h₂⟩ := ih hs
      exact ⟨p₁, w₁, .act hready h₁, h₂⟩
    | note hs =>
      obtain ⟨p₁, w₁, h₁, h₂⟩ := ih hs
      exact ⟨p₁, w₁, .note h₁, h₂⟩

/-- There is just one way to go. -/
theorem unique (h₁ : Goes n p w p₁ w₁) (h₂ : Goes n p w p₂ w₂) : p₁ = p₂ ∧ w₁ = w₂ := by
  induction h₁ with
  | refl =>
    cases h₂
    exact ⟨rfl, rfl⟩
  | act _ _ ih =>
    cases h₂ with
    | act _ hs => exact ih hs
  | note _ ih =>
    cases h₂ with
    | note hs => exact ih hs

/-- Nothing comes after the end. -/
theorem le_of_done {o : Outcome} (h : Goes m p w p₁ w₁) (hdone : Goes n p w (.done o) w₂) : m ≤ n := by
  induction h generalizing n with
  | refl => exact Nat.zero_le n
  | act _ _ ih =>
    cases hdone with
    | act _ hs => exact Nat.succ_le_succ (ih hs)
  | note _ ih =>
    cases hdone with
    | note hs => exact Nat.succ_le_succ (ih hs)

theorem advance (h : Goes n p w p₁ w₁) (moved : Bool) (m : Nat) :
    p.advance moved (n + m) w = p₁.advance (moved || 0 < n) m w₁ := by
  induction h generalizing moved with
  | refl => simp
  | act hready _ ih =>
    rw [Nat.add_right_comm, Prog.advance, if_pos hready]
    dsimp only
    rw [ih]
    simp
  | note _ ih =>
    rw [Nat.add_right_comm, Prog.advance, ih]
    simp

/-- A round of a program that has more acts to do than fit into a turn. -/
theorem round_of_lt (h : Goes (Task.turn + (n + 1)) p w p₂ w₂) :
    ∃ p₁ w₁, (Task.running p).round w = (.running p₁, w₁, true) ∧ Goes (n + 1) p₁ w₁ p₂ w₂ := by
  obtain ⟨p₁, w₁, h₁, h₂⟩ := split _ h
  have hadvance : p.advance false Task.turn w = (p₁, w₁, true) := by
    have hs := h₁.advance false 0
    rw [Nat.add_zero] at hs
    rw [hs, Prog.advance.eq_def]
    simp [Task.turn]
  refine ⟨p₁, w₁, ?_, h₂⟩
  rw [Task.round, hadvance]
  cases h₂ <;> rfl

/-- A round of a program that gets to its end within a turn. -/
theorem round_of_le {o : Outcome} (h : Goes n p w (.done o) w₁) (hn : n ≤ Task.turn) :
    ∃ moved, (Task.running p).round w = (.running (.done o), w₁, moved) := by
  have hadvance := h.advance false (Task.turn - n)
  rw [Nat.add_sub_cancel' hn, advance_done] at hadvance
  rw [Task.round, hadvance]
  exact ⟨_, rfl⟩

/-- **A program that gets to its end alone ends there** in every run that is given enough rounds. -/
theorem run {o : Outcome} (h : Goes n p w (.done o) w₁) {rounds : Nat} (hn : n < rounds) :
    p.run rounds w = (.ended o, w₁) := by
  rw [Prog.run]
  induction rounds generalizing n p w with
  | zero => cases hn
  | succ rounds ih =>
    rw [Task.drive]
    by_cases hle : n ≤ Task.turn
    · obtain ⟨moved, hround⟩ := h.round_of_le hle
      rw [hround]
    · obtain ⟨k, rfl⟩ : ∃ k, n = Task.turn + (k + 1) := ⟨n - Task.turn - 1, by omega⟩
      obtain ⟨p₁, w₁, hround, hs⟩ := h.round_of_lt
      have hdrive := ih hs (by rw [Task.turn] at hn; omega)
      rw [hround]
      cases hs <;> exact hdrive

end Prog.Goes

/-! ## Computations that give a value -/

/-- Run by itself in a world, the computation gives a value and leaves another world. -/
def Comp.Gives (m : Comp α) (w : World) (a : α) (w' : World) : Prop :=
  ∃ n, ∀ k, Prog.Goes n (m k) w (k (.ok a)) w'

namespace Comp.Gives

variable {m : Comp α} {f : α → Comp β} {a : α} {b : β} {w w₁ w₂ : World}

theorem pure (a : α) (w : World) : Gives (Pure.pure a) w a w :=
  ⟨0, fun _ ↦ .refl⟩

theorem bind (h : m.Gives w a w₁) (hs : (f a).Gives w₁ b w₂) : (m >>= f).Gives w b w₂ := by
  obtain ⟨n, hn⟩ := h
  obtain ⟨n', hn'⟩ := hs
  exact ⟨n + n', fun k ↦ (hn _).trans (hn' k)⟩

theorem act {a : Act} (h : a.ready w = true) :
    (Comp.act a).Gives w (a.perform w).1 (a.perform w).2 :=
  ⟨1, fun _ ↦ .act h .refl⟩

theorem note (n : Note) (w : World) : (Comp.note n).Gives w () w :=
  ⟨1, fun _ ↦ .note .refl⟩

end Comp.Gives

/-! ## Computations that fail -/

/-- Run by itself in a world, the computation fails and leaves another world. -/
def Comp.Fails (m : Comp α) (w : World) (e : Failure) (w' : World) : Prop :=
  ∃ n, ∀ k, Prog.Goes n (m k) w (k (.error e)) w'

namespace Comp.Fails

variable {m : Comp α} {f : α → Comp β} {a : α} {e : Failure} {w w₁ w₂ : World}

theorem fail (e : Failure) (w : World) : Fails (Comp.fail e : Comp α) w e w :=
  ⟨0, fun _ ↦ .refl⟩

/-- What comes behind a failure is left out. -/
theorem bind_left (h : m.Fails w e w₁) : (m >>= f).Fails w e w₁ := by
  obtain ⟨n, hn⟩ := h
  exact ⟨n, fun _ ↦ hn _⟩

theorem bind (h : m.Gives w a w₁) (hs : (f a).Fails w₁ e w₂) : (m >>= f).Fails w e w₂ := by
  obtain ⟨n, hn⟩ := h
  obtain ⟨n', hn'⟩ := hs
  exact ⟨n + n', fun k ↦ (hn _).trans (hn' k)⟩

end Comp.Fails

/-! ## Computations that come to a value -/

/-- Run by itself in a world, the computation comes to putting a value on a sink, in another world, and is at
its end when the sink takes it. -/
def Comp.Offers (m : Comp Unit) (w : World) (sink : ValueSink) (v : Value) (w' : World) : Prop :=
  ∃ n, ∀ k, ∃ next, Prog.Goes n (m k) w (.act (.put sink v) next) w' ∧ next (.ok ()) = k (.ok ())

namespace Comp.Offers

variable {m : Comp α} {f : α → Comp Unit} {m₁ m₂ : Comp Unit} {a : α} {w w₁ w₂ : World}
  {sink : ValueSink} {v : Value}

theorem bind (h : m.Gives w a w₁) (hs : (f a).Offers w₁ sink v w₂) : (m >>= f).Offers w sink v w₂ := by
  obtain ⟨n, hn⟩ := h
  obtain ⟨n', hn'⟩ := hs
  refine ⟨n + n', fun k ↦ ?_⟩
  obtain ⟨next, hgoes, hnext⟩ := hn' k
  exact ⟨next, (hn _).trans hgoes, hnext⟩

/-- Nothing is done any more after the value has been taken. -/
theorem bind_last {f : Unit → Comp Unit} (h : m₁.Offers w sink v w₁) (hs : f () = Pure.pure ()) :
    (m₁ >>= f).Offers w sink v w₁ := by
  obtain ⟨n, hn⟩ := h
  refine ⟨n, fun k ↦ (hn _).imp fun next ⟨hgoes, hnext⟩ ↦ ⟨hgoes, ?_⟩⟩
  rw [hnext]
  change f () k = k (.ok ())
  rw [hs]
  rfl

/-- A computation comes to one value only, where sinks take what they are offered. -/
theorem unique {sink' : ValueSink} {v' : Value} (h : m₁.Offers w sink v w₁) (h' : m₁.Offers w sink' v' w₂)
    (hready : w₁.putReady sink = true) (htaken : (w₁.put sink v).1 = .ok ()) (hready' : w₂.putReady sink' = true)
    (htaken' : (w₂.put sink' v').1 = .ok ()) : v = v' := by
  have hdone {sink : ValueSink} {v : Value} {w₁ : World} {n : Nat} {next : Except Reason Unit → Prog} {p : Prog}
      (hready : w₁.putReady sink = true) (htaken : (w₁.put sink v).1 = .ok ())
      (hgoes : Prog.Goes n p w (.act (.put sink v) next) w₁) (hnext : next (.ok ()) = .done (.ok ())) :
      Prog.Goes (n + 1) p w (.done (.ok ())) (w₁.put sink v).2 := by
    refine hgoes.trans (.act hready ?_)
    change Prog.Goes 0 (next (w₁.put sink v).1) _ _ _
    rw [htaken, hnext]
    exact .refl
  obtain ⟨n, hn⟩ := h
  obtain ⟨n', hn'⟩ := h'
  obtain ⟨next, hgoes, hnext⟩ := hn fun _ ↦ .done (.ok ())
  obtain ⟨next', hgoes', hnext'⟩ := hn' fun _ ↦ .done (.ok ())
  have hall := hdone hready htaken hgoes hnext
  have hall' := hdone hready' htaken' hgoes' hnext'
  have hle : n + 1 ≤ n' + 1 := hall.le_of_done hall'
  have hle' : n' + 1 ≤ n + 1 := hall'.le_of_done hall
  obtain rfl : n = n' := by omega
  have hsame := (hgoes.unique hgoes').1
  cases hsame
  rfl

end Comp.Offers

/-- Run by itself in a world, the computation comes to putting a value on a sink, in another world, and leaves only
notes when the sink takes it. -/
def Comp.Delivers (m : Comp Unit) (w : World) (sink : ValueSink) (v : Value) (w' : World) : Prop :=
  ∃ n notes, ∀ k, ∃ next, Prog.Goes n (m k) w (.act (.put sink v) next) w' ∧
    ∀ w₁, Prog.Goes notes (next (.ok ())) w₁ (k (.ok ())) w₁

namespace Comp.Delivers

variable {m : Comp α} {f : α → Comp Unit} {m₁ m₂ : Comp Unit} {a : α} {w w₁ w₂ : World}
  {sink : ValueSink} {v : Value}

theorem of_offers (h : m₁.Offers w sink v w₁) : m₁.Delivers w sink v w₁ := by
  obtain ⟨n, hn⟩ := h
  refine ⟨n, 0, fun k ↦ ?_⟩
  obtain ⟨next, hgoes, hnext⟩ := hn k
  exact ⟨next, hgoes, fun w₁ ↦ by rw [hnext]; exact .refl⟩

theorem bind (h : m.Gives w a w₁) (hs : (f a).Delivers w₁ sink v w₂) : (m >>= f).Delivers w sink v w₂ := by
  obtain ⟨n, hn⟩ := h
  obtain ⟨n', notes, hn'⟩ := hs
  refine ⟨n + n', notes, fun k ↦ ?_⟩
  obtain ⟨next, hgoes, hnext⟩ := hn' k
  exact ⟨next, (hn _).trans hgoes, hnext⟩

/-- Nothing is done any more after the value has been taken. -/
theorem bind_last {f : Unit → Comp Unit} (h : m₁.Delivers w sink v w₁) (hs : f () = Pure.pure ()) :
    (m₁ >>= f).Delivers w sink v w₁ := by
  obtain ⟨n, notes, hn⟩ := h
  refine ⟨n, notes, fun k ↦ (hn _).imp fun next ⟨hgoes, hnext⟩ ↦ ⟨hgoes, fun w₁ ↦ ?_⟩⟩
  have hlast : f () k = k (.ok ()) := by
    rw [hs]
    rfl
  exact hlast ▸ hnext w₁

theorem mapFailure (h : m₁.Delivers w sink v w₁) (g : Failure → Failure) :
    (m₁.mapFailure g).Delivers w sink v w₁ := by
  obtain ⟨n, notes, hn⟩ := h
  exact ⟨n, notes, fun _ ↦ hn _⟩

theorem noting (h : m₁.Delivers w sink v w₁) (note : Outcome → Note) : (m₁.noting note).Delivers w sink v w₁ := by
  obtain ⟨n, notes, hn⟩ := h
  refine ⟨n, notes + 1, fun k ↦ (hn _).imp fun next ⟨hgoes, hnext⟩ ↦ ⟨hgoes, fun w₁ ↦ ?_⟩⟩
  exact (hnext w₁).trans (.note .refl)

/-- The value is taken, if the sink is ready for it and does not refuse it. -/
theorem gives (h : m₁.Delivers w sink v w₁) (hready : w₁.putReady sink = true)
    (htaken : (w₁.put sink v).1 = .ok ()) : m₁.Gives w () (w₁.put sink v).2 := by
  obtain ⟨n, notes, hn⟩ := h
  refine ⟨n + (notes + 1), fun k ↦ ?_⟩
  obtain ⟨next, hgoes, hnext⟩ := hn k
  refine hgoes.trans (.act hready ?_)
  change Prog.Goes notes (next (w₁.put sink v).1) (w₁.put sink v).2 _ _
  rw [htaken]
  exact hnext _

end Comp.Delivers

end ValueShell
