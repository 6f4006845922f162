import Mathlib.Logic.Function.Basic
import ValueShell.World.Act

/-!
# Those who share an interrupt

Any number of callers trigger an interrupt, arm it again and take its line, in any order.  Triggering is two moves,
and others may come between them.  `Interrupt.Run` is a number of such moves, in their order.

* **Lines** (`Run.dead`): a line that is dead stays dead, and every line that has been taken is dead when one more
  trigger is complete.
* **Moves since the interrupt was armed** (`Armed`): the flag is up if a trigger has begun since, and the line is dead
  if one has been completed since.
* **Agreement** (`flag_agrees_iff`): when no trigger is under way, flag and line agree, unless the interrupt was last
  armed in the middle of a trigger and none has begun since.  `flag_overtaken` has a run in which it was.
-/

set_option autoImplicit false

namespace ValueShell

namespace Interrupt

/-- Flag and line agree: the flag is up just if a line that is taken now is dead. -/
def Agrees (i : Interrupt) : Prop :=
  i.flag = true ↔ i.dead i.line = true

/-- The line that is handed out is dead just if it has been cut. -/
theorem dead_line (i : Interrupt) : i.dead i.line = !i.live := by
  rw [dead]
  simp

theorem agrees_iff {i : Interrupt} : i.Agrees ↔ i.flag = !i.live := by
  rw [Agrees, dead_line]
  cases i.flag <;> cases i.live <;> decide

theorem reset_flag (i : Interrupt) : i.reset.flag = false := by
  rw [reset]
  split <;> rfl

theorem reset_live (i : Interrupt) : i.reset.live = true := by
  rw [reset]
  split
  · assumption
  · rfl

theorem line_le_reset (i : Interrupt) : i.line ≤ i.reset.line := by
  rw [reset]
  split
  · exact Nat.le_refl _
  · exact Nat.le_succ _

/-- A line that is dead stays so when the interrupt is armed again. -/
theorem dead_reset {i : Interrupt} {line : Nat} (hle : line ≤ i.line) (h : i.dead line = true) :
    i.reset.dead line = true := by
  rw [reset]
  split
  · exact h
  · simpa [dead] using Nat.ne_of_lt (Nat.lt_succ_of_le hle)

/-! ## Callers -/

/-- An interrupt, and the callers that have raised its flag and are still to cut its line. -/
structure Shared (κ : Type) where
  interrupt : Interrupt
  cutting : κ → Bool

/-- What a caller does to an interrupt. -/
inductive Move (κ : Type) where
  /-- Begins to trigger it -/
  | raised (k : κ)
  /-- Completes a trigger -/
  | cut (k : κ)
  /-- Arms it again -/
  | reset (k : κ)
  /-- Takes its line -/
  | taken (k : κ) (line : Nat)

namespace Shared

variable {κ : Type}

/-- An interrupt that nobody has touched. -/
def fresh : Shared κ :=
  ⟨.armed, fun _ ↦ false⟩

/-- No trigger is under way. -/
def Quiet (s : Shared κ) : Prop :=
  ∀ k, s.cutting k = false

variable [DecidableEq κ]

/-- The caller begins to trigger. -/
def raise (s : Shared κ) (k : κ) : Shared κ :=
  ⟨s.interrupt.raiseFlag, Function.update s.cutting k true⟩

/-- The caller completes its trigger. -/
def cut (s : Shared κ) (k : κ) : Shared κ :=
  ⟨s.interrupt.cutLine, Function.update s.cutting k false⟩

/-- The interrupt is armed again. -/
def reset (s : Shared κ) : Shared κ :=
  { s with interrupt := s.interrupt.reset }

/-- One move.  A caller in the middle of a trigger does nothing but complete it. -/
inductive Step : Shared κ → Move κ → Shared κ → Prop where
  | raise {s : Shared κ} {k : κ} (hfree : s.cutting k = false) : Step s (.raised k) (s.raise k)
  | cut {s : Shared κ} {k : κ} (hcutting : s.cutting k = true) : Step s (.cut k) (s.cut k)
  | reset {s : Shared κ} {k : κ} (hfree : s.cutting k = false) : Step s (.reset k) s.reset
  | take {s : Shared κ} {k : κ} (hfree : s.cutting k = false) : Step s (.taken k s.interrupt.line) s

/-- Moves one after another. -/
inductive Run : Shared κ → List (Move κ) → Shared κ → Prop where
  | nil {s : Shared κ} : Run s [] s
  | snoc {s s' s'' : Shared κ} {moves : List (Move κ)} {m : Move κ} (hrun : Run s moves s') (hstep : s'.Step m s'') :
    Run s (moves ++ [m]) s''

variable {s s' s₀ s₁ s₂ s₃ : Shared κ} {m : Move κ} {moves : List (Move κ)} {line : Nat}

theorem Run.one (h : s.Step m s') : Run s [m] s' :=
  .snoc .nil h

/-! ## Lines -/

theorem Step.line_le (h : s.Step m s') : s.interrupt.line ≤ s'.interrupt.line := by
  cases h with
  | raise | cut | take => exact Nat.le_refl _
  | reset => exact line_le_reset _

theorem Step.dead (h : s.Step m s') (hle : line ≤ s.interrupt.line) (hdead : s.interrupt.dead line = true) :
    s'.interrupt.dead line = true := by
  cases h with
  | raise | take => exact hdead
  | cut => exact Bool.or_true _
  | reset => exact dead_reset hle hdead

theorem Run.line_le (h : Run s moves s') : s.interrupt.line ≤ s'.interrupt.line := by
  induction h with
  | nil => exact Nat.le_refl _
  | snoc _ hstep ih => exact Nat.le_trans ih hstep.line_le

/-- A line that is dead stays dead. -/
theorem Run.dead (h : Run s moves s') (hle : line ≤ s.interrupt.line) (hdead : s.interrupt.dead line = true) :
    s'.interrupt.dead line = true := by
  induction h with
  | nil => exact hdead
  | snoc hrun hstep ih => exact hstep.dead (Nat.le_trans hle hrun.line_le) ih

/-- Cutting the line leaves no line alive. -/
theorem Step.dead_of_cut {k : κ} (h : s.Step (.cut k) s') : s'.interrupt.dead line = true := by
  cases h with
  | cut => exact Bool.or_true _

/-! ## Since the interrupt was armed -/

/-- Nobody arms the interrupt. -/
def NoReset (moves : List (Move κ)) : Prop :=
  ∀ k, .reset k ∉ moves

/-- How an interrupt stands that was armed in the first state, after moves that have not armed it again. -/
structure Armed (s : Shared κ) (moves : List (Move κ)) (s' : Shared κ) : Prop where
  flag : s'.interrupt.flag = true ↔ ∃ k, .raised k ∈ moves
  live : s'.interrupt.live = false ↔ ∃ k, .cut k ∈ moves
  /-- The triggers there are, complete or not: those that have begun since, and those that were under way. -/
  triggers : (∃ k, .cut k ∈ moves) ∨ (∃ k, s'.cutting k = true) ↔
    (∃ k, .raised k ∈ moves) ∨ ∃ k, s.cutting k = true

omit [DecidableEq κ] in
theorem Armed.refl (hflag : s.interrupt.flag = false) (hlive : s.interrupt.live = true) : Armed s [] s where
  flag := by simp [hflag]
  live := by simp [hlive]
  triggers := by simp

theorem Armed.step (h : Armed s moves s') (hstep : s'.Step m s₁) (hm : ∀ k, m ≠ .reset k) :
    Armed s (moves ++ [m]) s₁ := by
  obtain ⟨hflag, hlive, htriggers⟩ := h
  cases hstep with
  | @raise k hfree =>
    refine ⟨?_, ?_, ?_⟩
    · exact ⟨fun _ ↦ ⟨k, by simp⟩, fun _ ↦ rfl⟩
    · simpa [raise, raiseFlag] using hlive
    · exact ⟨fun _ ↦ .inl ⟨k, by simp⟩, fun _ ↦ .inr ⟨k, Function.update_self ..⟩⟩
  | @cut k hcutting =>
    refine ⟨?_, ?_, ?_⟩
    · simpa [cut, cutLine] using hflag
    · exact ⟨fun _ ↦ ⟨k, by simp⟩, fun _ ↦ rfl⟩
    · have hbefore := htriggers.1 (.inr ⟨k, hcutting⟩)
      exact ⟨fun _ ↦ by simpa using hbefore, fun _ ↦ .inl ⟨k, by simp⟩⟩
  | reset => exact absurd rfl (hm _)
  | take => exact ⟨by simpa using hflag, by simpa using hlive, by simpa using htriggers⟩

theorem Run.armed (h : Run s moves s') (hmoves : NoReset moves) (hflag : s.interrupt.flag = false)
    (hlive : s.interrupt.live = true) : Armed s moves s' := by
  induction h with
  | nil => exact .refl hflag hlive
  | snoc _ hstep ih =>
    refine (ih fun k hk ↦ hmoves k ?_).step hstep fun k hk ↦ hmoves k ?_
    · exact List.mem_append_left _ hk
    · rw [hk]
      exact List.mem_append_right _ (List.mem_singleton_self _)

omit [DecidableEq κ] in
/-- When no trigger is under way, flag and line agree just if no trigger was under way when the interrupt was armed,
or one has begun since. -/
theorem Armed.agrees_iff (h : Armed s moves s') (hquiet : s'.Quiet) :
    s'.interrupt.Agrees ↔ s.Quiet ∨ ∃ k, .raised k ∈ moves := by
  have hnone : ¬ ∃ k, s'.cutting k = true := fun ⟨k, hk⟩ ↦ by
    rw [hquiet k] at hk
    cases hk
  have hcut : (∃ k, .cut k ∈ moves) ↔ (∃ k, .raised k ∈ moves) ∨ ∃ k, s.cutting k = true := by
    rw [← h.triggers, or_iff_left hnone]
  have hbusy : (∃ k, s.cutting k = true) ↔ ¬ s.Quiet := by simp [Quiet]
  rw [hbusy] at hcut
  rw [Interrupt.agrees_iff, Bool.eq_iff_iff, h.flag, Bool.not_eq_true', h.live, hcut]
  by_cases hbegun : ∃ k, Move.raised k ∈ moves
  · simp [hbegun]
  · simp [hbegun]

/-- A run either never arms the interrupt, or there is a last time. -/
theorem Run.last_reset (h : Run s moves s') : NoReset moves ∨ ∃ k before after s₀ s₁,
    moves = before ++ .reset k :: after ∧ Run s before s₀ ∧ s₀.Step (.reset k) s₁ ∧ Run s₁ after s' ∧
      NoReset after := by
  induction h with
  | nil => exact .inl fun _ ↦ List.not_mem_nil
  | @snoc s' s'' moves m hrun hstep ih =>
    by_cases hm : ∃ k, m = .reset k
    · obtain ⟨k, rfl⟩ := hm
      exact .inr ⟨k, moves, [], s', s'', rfl, hrun, hstep, .nil, fun _ ↦ List.not_mem_nil⟩
    · have hnot {xs : List (Move κ)} (hxs : NoReset xs) : NoReset (xs ++ [m]) := by
        intro k hk
        rcases List.mem_append.1 hk with hk | hk
        · exact hxs k hk
        · exact hm ⟨k, (List.mem_singleton.1 hk).symm⟩
      rcases ih with hnone | ⟨k, before, after, s₀, s₁, rfl, hbefore, hreset, hafter, hnone⟩
      · exact .inl (hnot hnone)
      · exact .inr ⟨k, before, after ++ [m], s₀, s₁, by simp, hbefore, hreset, hafter.snoc hstep, hnot hnone⟩

end Shared

end Interrupt

/-! ## What those who wait are told -/

/-- A reader waits only while the line is alive. -/
theorem World.dead_of_inputEvent?_none {w : World} {lanes : Inlet} {line : Nat} (h : w.inputEvent? lanes line = none) :
    w.interrupt.dead line = false := by
  unfold inputEvent? at h
  dsimp only at h
  split at h
  · cases h
  · cases h
  · split at h
    · cases h
    · exact Bool.eq_false_iff.2 ‹_›

/-- A reader is told of an interrupt only when the line is dead: the lanes tell of what is on them, and of their end. -/
theorem World.dead_of_inputEvent?_interrupted {w : World} {lanes : Inlet} {line : Nat}
    (h : w.inputEvent? lanes line = some .interrupted) : w.interrupt.dead line = true := by
  unfold inputEvent? at h
  dsimp only at h
  split at h
  case h_1 heq | h_2 heq =>
    cases h
    obtain ⟨id, -, hid⟩ := Option.bind_eq_some_iff.1 heq
    obtain ⟨c, -, hc⟩ := Option.bind_eq_some_iff.1 hid
    split at hc
    · cases hc
    · split at hc <;> cases hc
  next =>
    split at h
    · assumption
    · cases h

/-- Whoever looks at the flag now, whoever goes to sleep now and whoever waits for input now are told the same. -/
structure World.AgreesOnInterrupt (w : World) : Prop where
  sleep : ∀ t, w.timerDone t = false →
    (Act.awaitTimer t (Act.interruptLine.perform w).1).ready w = (Act.interrupted.perform w).1
  waits : ∀ lanes, w.inputEvent? lanes (Act.interruptLine.perform w).1 = none → (Act.interrupted.perform w).1 = false
  stops : ∀ lanes, w.inputEvent? lanes (Act.interruptLine.perform w).1 = some .interrupted →
    (Act.interrupted.perform w).1 = true

theorem Interrupt.Agrees.world {w : World} (h : w.interrupt.Agrees) : w.AgreesOnInterrupt where
  sleep t ht := by
    change (w.timerDone t || w.interrupt.dead w.interrupt.line) = w.interrupt.flag
    rw [ht, Bool.false_or, Bool.eq_iff_iff]
    exact h.symm
  waits lanes hnone := by
    have halive := World.dead_of_inputEvent?_none hnone
    exact Bool.eq_false_iff.2 fun hflag ↦ Bool.false_ne_true (halive.symm.trans (h.1 hflag))
  stops lanes hsome := h.2 (World.dead_of_inputEvent?_interrupted hsome)

namespace Interrupt.Shared

variable {κ : Type} [DecidableEq κ]

/-- **Flag and line of an interrupt.**  Any number of callers trigger the interrupt, arm it again and take its line, in
any order, and no trigger is under way any more.

* If nobody has armed the interrupt again, flag and line agree.
* If somebody has, they agree just if no trigger was under way the last time, or one has begun since.
* If the flag is up, the line is dead in any case.
* Where flag and line agree, forms, sleepers and readers of the input are told the same.

And whether or not a trigger is under way: a line that has been taken is dead once a trigger has been completed
since. -/
theorem flag_agrees_iff {moves : List (Move κ)} {s : Shared κ} (h : Run fresh moves s) :
    (s.Quiet →
      (NoReset moves → s.interrupt.Agrees) ∧
      (∀ k before after s₀ s₁, Run fresh before s₀ → s₀.Step (.reset k) s₁ → Run s₁ after s → NoReset after →
        (s.interrupt.Agrees ↔ s₀.Quiet ∨ ∃ k, .raised k ∈ after)) ∧
      (s.interrupt.flag = true → s.interrupt.dead s.interrupt.line = true) ∧
      (s.interrupt.Agrees → ∀ w : World, w.interrupt = s.interrupt → w.AgreesOnInterrupt)) ∧
    ∀ k k' line before between after s₀ s₁ s₂ s₃, Run fresh before s₀ → s₀.Step (.taken k line) s₁ →
      Run s₁ between s₂ → s₂.Step (.cut k') s₃ → Run s₃ after s → s.interrupt.dead line = true := by
  have hlast {k : κ} {after : List (Move κ)} {s₀ s₁ : Shared κ} (hreset : s₀.Step (.reset k) s₁)
      (hafter : Run s₁ after s) (hnone : NoReset after) (hquiet : s.Quiet) :
      s.interrupt.Agrees ↔ s₀.Quiet ∨ ∃ k, .raised k ∈ after := by
    cases hreset
    exact (hafter.armed hnone (reset_flag _) (reset_live _)).agrees_iff hquiet
  have hnever (hnone : NoReset moves) (hquiet : s.Quiet) : s.interrupt.Agrees :=
    ((h.armed hnone rfl rfl).agrees_iff hquiet).2 (.inl fun _ ↦ rfl)
  refine ⟨fun hquiet ↦ ⟨fun hnone ↦ hnever hnone hquiet, ?_, ?_, ?_⟩, ?_⟩
  · intro k before after s₀ s₁ _ hreset hafter hnone
    exact hlast hreset hafter hnone hquiet
  · intro hflag
    rcases h.last_reset with hnone | ⟨k, before, after, s₀, s₁, -, -, hreset, hafter, hnone⟩
    · exact (hnever hnone hquiet).1 hflag
    · have hbegun : ∃ k, .raised k ∈ after := by
        cases hreset
        exact (hafter.armed hnone (reset_flag _) (reset_live _)).flag.1 hflag
      exact ((hlast hreset hafter hnone hquiet).2 (.inr hbegun)).1 hflag
  · intro hagrees w hw
    exact Agrees.world (hw ▸ hagrees)
  · intro k k' line before between after s₀ s₁ s₂ s₃ _ htaken hbetween hcut hafter
    cases htaken
    exact hafter.dead (Nat.le_trans hbetween.line_le hcut.line_le) hcut.dead_of_cut

/-- One caller takes the line, the other triggers the interrupt, and the first arms it again and triggers it once
more. -/
def armedAgain : Shared Bool :=
  ((((fresh.raise false).cut false).reset).raise true).cut true

/-- Then flag and line agree, whoever waits is told the same, and the line that was taken at first is dead. -/
theorem flag_agrees_iff_armedAgain :
    Run fresh [.taken true 0, .raised false, .cut false, .reset true, .raised true, .cut true] armedAgain ∧
    armedAgain.Quiet ∧ armedAgain.interrupt.Agrees ∧
    ({ World.fresh .default with interrupt := armedAgain.interrupt } : World).AgreesOnInterrupt ∧
    armedAgain.interrupt.dead 0 = true := by
  have htaken : Step (fresh : Shared Bool) (.taken true 0) fresh := .take rfl
  have hraised : Run fresh [.raised false] (fresh.raise false) := .one (.raise rfl)
  have hcut : Step (fresh.raise false) (.cut false) ((fresh.raise false).cut false) := .cut rfl
  have hreset : Step _ (.reset true) ((fresh.raise false).cut false).reset := .reset rfl
  have hafter : Run _ [.raised true, .cut true] armedAgain := .snoc (.one (.raise rfl)) (.cut rfl)
  have hbefore : Run fresh [.taken true 0, .raised false, .cut false] ((fresh.raise false).cut false) :=
    .snoc (.snoc (.one htaken) (.raise rfl)) hcut
  have hrun : Run fresh [.taken true 0, .raised false, .cut false, .reset true, .raised true, .cut true] armedAgain :=
    .snoc (.snoc (.snoc hbefore hreset) (.raise rfl)) (.cut rfl)
  have hquiet : armedAgain.Quiet := fun k ↦ by cases k <;> rfl
  obtain ⟨hflag, hlines⟩ := flag_agrees_iff hrun
  obtain ⟨-, hlast, -, hwaits⟩ := hflag hquiet
  have hagrees : armedAgain.interrupt.Agrees :=
    (hlast true _ _ _ _ hbefore hreset hafter (fun k hk ↦ by simp at hk)).2 (.inr ⟨true, by simp⟩)
  refine ⟨hrun, hquiet, hagrees, hwaits hagrees _ rfl, ?_⟩
  exact hlines true false 0 [] [.raised false] [.reset true, .raised true, .cut true] _ _ _ _ .nil htaken hraised hcut
    (.snoc (.snoc (.one hreset) (.raise rfl)) (.cut rfl))

/-- **An interrupt that is armed in the middle of a trigger** ends up with its flag down and its line dead, and no
trigger under way: a form that looks at the flag goes on, and one that goes to sleep is interrupted. -/
theorem flag_overtaken : ∃ s : Shared Bool,
    Run fresh [.raised false, .reset true, .cut false] s ∧ s.Quiet ∧ s.interrupt.flag = false ∧
      s.interrupt.dead s.interrupt.line = true ∧ ¬ s.interrupt.Agrees := by
  refine ⟨_, .snoc (.snoc (.snoc .nil (.raise rfl)) (.reset rfl)) (.cut rfl), ?_, rfl, rfl, ?_⟩
  · intro k
    cases k <;> rfl
  · exact fun h ↦ Bool.false_ne_true (h.2 rfl)

end Interrupt.Shared

end ValueShell
