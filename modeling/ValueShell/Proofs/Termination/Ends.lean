import ValueShell.Proofs.Logic.Commands
import ValueShell.Proofs.Termination.Comes
import ValueShell.Proofs.Termination.Inputs

/-!
# Computations that end

A family of computations ends (`Comp.Ends`) when all of its members with enough steps come to one and the same
result, or all of them stray: they bring in code that is not in the dialect, or ask for a module that is being loaded
by somebody else.

`Comp.Arrives m w Q` says this in one world, and `Q` of the result and of the world it is given in.  How many steps
are enough is found anew for each world and is never spoken of by the rules.  `Comp.ending` collects those rules that
hold in all settled worlds, and with them everything that follows for code without loops and pipelines.
-/

set_option autoImplicit false

namespace ValueShell

/-! ## Straying -/

/-- Does the act make a source that is not in the dialect, or wait for somebody else? -/
def Act.leadsOut (d : Dialect) : Act → Bool
  | newSource _ code _ => !d.has code
  | awaitLoad .. => true
  | _ => false

/-- Run by itself, the program comes to an act that leads out of the dialect. -/
def Prog.Strays (d : Dialect) (p : Prog) (w : World) : Prop :=
  ∃ a next w', Prog.Comes d p w (.act a next) w' ∧ a.leadsOut d = true

theorem Prog.Comes.strays {d : Dialect} {p p' : Prog} {w w' : World} (h : Prog.Comes d p w p' w')
    (hs : p'.Strays d w') : p.Strays d w := by
  obtain ⟨a, next, w'', hcomes, hout⟩ := hs
  exact ⟨a, next, w'', h.trans hcomes, hout⟩

/-- Where all closures are in the dialect, an act brings in nothing else unless it leads out. -/
theorem Act.event_isIn {d : Dialect} {input : Inlet} {w : World} {a : Act} (hw : w.Settled d input)
    (h : a.leadsOut d = false) : (Event.act a (a.perform w).1).isIn d = true := by
  cases a with
  | newSource name code path => exact Bool.not_eq_eq_eq_not.1 h
  | closure id =>
    rw [perform]
    cases hc : w.store.closure? id with
    | none => rfl
    | some c => exact hw.closures id c hc
  | _ => rfl

theorem Act.ready_of_isPlain {a : Act} (h : a.isPlain = true) (w : World) : a.ready w = true := by
  cases a with
  | put | writeBytes | receive | awaitTimer | awaitLoad => cases h
  | _ => rfl

/-- A sleep has a timer that will go off, or its line is dead. -/
theorem World.startTimer_ends (w : World) (nanos : Nat) :
    (w.startTimer nanos).2.interrupt.dead (w.startTimer nanos).2.interrupt.line = true ∨
      (w.startTimer nanos).1.due.isSome = true := by
  unfold startTimer
  dsimp only
  split
  · left
    simp [triggerInterrupt, Interrupt.trigger, Interrupt.raiseFlag, Interrupt.cutLine, Interrupt.dead]
  · exact .inr rfl

/-! ## Arriving -/

namespace Comp

variable {α β : Type}

/-- Run by themselves in the world, all members with enough steps come to one result, with which `Q` holds, or all
of them stray. -/
def Arrives (d : Dialect) (m : Nat → Comp α) (w : World) (Q : Except Failure α → World → Prop) : Prop :=
  (∃ r w', Q r w' ∧ ∃ least, ∀ n ≥ least, ∀ k, Prog.Comes d (m n k) w (k r) w') ∨
    ∃ least, ∀ n ≥ least, ∀ k, (m n k).Strays d w

namespace Arrives

variable {d : Dialect} {m : Nat → Comp α} {f : Nat → α → Comp β} {w w' : World}
  {Q Q' : Except Failure α → World → Prop} {R : Except Failure β → World → Prop}

theorem consequence (h : Arrives d m w Q) (hq : ∀ r w', Q r w' → Q' r w') : Arrives d m w Q' :=
  h.imp_left fun ⟨r, w', hr, hcomes⟩ ↦ ⟨r, w', hq r w' hr, hcomes⟩

theorem ofExcept {r : Except Failure α} (h : Q r w) : Arrives d (fun _ ↦ Comp.ofExcept r) w Q :=
  .inl ⟨r, w, h, 0, fun _ _ _ ↦ .refl⟩

/-- A step fewer makes no difference. -/
theorem shift (h : Arrives d (fun n ↦ m (n + 1)) w Q) : Arrives d m w Q := by
  have hshift {P : Nat → Prop} (h : ∃ least, ∀ n ≥ least, P (n + 1)) : ∃ least, ∀ n ≥ least, P n := by
    obtain ⟨least, hleast⟩ := h
    refine ⟨least + 1, fun n hn ↦ ?_⟩
    obtain ⟨n, rfl⟩ : ∃ n', n = n' + 1 := ⟨n - 1, by omega⟩
    exact hleast n (Nat.le_of_succ_le_succ hn)
  exact h.imp (fun ⟨r, w', hr, hcomes⟩ ↦ ⟨r, w', hr, hshift hcomes⟩) hshift

theorem bind (h : Arrives d m w Q) (hok : ∀ a w', Q (.ok a) w' → Arrives d (fun n ↦ f n a) w' R)
    (herror : ∀ e w', Q (.error e) w' → R (.error e) w') : Arrives d (fun n ↦ m n >>= f n) w R := by
  obtain ⟨r, w', hr, least, hleast⟩ | ⟨least, hleast⟩ := h
  · cases r with
    | error e => exact .inl ⟨.error e, w', herror e w' hr, least, fun n hn k ↦ hleast n hn _⟩
    | ok a =>
      obtain ⟨r, w'', hr', least', hleast'⟩ | ⟨least', hleast'⟩ := hok a w' hr
      · refine .inl ⟨r, w'', hr', max least least', fun n hn k ↦ ?_⟩
        exact (hleast n (by omega) _).trans (hleast' n (by omega) k)
      · refine .inr ⟨max least least', fun n hn k ↦ ?_⟩
        exact (hleast n (by omega) _).strays (hleast' n (by omega) k)
  · exact .inr ⟨least, fun n hn k ↦ hleast n hn _⟩

theorem result (h : Arrives d m w Q) :
    Arrives d (fun n ↦ (m n).result) w fun r w' ↦ ∃ r', r = .ok r' ∧ Q r' w' :=
  h.imp (fun ⟨r, w', hr, least, hleast⟩ ↦ ⟨.ok r, w', ⟨r, rfl, hr⟩, least, fun n hn _ ↦ hleast n hn _⟩)
    fun ⟨least, hleast⟩ ↦ ⟨least, fun n hn _ ↦ hleast n hn _⟩

theorem mapFailure (g : Failure → Failure) (h : Arrives d m w Q) (hok : ∀ a w', Q (.ok a) w' → Q' (.ok a) w')
    (herror : ∀ e w', Q (.error e) w' → Q' (.error (g e)) w') :
    Arrives d (fun n ↦ (m n).mapFailure g) w Q' := by
  obtain ⟨r, w', hr, least, hleast⟩ | ⟨least, hleast⟩ := h
  · cases r with
    | ok a => exact .inl ⟨.ok a, w', hok a w' hr, least, fun n hn k ↦ hleast n hn _⟩
    | error e => exact .inl ⟨.error (g e), w', herror e w' hr, least, fun n hn k ↦ hleast n hn _⟩
  · exact .inr ⟨least, fun n hn k ↦ hleast n hn _⟩

theorem note {n : Note} {Q : Except Failure Unit → World → Prop} (h : Q (.ok ()) w) :
    Arrives d (fun _ ↦ Comp.note n) w Q :=
  .inl ⟨.ok (), w, h, 0, fun _ _ _ ↦ .note .refl⟩

/-- An act that can be done at once. -/
theorem act {input : Inlet} {a : Act} {Q : Except Failure a.Reply → World → Prop} (hw : w.Settled d input)
    (hready : a.ready w = true)
    (h : (Event.act a (a.perform w).1).isIn d = true → Q (.ok (a.perform w).1) (a.perform w).2) :
    Arrives d (fun _ ↦ Comp.act a) w Q := by
  by_cases hout : a.leadsOut d = true
  · exact .inr ⟨0, fun _ _ _ ↦ ⟨a, _, w, .refl, hout⟩⟩
  · have he := a.event_isIn hw (Bool.eq_false_iff.2 hout)
    exact .inl ⟨_, _, h he, 0, fun _ _ _ ↦ .act hready he .refl⟩

/-- An act that is done at once, and what follows it. -/
theorem before {input : Inlet} {a : Act} {f : Nat → a.Reply → Comp β} (hw : w.Settled d input)
    (hready : a.ready w = true) (h : Arrives d (fun n ↦ f n (a.perform w).1) (a.perform w).2 R) :
    Arrives d (fun n ↦ Comp.act a >>= f n) w R := by
  refine .bind (Q := fun r w' ↦ r = .ok (a.perform w).1 ∧ w' = (a.perform w).2) (act hw hready fun _ ↦ ⟨rfl, rfl⟩) ?_
    fun _ _ hr ↦ nomatch hr.1
  rintro _ _ ⟨⟨⟩, rfl⟩
  exact h

/-- A timer that will go off, or whose line is dead. -/
theorem awaitTimer {input : Inlet} {t : Timer} {line : Nat} {Q : Except Failure Bool → World → Prop}
    (hw : w.Settled d input) (hends : w.interrupt.dead line = true ∨ t.due.isSome = true)
    (h : ∀ r w', w'.Settled d input → Q (.ok r) w') : Arrives d (fun _ ↦ Comp.act (.awaitTimer t line)) w Q := by
  by_cases hready : (Act.awaitTimer t line).ready w = true
  · exact act hw hready fun _ ↦ h _ _ (Act.keeps_settled hw rfl)
  · have hwait := Bool.eq_false_iff.2 hready
    have hdue : t.due.isSome = true := by
      refine hends.resolve_left fun hdead ↦ hready ?_
      rw [Act.ready, hdead, Bool.or_true]
    obtain ⟨due, hdue⟩ := Option.isSome_iff_exists.1 hdue
    have hdone : (Act.awaitTimer t line).ready (w.sleepUntil due) = true := by
      have hpast : due ≤ (w.sleepUntil due).clock.now := Nat.le_max_right _ _
      rw [Act.ready, World.timerDone, hdue, Option.any_some, decide_eq_true hpast, Bool.true_or]
    have hlater : (w.sleepUntil due).Settled d input := ⟨hw.closures, hw.input⟩
    exact .inl ⟨_, _, h _ _ hlater, 0, fun _ _ _ ↦ .sleep hwait hdue (.act hdone rfl .refl)⟩

end Arrives

/-! ## Ending -/

/-- In every settled world the family comes to a result or strays.  `P` holds of what it gives, and the world is
settled afterwards. -/
def Ends (d : Dialect) (input : Inlet) (m : Nat → Comp α) (P : α → Prop) : Prop :=
  ∀ w, w.Settled d input → Arrives d m w fun r w' ↦ w'.Settled d input ∧ ∀ a, r = .ok a → P a

namespace Ends

variable {d : Dialect} {input : Inlet} {m : Nat → Comp α} {f : Nat → α → Comp β} {P P' : α → Prop} {Q : β → Prop}

theorem consequence (h : Ends d input m P) (hp : ∀ a, P a → P' a) : Ends d input m P' :=
  fun w hw ↦ (h w hw).consequence fun _ _ hr ↦ ⟨hr.1, fun a ha ↦ hp a (hr.2 a ha)⟩

theorem shift (h : Ends d input (fun n ↦ m (n + 1)) P) : Ends d input m P :=
  fun w hw ↦ (h w hw).shift

theorem ofExcept {r : Except Failure α} (h : ∀ a, r = .ok a → P a) : Ends d input (fun _ ↦ Comp.ofExcept r) P :=
  fun _ hw ↦ .ofExcept ⟨hw, h⟩

theorem pure {a : α} (h : P a) : Ends d input (fun _ ↦ (Pure.pure a : Comp α)) P :=
  ofExcept (r := .ok a) (by rintro _ ⟨⟩; exact h)

theorem fail {e : Failure} : Ends d input (fun _ ↦ (Comp.fail e : Comp α)) P :=
  ofExcept (r := .error e) nofun

theorem bind (h : Ends d input m P) (hf : ∀ a, P a → Ends d input (fun n ↦ f n a) Q) :
    Ends d input (fun n ↦ m n >>= f n) Q :=
  fun w hw ↦ .bind (h w hw) (fun a w' hr ↦ hf a (hr.2 a rfl) w' hr.1) fun _ _ hr ↦ ⟨hr.1, nofun⟩

theorem result (h : Ends d input m P) : Ends d input (fun n ↦ (m n).result) fun r ↦ ∀ a, r = .ok a → P a := by
  refine fun w hw ↦ (h w hw).result.consequence ?_
  rintro _ w' ⟨r, rfl, hw', hr⟩
  exact ⟨hw', by rintro _ ⟨⟩; exact hr⟩

theorem mapFailure (g : Failure → Failure) (h : Ends d input m P) : Ends d input (fun n ↦ (m n).mapFailure g) P :=
  fun w hw ↦ .mapFailure g (h w hw) (fun _ _ hr ↦ hr) fun _ _ hr ↦ ⟨hr.1, nofun⟩

theorem note {n : Note} : Ends d input (fun _ ↦ Comp.note n) fun _ ↦ True :=
  fun _ hw ↦ .note ⟨hw, fun _ _ ↦ trivial⟩

/-- An act that never waits. -/
theorem act {a : Act} (hready : ∀ w, a.ready w = true) (hin : a.isIn d = true) :
    Ends d input (fun _ ↦ Comp.act a) fun r ↦ (Event.act a r).isIn d = true ∧ ∃ w, r = (a.perform w).1 := by
  intro w hw
  refine .act hw (hready w) fun he ↦ ⟨a.keeps_settled hw hin, ?_⟩
  rintro _ ⟨⟩
  exact ⟨he, w, rfl⟩

/-- An act that never waits, whatever it replies. -/
theorem done {a : Act} (hready : ∀ w, a.ready w = true) (hin : a.isIn d = true) :
    Ends d input (fun _ ↦ Comp.act a) fun _ ↦ True :=
  (act hready hin).consequence fun _ _ ↦ trivial

theorem throw {fm : Frame} {reason : Reason} : Ends d input (fun _ ↦ (fm.throw reason : Comp α)) P :=
  bind note fun _ _ ↦ fail

theorem checked {fm : Frame} {r : Except Reason α} : Ends d input (fun _ ↦ fm.check r) fun _ ↦ True := by
  cases r with
  | ok a => exact pure trivial
  | error reason => exact throw

/-- A sleep ends: its timer goes off, or it triggers the interrupt. -/
theorem sleepFor {fm : Frame} {v : Value} : Ends d input (fun _ ↦ Engine.sleepFor fm v) fun _ ↦ True := by
  refine bind checked fun nanos _ w hw ↦ ?_
  have hw₁ : (w.startTimer nanos).2.Settled d input := Act.keeps_settled (a := .startTimer nanos) hw rfl
  refine .before hw rfl (.before hw₁ rfl ?_)
  refine .bind (Q := fun _ w₂ ↦ w₂.Settled d input)
    (.awaitTimer hw₁ (w.startTimer_ends nanos) fun _ _ hw₂ ↦ hw₂) (fun rung w₂ hw₂ ↦ ?_) fun _ _ hw₂ ↦ ⟨hw₂, nofun⟩
  cases rung with
  | true => exact pure trivial w₂ hw₂
  | false => exact throw w₂ hw₂

end Ends

/-! ## Reading the input -/

namespace Arrives

variable {d : Dialect} {input : Inlet} {fm : Frame} {w : World}

theorem check {r : Except Reason α} {Q : Except Failure α → World → Prop} (h : ∀ r, Q r w) :
    Arrives d (fun _ ↦ fm.check r) w Q := by
  cases r with
  | ok a => exact .ofExcept (r := .ok a) (h _)
  | error reason =>
    refine .bind (.note (Q := fun _ w' ↦ w' = w) rfl) ?_ ?_
    · rintro _ _ rfl
      exact .ofExcept (r := .error _) (h _)
    · rintro _ _ rfl
      exact h _

section Output

variable (hopen : fm.wiring.output.values.isOpen = true)

include hopen

/-- Putting a value on an open outlet leaves what is still to be read as it is. -/
theorem put (v : Value) (hw : w.Settled d input) :
    Arrives d (fun _ ↦ fm.put v) w fun _ w' ↦ w'.Settled d input ∧ w.streams.SameChannels w'.streams :=
  .before hw (World.putReady_of_isOpen hopen)
    (.check fun _ ↦ ⟨Act.keeps_settled (a := .put _ v) hw rfl, World.put_channels hopen v⟩)

theorem putEach {γ : Type} (f : γ → Value) (items : List γ) (hw : w.Settled d input) :
    Arrives d (fun _ ↦ Comp.forEach (fun x ↦ fm.put (f x)) items) w fun _ w' ↦
      w'.Settled d input ∧ w.streams.SameChannels w'.streams := by
  induction items generalizing w with
  | nil => exact .ofExcept (r := .ok ()) ⟨hw, rfl, rfl⟩
  | cons x items ih =>
    refine .bind (put hopen (f x) hw) (fun _ w₁ hr ↦ ?_) fun _ _ hr ↦ hr
    exact (ih hr.1).consequence fun _ _ hr' ↦ ⟨hr'.1, hr.2.trans hr'.2⟩

/-- Reading a closed input to its end: each round leaves less to be read. -/
theorem iterate (line : Nat) {left : Nat} {p : Inlet.Progress} (hw : w.Settled d input)
    (hp : w.streams.Supplies p.lanes) (hleft : w.streams.remaining p.lanes < left) :
    Arrives d (fun n ↦ Inlet.iterate line fm.put n p) w fun _ w' ↦ w'.Settled d input := by
  induction left generalizing p w with
  | zero => exact absurd hleft (Nat.not_lt_zero _)
  | succ left ih =>
    refine .shift ?_
    simp only [Inlet.iterate]
    split
    · exact (putEach hopen _ _ hw).consequence fun _ _ hr ↦ hr.1
    · rename_i hfinished
      obtain ⟨e, hevent, hheard, hsupplies, hless⟩ :=
        World.exists_event hp (Bool.eq_false_iff.2 hfinished) line
      have hperform : (Act.receive p.lanes line).perform w = (e, w.consume p.lanes e) := by
        rw [Act.perform, hevent]
      have hready : (Act.receive p.lanes line).ready w = true := by
        rw [Act.ready, hevent]
        rfl
      have hw₁ : (w.consume p.lanes e).Settled d input := by
        have hkeeps := Act.keeps_settled (a := .receive p.lanes line) hw rfl
        rwa [hperform] at hkeeps
      refine .before hw hready ?_
      rw [hperform]
      have hnext : Arrives d (fun n ↦ do
          Comp.forEach fm.put (p.after e).1
          Inlet.iterate line fm.put n (p.after e).2) (w.consume p.lanes e) fun _ w' ↦ w'.Settled d input := by
        refine .bind (putEach hopen (fun v ↦ v) _ hw₁) (fun _ w₂ hr ↦ ?_) fun _ _ hr ↦ hr.1
        exact ih hr.1 (hr.2.supplies hsupplies) (by rw [hr.2.remaining]; omega)
      cases e with
      | interrupted => exact absurd rfl hheard
      | _ => exact hnext

end Output

end Arrives

/-- Reading the whole input ends if it is closed. -/
theorem Ends.iterateInput {d : Dialect} {fm : Frame} (hopen : fm.wiring.output.values.isOpen = true) :
    Ends d fm.wiring.input (fun n ↦ fm.iterateInput n fm.put) fun _ ↦ True := by
  intro w hw
  have hread (line : Nat) := Arrives.iterate hopen line (p := ⟨fm.wiring.input, []⟩) hw hw.input (Nat.lt_succ_self _)
  exact .before hw rfl (.mapFailure _ (hread _) (fun _ _ hw' ↦ ⟨hw', fun _ _ ↦ trivial⟩) fun _ _ hw' ↦ ⟨hw', nofun⟩)

/-! ## The logic -/

/-- The logic of ending, for code without loops and pipelines whose outlets are open. -/
def ending : Logic where
  dialect := .loopless
  sequential := rfl
  Accepts outlet := outlet.isOpen = true
  accepts_capture _ := rfl
  accepts_file _ := rfl
  Holds S m P := Ends .loopless S.input m P
  deeper h := h
  consequence := Ends.consequence
  ofExcept := Ends.ofExcept
  bind := Ends.bind
  result := Ends.result
  mapFailure := Ends.mapFailure
  act hplain := Ends.act (Act.ready_of_isPlain hplain)
  put h := Ends.done (fun _ ↦ World.putReady_of_isOpen (Bool.and_eq_true_iff.1 h).1) rfl
  writeBytes h := Ends.done (fun _ ↦ World.bytesReady_of_isOpen (Bool.and_eq_true_iff.1 h).2) rfl
  sleepFor := Ends.sleepFor
  raises := Ends.note
  starts := Ends.note
  ends := Ends.note
  repeatWhile _ hloops := nomatch hloops

end Comp

end ValueShell
