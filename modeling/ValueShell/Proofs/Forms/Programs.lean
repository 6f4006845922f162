import ValueShell.Proofs.Forms.Logs

/-!
# Programs that keep their logs

`Prog.Traced p s` says what a program does from a strand on, whatever its acts are told.

* Each form that begins ends before what is around it goes on, and an exception that leaves it shows the right stack.
* Each time the program asks whether a form is to be warned of, it is the form that is being run.
* The program comes to its end with no form left open, with a failure that shows the right stack.

`Comp.Traces s m Q` says the same of a computation with anything behind it.  The strand that is left is a later one, on
which the same forms are open, and `Q` holds of it and of what the computation gives.

`Moment.Records` is a step of a run that keeps its logs (`Trace`).  `Moment.Step.records` and `Moment.Records.traced`
say that each step of such a program can be recorded, and leaves such a program.
-/

set_option autoImplicit false

namespace ValueShell

/-! ## Programs -/

/-- If the act asks whether a form is to be warned of, then it does so for a frame in which the form is known, and the
form is the one that is being run. -/
def Act.Asks : (a : Act) → (a.Reply → Prog) → Strand → Prop
  | .firstWarning site, next, s => s.site = some site ∧
    ∃ (fm : Frame) (message : String) (k : Except Failure Unit → Prog), fm.site = some site ∧
      fm.warn message k = .act (.firstWarning site) next
  | _, _, _ => True

/-- If a form ends, it is the one that is being run, and an exception that leaves it shows the right stack. -/
def Note.Fits : Note → Strand → Prop
  | .ends site o, s => (∃ before opened, s.opened = (site, before) :: opened) ∧
    ∀ e, o = .error (.exception e) → e.reason.isComposite = false →
      ∃ e₀ forms, s.log.Came e₀ forms ∧ e.Extends e₀ ∧ e.stack = collapse (forms ++ [site])
  | _, _ => True

mutual

/-- Begun in a strand, the program keeps its log. -/
def Prog.Traced : Prog → Strand → Prop
  | .done o, s => s.Ends o
  | .spent, _ => True
  | .act a next, s => a.Asks next s ∧ ∀ r, (next r).Traced s
  | .note n p, s => n.Fits s ∧ p.Traced (s.note n)
  | .fork stages next, s =>
    Prog.AllTraced stages (.start s.site) ∧
      ∀ ends : List (Log × Outcome), (∀ x ∈ ends, Strand.Ends ⟨x.1, [], s.site⟩ x.2) →
        (next (ends.map (·.2))).Traced (s.add (.stages (ends.map (·.1))))

/-- All the programs keep their logs, each begun in the strand. -/
def Prog.AllTraced : List Prog → Strand → Prop
  | [], _ => True
  | p :: ps, s => p.Traced s ∧ Prog.AllTraced ps s

end

theorem Prog.allTraced_iff {ps : List Prog} {s : Strand} : Prog.AllTraced ps s ↔ ∀ p ∈ ps, p.Traced s := by
  induction ps with
  | nil => simp [Prog.AllTraced]
  | cons p ps ih => simp [Prog.AllTraced, ih]

/-! ## Computations -/

/-- Begun in a strand, the computation keeps the log, with anything behind it. -/
def Comp.Traces {α : Type} (s : Strand) (m : Comp α) (Q : Strand → α → Prop) : Prop :=
  ∀ k : Except Failure α → Prog,
    (∀ s', s ≤ s' → ∀ a, Q s' a → (k (.ok a)).Traced s') →
    (∀ s', s ≤ s' → ∀ f, s'.Leaves f → (k (.error f)).Traced s') →
    (m k).Traced s

namespace Comp.Traces

variable {α β : Type} {s : Strand} {m : Comp α} {Q R : Strand → α → Prop}

theorem consequence (h : m.Traces s Q) (hq : ∀ s', s ≤ s' → ∀ a, Q s' a → R s' a) : m.Traces s R :=
  fun k hok herr ↦ h k (fun s' hs a ha ↦ hok s' hs a (hq s' hs a ha)) herr

theorem pure {a : α} (h : Q s a) : Traces s (Pure.pure a : Comp α) Q :=
  fun _ hok _ ↦ hok s le_rfl a h

theorem fail {f : Failure} (h : s.Leaves f) : Traces s (Comp.fail f : Comp α) Q :=
  fun _ _ herr ↦ herr s le_rfl f h

theorem ofExcept {r : Except Failure α} (hok : ∀ a, r = .ok a → Q s a) (herr : ∀ f, r = .error f → s.Leaves f) :
    Traces s (Comp.ofExcept r) Q := by
  cases r with
  | ok a => exact pure (hok a rfl)
  | error f => exact fail (herr f rfl)

theorem bind {g : α → Comp β} {T : Strand → β → Prop} (h : m.Traces s Q)
    (hg : ∀ s', s ≤ s' → ∀ a, Q s' a → (g a).Traces s' T) : Traces s (m >>= g) T := by
  intro k hok herr
  refine h _ (fun s' hs a ha ↦ ?_) herr
  exact hg s' hs a ha k (fun s₁ hs₁ ↦ hok s₁ (hs.trans hs₁)) fun s₁ hs₁ ↦ herr s₁ (hs.trans hs₁)

theorem result (h : m.Traces s Q) : Traces s m.result fun s' r ↦
    (∀ a, r = .ok a → Q s' a) ∧ ∀ f, r = .error f → s'.Leaves f := by
  intro k hok _
  refine h _ (fun s' hs a ha ↦ hok s' hs _ ⟨?_, nofun⟩) fun s' hs f hf ↦ hok s' hs _ ⟨nofun, ?_⟩
  · rintro _ ⟨⟩
    exact ha
  · rintro _ ⟨⟩
    exact hf

theorem mapFailure {g : Failure → Failure} (h : m.Traces s Q) (hg : ∀ s', s ≤ s' → ∀ f, s'.Leaves f → s'.Leaves (g f)) :
    Traces s (m.mapFailure g) Q :=
  fun _ hok herr ↦ h _ hok fun s' hs f hf ↦ herr s' hs _ (hg s' hs f hf)

theorem spent : Traces s (Comp.spent : Comp α) Q :=
  fun _ _ _ ↦ trivial

/-- An act that asks for no warning, whatever it replies. -/
theorem act {a : Act} (h : ∀ next s, a.Asks next s) : Traces s (Comp.act a) fun _ _ ↦ True :=
  fun _ hok _ ↦ ⟨h _ s, fun r ↦ hok s le_rfl r trivial⟩

/-- A note that is no form's. -/
theorem note {n : Note} (hfits : n.Fits s) (hle : s ≤ s.note n) : Traces s (Comp.note n) fun s' _ ↦ s' = s.note n :=
  fun _ hok _ ↦ ⟨hfits, hok _ hle () rfl⟩

theorem forEach {g : α → Comp Unit} (items : List α)
    (h : ∀ s', s ≤ s' → ∀ a ∈ items, (g a).Traces s' fun _ _ ↦ True) :
    Traces s (Comp.forEach g items) fun _ _ ↦ True := by
  induction items generalizing s with
  | nil => exact pure trivial
  | cons a items ih =>
    refine bind (h s le_rfl a List.mem_cons_self) fun s' hs' _ _ ↦ ?_
    exact ih fun s₁ hs₁ b hb ↦ h s₁ (hs'.trans hs₁) b (List.mem_cons_of_mem _ hb)

theorem mapEach {g : α → Comp β} (items : List α)
    (h : ∀ s', s ≤ s' → ∀ a ∈ items, (g a).Traces s' fun _ _ ↦ True) :
    Traces s (Comp.mapEach g items) fun _ _ ↦ True := by
  induction items generalizing s with
  | nil => exact pure trivial
  | cons a items ih =>
    refine bind (h s le_rfl a List.mem_cons_self) fun s' hs' _ _ ↦ ?_
    refine bind (ih fun s₁ hs₁ b hb ↦ h s₁ (hs'.trans hs₁) b (List.mem_cons_of_mem _ hb)) fun _ _ _ _ ↦ pure trivial

theorem repeatWhile {body : Comp Bool} (h : ∀ s', s ≤ s' → body.Traces s' fun _ _ ↦ True) (n : Nat) :
    Traces s (Comp.repeatWhile body n) fun _ _ ↦ True := by
  induction n generalizing s with
  | zero => exact spent
  | succ n ih =>
    refine bind (h s le_rfl) fun s' hs' again _ ↦ ?_
    cases again with
    | false => exact pure trivial
    | true => exact ih fun s₁ hs₁ ↦ h s₁ (hs'.trans hs₁)

/-- Stages that run side by side: what they end with may leave the form around them. -/
theorem fork {stages : List Prog} (h : ∀ p ∈ stages, p.Traced (.start s.site)) :
    Traces s (Comp.fork stages) fun s' os ↦ ∀ o ∈ os, ∀ f, o = .error f → s'.Leaves f := by
  intro k hok _
  refine ⟨Prog.allTraced_iff.2 h, fun ends hends ↦ hok _ (s.le_add _) _ ?_⟩
  rintro _ ho f rfl
  obtain ⟨x, hx, hxo⟩ := List.mem_map.1 ho
  exact Strand.leaves_stage (List.mem_map_of_mem hx) ((hends x hx).2 f hxo)

theorem program {m : Comp Unit} {around : Option CallSite} (h : m.Traces (.start around) fun _ _ ↦ True) :
    m.program.Traced (.start around) :=
  h _ (fun _ hs _ _ ↦ ⟨hs.1, nofun⟩) fun s' hs f hf ↦ ⟨hs.1, by
    rintro _ ⟨⟩
    exact hf⟩

end Comp.Traces

/-! ## Runs -/

/-- The logs of a task: of a strand, or of the strand that forked and of its stages. -/
inductive Trace where
  | strand (s : Strand)
  | forked (s : Strand) (stages : List Trace)

namespace Trace

/-- The form in which the task was begun. -/
def around : Trace → Option CallSite
  | strand s | forked s _ => s.around

/-- What was logged. -/
def log : Trace → Log
  | strand s | forked s _ => s.log

end Trace

/-- A step of a run that keeps its logs. -/
inductive Moment.Records : Moment → Trace → Event → Moment → Trace → Prop
  | act {a : Act} {next : a.Reply → Prog} {w : World} {s : Strand} (h : a.ready w = true) :
      Records ⟨.running (.act a next), w⟩ (.strand s) (.act a (a.perform w).1)
        ⟨.running (next (a.perform w).1), (a.perform w).2⟩ (.strand s)
  | note {n : Note} {p : Prog} {w : World} {s : Strand} :
      Records ⟨.running (.note n p), w⟩ (.strand s) (.note n) ⟨.running p, w⟩ (.strand (s.note n))
  | fork {stages : List Prog} {next : List Outcome → Prog} {w : World} {s : Strand} :
      Records ⟨.running (.fork stages next), w⟩ (.strand s) .quiet ⟨.forked (stages.map .running) next, w⟩
        (.forked s (stages.map fun _ ↦ .strand (.start s.site)))
  | stage {before after : List Task} {t t' : Task} {next : List Outcome → Prog} {w w' : World} {e : Event}
      {s : Strand} {befores afters : List Trace} {tr tr' : Trace} (hlength : before.length = befores.length)
      (h : Records ⟨t, w⟩ tr e ⟨t', w'⟩ tr') :
      Records ⟨.forked (before ++ t :: after) next, w⟩ (.forked s (befores ++ tr :: afters)) e
        ⟨.forked (before ++ t' :: after) next, w'⟩ (.forked s (befores ++ tr' :: afters))
  | join {stages : List Task} {next : List Outcome → Prog} {os : List Outcome} {w : World} {s : Strand}
      {traces : List Trace} (h : stages.mapM Task.outcome? = some os) :
      Records ⟨.forked stages next, w⟩ (.forked s traces) .quiet ⟨.running (next os), w⟩
        (.strand (s.add (.stages (traces.map Trace.log))))
  | giveUp {stages : List Task} {next : List Outcome → Prog} {w : World} {s : Strand} {traces : List Trace}
      (h : stages.any Task.isSpent = true) :
      Records ⟨.forked stages next, w⟩ (.forked s traces) .quiet ⟨.running .spent, w⟩ (.strand s)
  | wait {t : Task} {w : World} {now : Nat} {tr : Trace} (h : w.clock.now ≤ now) :
      Records ⟨t, w⟩ tr .quiet ⟨t, { w with clock := { w.clock with now } }⟩ tr

mutual

/-- All parts of the task keep the logs. -/
def Task.Traced : Task → Trace → Prop
  | .running p, .strand s => p.Traced s
  | .forked stages next, .forked s traces =>
    Task.AllTraced s.site stages traces ∧
      ∀ ends : List (Log × Outcome), (∀ x ∈ ends, Strand.Ends ⟨x.1, [], s.site⟩ x.2) →
        (next (ends.map (·.2))).Traced (s.add (.stages (ends.map (·.1))))
  | _, _ => False

/-- All the tasks do, and were begun in the form at the site. -/
def Task.AllTraced (site : Option CallSite) : List Task → List Trace → Prop
  | [], [] => True
  | t :: ts, tr :: trs => tr.around = site ∧ t.Traced tr ∧ Task.AllTraced site ts trs
  | _, _ => False

end

namespace Task

variable {site : Option CallSite} {t t' : Task} {tr tr' : Trace} {ts : List Task} {trs : List Trace}

theorem AllTraced.length_eq (h : AllTraced site ts trs) : ts.length = trs.length := by
  induction ts generalizing trs with
  | nil =>
    cases trs with
    | nil => rfl
    | cons tr trs => cases h
  | cons t ts ih =>
    cases trs with
    | nil => cases h
    | cons tr trs => rw [List.length_cons, List.length_cons, ih h.2.2]

theorem allTraced_append {us : List Task} {urs : List Trace} (hlength : ts.length = trs.length) :
    AllTraced site (ts ++ us) (trs ++ urs) ↔ AllTraced site ts trs ∧ AllTraced site us urs := by
  induction ts generalizing trs with
  | nil =>
    obtain rfl := List.length_eq_zero_iff.1 hlength.symm
    simp [AllTraced]
  | cons t ts ih =>
    cases trs with
    | nil => cases hlength
    | cons tr trs => simp [AllTraced, ih (Nat.succ_inj.1 hlength), and_assoc]

theorem allTraced_running {ps : List Prog} (h : Prog.AllTraced ps (.start site)) :
    AllTraced site (ps.map .running) (ps.map fun _ ↦ .strand (.start site)) := by
  induction ps with
  | nil => trivial
  | cons p ps ih => exact ⟨rfl, h.1, ih h.2⟩

/-- When all have come to their ends, the logs and the outcomes fit together. -/
theorem AllTraced.ends {os : List Outcome} (h : AllTraced site ts trs) (hos : ts.mapM outcome? = some os) :
    ∃ ends : List (Log × Outcome), ends.map (·.1) = trs.map Trace.log ∧ ends.map (·.2) = os ∧
      ∀ x ∈ ends, Strand.Ends ⟨x.1, [], site⟩ x.2 := by
  obtain rfl := outcomes_eq_some_iff.1 hos
  clear hos
  induction os generalizing trs with
  | nil =>
    cases trs with
    | nil => exact ⟨[], rfl, rfl, nofun⟩
    | cons tr trs => cases h
  | cons o os ih =>
    cases trs with
    | nil => cases h
    | cons tr trs =>
      obtain ⟨haround, ht, hall⟩ := h
      obtain ⟨ends, hlogs, houtcomes, hends⟩ := ih hall
      have hlast : Strand.Ends ⟨tr.log, [], site⟩ o := by
        cases tr with
        | forked => cases ht
        | strand s =>
          have hs : s = ⟨s.log, [], s.around⟩ := by
            obtain ⟨hopened, -⟩ := ht
            cases s
            cases hopened
            rfl
          rw [← haround, Trace.log, Trace.around, ← hs]
          exact ht
      refine ⟨(tr.log, o) :: ends, by rw [List.map_cons, hlogs, List.map_cons],
        by rw [List.map_cons, houtcomes], List.forall_mem_cons.2 ⟨hlast, hends⟩⟩

end Task

namespace Moment

variable {m m' : Moment} {e : Event} {tr tr' : Trace}

/-- What is recorded is a step. -/
theorem Records.step (h : m.Records tr e m' tr') : m.Step e m' := by
  induction h with
  | act h => exact .act h
  | note => exact .note
  | fork => exact .fork
  | stage _ _ ih => exact .stage ih
  | join h => exact .join h
  | giveUp h => exact .giveUp h
  | wait h => exact .wait h

theorem Records.around_eq (h : m.Records tr e m' tr') : tr'.around = tr.around := by
  cases h with
  | @note n _ _ s =>
    cases n with
    | starts site _ _ => cases site <;> rfl
    | ends _ o =>
      change (s.leave o).around = s.around
      rw [Strand.leave]
      split <;> rfl
    | _ => rfl
  | _ => rfl

/-- **Each step keeps the logs.** -/
theorem Records.traced (h : m.Records tr e m' tr') (ht : m.task.Traced tr) : m'.task.Traced tr' := by
  induction h with
  | act => exact ht.2 _
  | note => exact ht.2
  | fork => exact ⟨Task.allTraced_running ht.1, ht.2⟩
  | stage hlength h ih =>
    obtain ⟨hall, hnext⟩ := ht
    obtain ⟨hbefore, haround, htask, hafter⟩ := (Task.allTraced_append hlength).1 hall
    exact ⟨(Task.allTraced_append hlength).2 ⟨hbefore, h.around_eq.trans haround, ih htask, hafter⟩, hnext⟩
  | join hos =>
    obtain ⟨hall, hnext⟩ := ht
    obtain ⟨ends, hlogs, rfl, hends⟩ := hall.ends hos
    rw [← hlogs]
    exact hnext ends hends
  | giveUp => trivial
  | wait => exact ht

/-- Each step can be recorded. -/
theorem Step.records (h : m.Step e m') (ht : m.task.Traced tr) : ∃ tr', m.Records tr e m' tr' := by
  induction h generalizing tr with
  | act h =>
    cases tr with
    | strand s => exact ⟨_, .act h⟩
    | forked => cases ht
  | note =>
    cases tr with
    | strand s => exact ⟨_, .note⟩
    | forked => cases ht
  | fork =>
    cases tr with
    | strand s => exact ⟨_, .fork⟩
    | forked => cases ht
  | @stage before after t t' _ _ _ _ _ ih =>
    cases tr with
    | strand s => cases ht
    | forked s trs =>
      obtain ⟨hall, -⟩ := ht
      have hlength := hall.length_eq
      obtain ⟨befores, others, rfl, hbefores⟩ : ∃ befores others, trs = befores ++ others ∧
          before.length = befores.length :=
        ⟨trs.take before.length, trs.drop before.length, (List.take_append_drop _ _).symm, by
          rw [List.length_append] at hlength
          rw [List.length_take]
          omega⟩
      obtain ⟨-, hothers⟩ := (Task.allTraced_append hbefores).1 hall
      cases others with
      | nil => cases hothers
      | cons tr afters =>
        obtain ⟨tr', hrecords⟩ := ih hothers.2.1
        exact ⟨_, .stage hbefores hrecords⟩
  | join hos =>
    cases tr with
    | strand s => cases ht
    | forked s trs => exact ⟨_, .join hos⟩
  | giveUp h =>
    cases tr with
    | strand s => cases ht
    | forked s trs => exact ⟨_, .giveUp h⟩
  | wait h => exact ⟨_, .wait h⟩

end Moment

/-! ## Running in one piece -/

/-- What up to `k` steps of a program that runs by itself make of it, of the world and of its strand, and what they
do. -/
def Prog.record : Nat → Prog → World → Strand → List Event × Prog × World × Strand
  | k + 1, .act a next, w, s =>
    if a.ready w then
      let (es, rest) := (next (a.perform w).1).record k (a.perform w).2 s
      (.act a (a.perform w).1 :: es, rest)
    else ([], .act a next, w, s)
  | k + 1, .note n p, w, s =>
    let (es, rest) := p.record k w (s.note n)
    (.note n :: es, rest)
  | _, p, w, s => ([], p, w, s)

/-- Whatever holds at the start of a program and is kept by recorded steps holds of what it comes to. -/
theorem Prog.record_induction {P : List Event → Moment → Trace → Prop}
    (hstep : ∀ {es : List Event} {e : Event} {m m' : Moment} {tr tr' : Trace}, P es m tr → m.Records tr e m' tr' →
      P (es ++ [e]) m' tr') (k : Nat) (p : Prog) (w : World) (s : Strand) (es : List Event)
    (h : P es ⟨.running p, w⟩ (.strand s)) :
    P (es ++ (p.record k w s).1) ⟨.running (p.record k w s).2.1, (p.record k w s).2.2.1⟩
      (.strand (p.record k w s).2.2.2) := by
  induction k generalizing p w s es with
  | zero =>
    rw [record, List.append_nil]
    · exact h
    all_goals nofun
  | succ k ih =>
    cases p with
    | act a next =>
      rw [record]
      by_cases hready : a.ready w
      · rw [if_pos hready, List.append_cons]
        exact ih _ _ _ _ (hstep h (.act hready))
      · rw [if_neg hready, List.append_nil]
        exact h
    | note n p =>
      rw [record, List.append_cons]
      exact ih _ _ _ _ (hstep h .note)
    | _ =>
      rw [record, List.append_nil]
      · exact h
      all_goals nofun

end ValueShell
