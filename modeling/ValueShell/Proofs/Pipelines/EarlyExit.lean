import ValueShell.Proofs.Pipelines

/-!
# Readers that leave early

A stage that writes to a reader that is gone fails, and a pipeline forgives that in every stage but the last.  What it
forgives is the plain failure: when a body and what is to run after it both lose their reader, or several stages of a
pipeline inside a stage do, the failures come as one that holds them, and that one stays.

* **Failures** (`Failure.onlyReaderGone`): those that hold nothing but lost readers.  The ways in which outcomes
  combine make such failures of such failures (`Outcome.OnlyReaderGone.withCallback`, `ofStages`).
* **Outcomes** (`Outcome.ofStages_eq_ok_iff`): when the stages of a pipeline end it well.
* **Runs** (`Op.Course`): whatever the stages are, the pipeline ends as their outcomes say, by one case for each
  moment of its run.

`Op.pipeline_forgives` puts these together, and `Op.pipeline_keeps_pairs` has a script that fails for lost readers
alone.
-/

set_option autoImplicit false

namespace ValueShell

/-! ## Failures -/

mutual

/-- Does the failure hold nothing but lost readers? -/
def Failure.onlyReaderGone : Failure → Bool
  | .exception e => e.onlyReaderGone
  | .parse _ _ | .compile _ _ | .flow _ => false

/-- Does the exception hold nothing but lost readers? -/
def Exception.onlyReaderGone : Exception → Bool
  | .mk reason _ => reason.onlyReaderGone

/-- Does the reason hold nothing but lost readers? -/
def Reason.onlyReaderGone : Reason → Bool
  | .readerGone => true
  | .pipeline errors => allReaderGone errors
  | .withCallback body callback => body.onlyReaderGone && callback.onlyReaderGone
  | _ => false

/-- Do all of the failures hold nothing but lost readers? -/
def allReaderGone : List Failure → Bool
  | [] => true
  | e :: es => e.onlyReaderGone && allReaderGone es

end

theorem allReaderGone_eq_all (es : List Failure) : allReaderGone es = es.all Failure.onlyReaderGone := by
  induction es with
  | nil => rfl
  | cons e es ih => rw [allReaderGone, List.all_cons, ih]

namespace Failure

/-- Does the failure hold others? -/
def isComposite (failure : Failure) : Bool :=
  match failure.reason? with
  | some (.pipeline _) | some (.withCallback _ _) => true
  | _ => false

/-- A lost reader is plain, or it is inside a failure that holds others. -/
theorem isReaderGone_eq {e : Failure} (h : e.onlyReaderGone = true) : e.isReaderGone = !e.isComposite := by
  cases e with
  | exception e =>
    obtain ⟨reason, stack⟩ := e
    cases reason
    case readerGone | pipeline | withCallback => rfl
    all_goals exact absurd h Bool.false_ne_true
  | parse | compile | flow => exact absurd h Bool.false_ne_true

@[simp] theorem onlyReaderGone_through (site : CallSite) (e : Failure) :
    (e.through site).onlyReaderGone = e.onlyReaderGone := by
  cases e with
  | exception e =>
    obtain ⟨reason, stack⟩ := e
    rw [through, Exception.through]
    split <;> rfl
  | parse | compile | flow => rfl

end Failure

namespace Outcome

/-! ## Outcomes -/

variable {os : List Outcome}

/-- If the run has failed, then for nothing but lost readers. -/
def OnlyReaderGone (o : Outcome) : Prop :=
  ∀ e, o = .error e → e.onlyReaderGone = true

theorem OnlyReaderGone.withCallback {body callback : Outcome} (hbody : body.OnlyReaderGone)
    (hcallback : callback.OnlyReaderGone) : (withCallback body callback).OnlyReaderGone := by
  rintro e he
  match body, callback with
  | .ok (), _ => exact hcallback e he
  | .error _, .ok () => exact hbody e he
  | .error (.flow f), .error _ => exact absurd (hbody _ rfl) Bool.false_ne_true
  | .error (.exception e₁), .error e₂ | .error (.parse _ _), .error e₂ | .error (.compile _ _), .error e₂ =>
    cases he
    exact Bool.and_eq_true_iff.2 ⟨hbody _ rfl, hcallback _ rfl⟩

theorem OnlyReaderGone.combine (h : ∀ o ∈ os, o.OnlyReaderGone) : (combine os).OnlyReaderGone := by
  have hfailures : ∀ e ∈ os.filterMap failure?, e.onlyReaderGone = true := by
    intro e he
    obtain ⟨o, ho, hoe⟩ := List.mem_filterMap.1 he
    cases o with
    | ok => cases hoe
    | error e' =>
      cases hoe
      exact h _ ho _ rfl
  intro e he
  rw [Outcome.combine] at he
  split at he
  · cases he
  · rename_i e' heq
    cases he
    exact hfailures _ (heq ▸ List.mem_singleton_self _)
  · cases he
    change allReaderGone _ = true
    rw [allReaderGone_eq_all]
    exact List.all_eq_true.2 hfailures

theorem OnlyReaderGone.withoutReaderGone {o : Outcome} (h : o.OnlyReaderGone) : o.withoutReaderGone.OnlyReaderGone := by
  intro e he
  cases o with
  | ok => cases he
  | error e' =>
    rw [Outcome.withoutReaderGone] at he
    split at he
    · cases he
    · exact h e he

theorem OnlyReaderGone.ofStages (h : ∀ o ∈ os, o.OnlyReaderGone) : (ofStages os).OnlyReaderGone := by
  refine .combine fun o ho ↦ ?_
  rw [List.mem_append, List.mem_map, Option.mem_toList] at ho
  rcases ho with ⟨o', ho', rfl⟩ | ho
  · exact (h o' (List.dropLast_subset _ ho')).withoutReaderGone
  · exact h o (List.mem_of_getLast? ho)

/-- The outcome after it has gone through a call site. -/
def through (site : CallSite) (o : Outcome) : Outcome :=
  o.mapError (·.through site)

theorem OnlyReaderGone.through {o : Outcome} (h : o.OnlyReaderGone) (site : CallSite) :
    (o.through site).OnlyReaderGone := by
  intro e he
  cases o with
  | ok => cases he
  | error e' =>
    cases he
    rw [Failure.onlyReaderGone_through, h e' rfl]

theorem through_eq_ok_iff {o : Outcome} {site : CallSite} : o.through site = .ok () ↔ o = .ok () := by
  cases o with
  | ok => exact Iff.rfl
  | error => exact ⟨nofun, nofun⟩

theorem combine_eq_ok_iff : combine os = .ok () ↔ ∀ e, .error e ∉ os := by
  have hnil : os.filterMap failure? = [] ↔ ∀ e, .error e ∉ os := by
    rw [List.filterMap_eq_nil_iff]
    constructor
    · intro h e he
      cases h _ he
    · intro h o ho
      cases o with
      | ok => rfl
      | error e => exact absurd ho (h e)
  rw [← hnil, combine]
  split <;> simp_all

theorem withoutReaderGone_eq_error_iff {o : Outcome} {e : Failure} :
    o.withoutReaderGone = .error e ↔ o = .error e ∧ e.isReaderGone = false := by
  cases o with
  | ok => simp [withoutReaderGone]
  | error e' =>
    rw [withoutReaderGone]
    split <;> grind

/-- Stages end a pipeline well if the last has ended well, and each of the others has too or has failed for a lost
reader and nothing else. -/
theorem ofStages_eq_ok_iff : ofStages os = .ok () ↔
    (∀ e, .error e ∈ os.dropLast → e.isReaderGone = true) ∧ ∀ e, os.getLast? ≠ some (.error e) := by
  rw [ofStages, combine_eq_ok_iff]
  simp only [List.mem_append, List.mem_map, Option.mem_toList, withoutReaderGone_eq_error_iff, not_or, not_exists,
    not_and, Bool.not_eq_false]
  constructor
  · intro h
    exact ⟨fun e he ↦ (h e).1 _ he rfl, fun e ↦ (h e).2⟩
  · rintro ⟨hothers, hlast⟩ e
    exact ⟨fun o ho hoe ↦ hothers e (hoe ▸ ho), hlast e⟩

/-- If the last stage has ended well and the others have failed for lost readers only, the pipeline ends well just if
none of the failures holds others. -/
theorem ofStages_eq_ok_iff_of_onlyReaderGone (hlast : os.getLast? = some (.ok ()))
    (h : ∀ o ∈ os, o.OnlyReaderGone) : ofStages os = .ok () ↔ ∀ e, .error e ∈ os → e.isComposite = false := by
  have hsplit : os = os.dropLast ++ [.ok ()] := by
    obtain ⟨before, rfl⟩ := List.getLast?_eq_some_iff.1 hlast
    simp
  have hmem (e : Failure) : .error e ∈ os ↔ .error e ∈ os.dropLast := by
    conv_lhs => rw [hsplit]
    simp
  rw [ofStages_eq_ok_iff, hlast]
  simp only [hmem]
  constructor
  · intro ⟨hothers, _⟩ e he
    have hplain := hothers e he
    rwa [Failure.isReaderGone_eq (h _ (List.dropLast_subset _ he) e rfl), Bool.not_eq_true'] at hplain
  · intro hothers
    refine ⟨fun e he ↦ ?_, nofun⟩
    rw [Failure.isReaderGone_eq (h _ (List.dropLast_subset _ he) e rfl), hothers e he]
    rfl

end Outcome

/-! ## Runs -/

/-- Finishing a pipeline is to report its outcome, and to end with it. -/
theorem Op.finish_eq (site : CallSite) (o : Outcome) :
    Op.finish site o = .note (.ends site (o.through site)) (.done (o.through site)) := by
  cases o <;> rfl

/-- What a run of a pipeline has come to, whatever its stages are. -/
inductive Op.Course (n : Nat) (fm : Frame) (site : CallSite) (ops : List Op) : Task → Prop
  | starting {note : Note} {missing : Nat} {k : Except Failure (List Pipe) → Prog}
      (hk : ∀ pipes, ∃ pipes', k (.ok pipes) = Op.forked n fm site ops pipes') :
      Course n fm site ops (.running (.note note (newPipes (max fm.config.valueBuffer 1) missing k)))
  | opening {missing : Nat} {k : Except Failure (List Pipe) → Prog}
      (hk : ∀ pipes, ∃ pipes', k (.ok pipes) = Op.forked n fm site ops pipes') :
      Course n fm site ops (.running (newPipes (max fm.config.valueBuffer 1) missing k))
  | flowing {stages : List Task} :
      Course n fm site ops (.forked stages fun os ↦ Op.finish site (Outcome.ofStages os))
  | ending {os : List Outcome} : Course n fm site ops (.running (Op.finish site (Outcome.ofStages os)))
  | ended {o : Outcome} : Course n fm site ops (.running (.done o))
  | spent : Course n fm site ops (.running .spent)

namespace Op.Course

variable {n : Nat} {fm : Frame} {site : CallSite} {ops : List Op} {m m' : Moment} {e : Event}

theorem opening_step {missing : Nat} {k : Except Failure (List Pipe) → Prog} {w : World}
    (hk : ∀ pipes, ∃ pipes', k (.ok pipes) = Op.forked n fm site ops pipes')
    (hs : Moment.Step ⟨.running (newPipes (max fm.config.valueBuffer 1) missing k), w⟩ e m') :
    Course n fm site ops m'.task := by
  have hopening : Course n fm site ops (.running (newPipes (max fm.config.valueBuffer 1) missing k)) := .opening hk
  cases missing with
  | zero =>
    obtain ⟨pipes, hfork⟩ := hk []
    change Moment.Step ⟨.running (k (.ok [])), w⟩ e m' at hs
    rw [hfork] at hs
    cases hs with
    | fork => exact .flowing
    | wait =>
      rw [← hfork]
      exact hopening
  | succ missing =>
    cases hs with
    | act => exact opening fun others ↦ hk (_ :: others)
    | wait => exact hopening

theorem step (h : Course n fm site ops m.task) (hs : m.Step e m') : Course n fm site ops m'.task := by
  obtain ⟨t, w⟩ := m
  cases h with
  | starting hk =>
    cases hs with
    | note => exact .opening hk
    | wait => exact .starting hk
  | opening hk => exact opening_step hk hs
  | flowing =>
    cases hs with
    | stage => exact .flowing
    | join => exact .ending
    | giveUp => exact .spent
    | wait => exact .flowing
  | @ending os =>
    have hending : Course n fm site ops (.running (Op.finish site (Outcome.ofStages os))) := .ending
    rw [finish_eq] at hs hending
    cases hs with
    | note => exact .ended
    | wait => exact hending
  | ended =>
    cases hs with
    | wait => exact .ended
  | spent =>
    cases hs with
    | wait => exact .spent

theorem reaches {w : World}
    (h : Moment.Reaches ⟨.running ((Op.pipeline site ops).exec (engine n) fm).program, w⟩ m) :
    Course n fm site ops m.task := by
  induction h with
  | refl =>
    obtain ⟨k, hk, hprogram⟩ := Op.program_pipeline n fm site ops
    rw [hprogram]
    exact .starting fun pipes ↦ ⟨pipes, hk pipes⟩
  | tail _ hstep ih =>
    obtain ⟨e, hs⟩ := hstep
    exact ih.step hs

/-- The stages of a pipeline end it with the outcome that theirs combine to. -/
theorem forked {stages : List Task} {next : List Outcome → Prog}
    (h : Course n fm site ops (.forked stages next)) (os : List Outcome) :
    next os = Op.finish site (Outcome.ofStages os) := by
  cases h
  rfl

end Op.Course

/-- **Readers that leave early.**  Whatever the stages of a pipeline are, let the last of them end well, and let the
failures of the others hold nothing but lost readers.  Then what the outcomes combine to is that all is well just if
none of these failures holds others.  In every run of the pipeline whose stages end so, that is also how the pipeline
ends; and if it fails, then with a failure that holds nothing but lost readers itself. -/
theorem Op.pipeline_forgives {os : List Outcome} (hlast : os.getLast? = some (.ok ()))
    (hgone : ∀ e, .error e ∈ os → e.onlyReaderGone = true) (n : Nat) (fm : Frame) (site : CallSite) (ops : List Op)
    (w : World) :
    (Outcome.ofStages os = .ok () ↔ ∀ e, .error e ∈ os → e.isComposite = false) ∧
    ∀ m stages next, Moment.Reaches ⟨.running ((Op.pipeline site ops).exec (engine n) fm).program, w⟩ m →
      m.task = .forked stages next → ∃ o, next os = .note (.ends site o) (.done o) ∧
        (o = .ok () ↔ ∀ e, .error e ∈ os → e.isComposite = false) ∧ ∀ e, o = .error e → e.onlyReaderGone = true := by
  have hothers : ∀ o ∈ os, o.OnlyReaderGone := fun o ho e heq ↦ hgone e (heq ▸ ho)
  have hok := Outcome.ofStages_eq_ok_iff_of_onlyReaderGone hlast hothers
  refine ⟨hok, fun m stages next h hm ↦ ⟨_, ?_, ?_, (Outcome.OnlyReaderGone.ofStages hothers).through site⟩⟩
  · have hcourse : Op.Course n fm site ops (.forked stages next) := hm ▸ Op.Course.reaches h
    rw [hcourse.forked os, Op.finish_eq]
  · rw [Outcome.through_eq_ok_iff, hok]

/-- The failure of whoever has lost its reader. -/
def Failure.lostReader : Failure :=
  .ofReason .readerGone

/-- A run of the pipeline `put a b c | all | all` in which the first two stages lose their readers and the last ends
well: the pipeline ends well. -/
theorem Op.pipeline_forgives_two : ∃ m stages next,
    Moment.Reaches ⟨.running (threeThroughTwo.exec (engine 8) tightFrame).program, tightWorld⟩ m ∧
    m.task = .forked stages next ∧
    next [.error .lostReader, .error (Failure.lostReader.through default), .ok ()] =
      .note (.ends default (.ok ())) (.done (.ok ())) := by
  let os : List Outcome := [.error .lostReader, .error (Failure.lostReader.through default), .ok ()]
  have hmem (e : Failure) (he : .error e ∈ os) : e = .lostReader ∨ e = Failure.lostReader.through default := by
    simpa [os] using he
  have hgone : ∀ e, .error e ∈ os → e.onlyReaderGone = true := by
    intro e he
    rcases hmem e he with rfl | rfl <;> rfl
  have hplain : ∀ e, .error e ∈ os → e.isComposite = false := by
    intro e he
    rcases hmem e he with rfl | rfl <;> rfl
  have hlast : os.getLast? = some (.ok ()) := rfl
  obtain ⟨-, hnext⟩ := Op.pipeline_forgives hlast hgone 8 tightFrame default
    (Op.relays default [.literal "a", .literal "b", .literal "c"] [default, default]) tightWorld
  have hreaches : Moment.Reaches ⟨.running (threeThroughTwo.exec (engine 8) tightFrame).program, tightWorld⟩ _ :=
    .head .note (.head (.act rfl) (.head (.act rfl) (.one .fork)))
  refine ⟨_, _, _, hreaches, rfl, ?_⟩
  obtain ⟨o, hends, hok, -⟩ := hnext _ _ _ hreaches rfl
  rwa [hok.2 hplain] at hends

/-- The failure of a run that has ended with one. -/
def Task.Halt.failure? : Task.Halt → Option Failure
  | .ended o => o.failure?
  | .spent | .stuck => none

theorem Task.Halt.eq_ended_error {halt : Task.Halt} {e : Failure} (h : halt.failure? = some e) :
    halt = .ended (.error e) := by
  cases halt with
  | ended o =>
    cases o with
    | ok => cases h
    | error => exact congrArg _ (congrArg _ (Option.some.inj h))
  | spent | stuck => cases h

/-- A body and its callback both lose the reader they have in common, and the reader ends well. -/
def earlyExit : Source :=
  { (default : Source) with code := "try { put a b c } finally { put d } | nop" }

/-- **Two lost readers in one stage are a failure**, though the last stage has ended well and nothing but readers is
lost; and there is a script that fails for no other reason. -/
theorem Op.pipeline_keeps_pairs :
    (∃ os : List Outcome, os = [Outcome.withCallback (.error .lostReader) (.error .lostReader), .ok ()] ∧
      os.getLast? = some (.ok ()) ∧ (∀ e, .error e ∈ os → e.onlyReaderGone = true) ∧ Outcome.ofStages os ≠ .ok ()) ∧
    ∃ op e, compile earlyExit (tightWorld.scope tightWorld.global) = .ok op ∧
      ((op.exec (engine 8) tightFrame).program.run 8 tightWorld).1 = Task.Halt.ended (.error e) ∧
      e.onlyReaderGone = true := by
  constructor
  · have hlost : Outcome.OnlyReaderGone (.error .lostReader) := fun e he ↦ Except.error.inj he ▸ rfl
    refine ⟨_, rfl, rfl, fun e he ↦ ?_, nofun⟩
    rcases List.mem_pair.1 he with he | he
    · exact hlost.withCallback hlost e he.symm
    · cases he
  · have hrun : (compile earlyExit (tightWorld.scope tightWorld.global)).toOption.any (fun op ↦
        ((op.exec (engine 8) tightFrame).program.run 8 tightWorld).1.failure?.any Failure.onlyReaderGone) = true := by
      decide +kernel
    obtain ⟨op, hop, hfails⟩ := (Option.any_eq_true ..).1 hrun
    obtain ⟨e, he, hgone⟩ := (Option.any_eq_true ..).1 hfails
    exact ⟨op, e, eq_ok_of_toOption hop, Task.Halt.eq_ended_error he, hgone⟩

end ValueShell
