import Mathlib.Data.List.Destutter
import ValueShell.Proofs.Runs

/-!
# What forms leave behind

The notes of a run tell which forms were run inside which, what was raised while they were, and how they ended.  A
`Log` puts this together as a tree.  Each strand of a run, that is each stage of a pipeline and whatever is run in one
piece, keeps a log of its own, with the forms that have not ended yet (`Strand`).

`Log.Came` says of an exception that it came out of a log, and out of which forms: it was raised while just these were
being run, and has left them all.  The claim about stacks is that they show these forms, with those that follow
themselves shown once (`collapse`).  `Strand.Leaves` is this claim for an exception that is on its way out of a form
that is still being run; the form itself has yet to be put on the stack.
-/

set_option autoImplicit false

namespace ValueShell

/-! ## Logs -/

/-- What is known of a part of a run that is over. -/
inductive LogEntry where
  /-- An exception was raised, by the form at a site if one was being run -/
  | raised (site : Option CallSite) (reason : Reason)
  /-- The form at a site was run, which left a log of its own, and ended -/
  | form (site : CallSite) (inside : List LogEntry) (o : Outcome)
  /-- Stages were run side by side, and each left a log -/
  | stages (logs : List (List LogEntry))

/-- What happened, in order. -/
abbrev Log := List LogEntry

/-- The exception is the other one, having gone through further sites. -/
def Exception.Extends (e e₀ : Exception) : Prop :=
  e.reason = e₀.reason ∧ e₀.stack <+: e.stack

/-- Is the reason that several things have failed? -/
def Reason.isComposite : Reason → Bool
  | pipeline _ | withCallback .. => true
  | _ => false

/-- The exception came out of what is logged, and out of the forms, innermost first: it was raised while these were
being run, and each of them ended with it. -/
inductive Log.Came : Log → Exception → List CallSite → Prop
  | raised {log : Log} {site : Option CallSite} {reason : Reason} (h : .raised site reason ∈ log) :
      Came log (.mk reason site.toList) []
  | form {log inside : Log} {site : CallSite} {e₀ e : Exception} {forms : List CallSite}
      (h : .form site inside (.error (.exception e)) ∈ log) (hin : Came inside e₀ forms) (he : e.Extends e₀) :
      Came log e (forms ++ [site])
  | stage {log inside : Log} {logs : List Log} {e : Exception} {forms : List CallSite}
      (h : .stages logs ∈ log) (hmem : inside ∈ logs) (hin : Came inside e forms) : Came log e forms

/-- Sites with each run of equal ones that follow one another replaced by the first of them. -/
def collapse (sites : List CallSite) : List CallSite :=
  sites.destutter fun a b ↦ ¬ a.same b

namespace Exception

variable {e e₀ e₁ : Exception}

theorem Extends.refl (e : Exception) : e.Extends e :=
  ⟨rfl, List.prefix_rfl⟩

theorem Extends.trans (h : e₁.Extends e₀) (h' : e.Extends e₁) : e.Extends e₀ :=
  ⟨h'.1.trans h.1, h.2.trans h'.2⟩

@[simp] theorem reason_through (site : CallSite) (e : Exception) : (e.through site).reason = e.reason := by
  cases e
  rw [through]
  split <;> rfl

theorem stack_through (site : CallSite) (e : Exception) : (e.through site).stack =
    if e.stack.getLast?.any (·.same site) then e.stack else e.stack ++ [site] := by
  cases e
  rw [through, apply_ite Exception.stack]
  rfl

theorem extends_through (site : CallSite) (e : Exception) : (e.through site).Extends e := by
  refine ⟨reason_through site e, ?_⟩
  rw [stack_through]
  split
  · exact List.prefix_rfl
  · exact List.prefix_append _ _

/-- The exception after it has gone through the site of what is being run, if that is a form. -/
def outOf (site : Option CallSite) (e : Exception) : Exception :=
  site.elim e e.through

end Exception

/-! ## Stacks -/

theorem CallSite.same_refl (a : CallSite) : a.same a = true := by
  simp [CallSite.same]

theorem getLast?_destutter'_cons (R : CallSite → CallSite → Prop) [DecidableRel R] (a b : CallSite)
    (sites : List CallSite) : (a :: sites.destutter' R b).getLast? = (sites.destutter' R b).getLast? := by
  obtain ⟨c, others, h⟩ := List.exists_cons_of_ne_nil (sites.destutter'_ne_nil R (a := b))
  rw [h, List.getLast?_cons_cons]

theorem destutter'_concat (a site : CallSite) (sites : List CallSite) :
    (sites ++ [site]).destutter' (fun a b ↦ ¬ a.same b) a =
      if (sites.destutter' (fun a b ↦ ¬ a.same b) a).getLast?.any (·.same site) then
        sites.destutter' (fun a b ↦ ¬ a.same b) a
      else sites.destutter' (fun a b ↦ ¬ a.same b) a ++ [site] := by
  induction sites generalizing a with
  | nil => by_cases h : a.same site <;> simp [h]
  | cons b sites ih =>
    rw [List.cons_append, List.destutter'_cons, List.destutter'_cons]
    by_cases h : a.same b
    · rw [if_neg (not_not.2 h), if_neg (not_not.2 h), ih]
    · rw [if_pos h, if_pos h, getLast?_destutter'_cons, ih]
      split <;> rfl

/-- One more site behind collapsed ones is put there as an exception puts it on its stack. -/
theorem collapse_concat (sites : List CallSite) (site : CallSite) : collapse (sites ++ [site]) =
    if (collapse sites).getLast?.any (·.same site) then collapse sites else collapse sites ++ [site] := by
  cases sites with
  | nil => rfl
  | cons a sites => exact destutter'_concat a site sites

namespace Exception

variable {e : Exception} {sites : List CallSite}

theorem stack_through_of_collapse (h : e.stack = collapse sites) (site : CallSite) :
    (e.through site).stack = collapse (sites ++ [site]) := by
  rw [stack_through, h, collapse_concat]

theorem stack_outOf_of_collapse (h : e.stack = collapse sites) (site : Option CallSite) :
    (e.outOf site).stack = collapse (sites ++ site.toList) := by
  cases site with
  | none => rwa [Option.toList_none, List.append_nil]
  | some site => exact stack_through_of_collapse h site

end Exception

/-! ## Strands -/

/-- How far a strand of a run has come. -/
structure Strand where
  /-- What happened since the innermost form began, or since the strand did -/
  log : Log
  /-- The forms that have not ended, innermost first, with what was logged before each began -/
  opened : List (CallSite × Log)
  /-- The form in which the strand was begun -/
  around : Option CallSite

namespace Strand

variable {s s' : Strand} {f : Failure} {o : Outcome}

/-- A strand that begins. -/
def start (around : Option CallSite) : Strand :=
  ⟨[], [], around⟩

/-- The form that is being run. -/
def site (s : Strand) : Option CallSite :=
  match s.opened with
  | (site, _) :: _ => some site
  | [] => s.around

/-- Something more has happened. -/
def add (s : Strand) (entry : LogEntry) : Strand :=
  { s with log := s.log ++ [entry] }

/-- A form begins. -/
def enter (s : Strand) (site : CallSite) : Strand :=
  ⟨[], (site, s.log) :: s.opened, s.around⟩

/-- The innermost form ends. -/
def leave (s : Strand) (o : Outcome) : Strand :=
  match s.opened with
  | (site, before) :: opened => ⟨before ++ [.form site s.log o], opened, s.around⟩
  | [] => s

/-- What a note tells. -/
def note : Note → Strand → Strand
  | .raises site reason, s => s.add (.raised site reason)
  | .starts (some site) _ _, s => s.enter site
  | .ends _ o, s => s.leave o
  | _, s => s

/-- The same forms are being run, and more may have happened. -/
instance : Preorder Strand where
  le s s' := s'.opened = s.opened ∧ s'.around = s.around ∧ s.log <+: s'.log
  le_refl _ := ⟨rfl, rfl, List.prefix_rfl⟩
  le_trans _ _ _ h h' := ⟨h'.1.trans h.1, h'.2.1.trans h.2.1, h.2.2.trans h'.2.2⟩

theorem le_add (s : Strand) (entry : LogEntry) : s ≤ s.add entry :=
  ⟨rfl, rfl, List.prefix_append _ _⟩

theorem site_eq (h : s ≤ s') : s'.site = s.site := by
  rw [site, site, h.1, h.2.1]

/-- The exception came out of what was logged, and once it is out of the form that is being run its stack shows the
forms it came out of. -/
def Shows (s : Strand) (e : Exception) : Prop :=
  ∃ e₀ forms, Log.Came s.log e₀ forms ∧ e.Extends e₀ ∧
    (e.outOf s.site).stack = collapse (forms ++ s.site.toList)

/-- What a failure shows that is on its way out of the form that is being run: if it is an exception, and not one that
several things have failed, then its stack is right. -/
def Leaves (s : Strand) (f : Failure) : Prop :=
  ∀ e, f = .exception e → e.reason.isComposite = false → s.Shows e

/-- What holds when a strand comes to its end. -/
def Ends (s : Strand) (o : Outcome) : Prop :=
  s.opened = [] ∧ ∀ f, o = .error f → s.Leaves f

end Strand

theorem Log.Came.mono {log log' : Log} {e : Exception} {forms : List CallSite} (hlog : log <+: log')
    (h : log.Came e forms) : log'.Came e forms := by
  cases h with
  | raised h => exact .raised (hlog.subset h)
  | form h hin he => exact .form (hlog.subset h) hin he
  | stage h hmem hin => exact .stage (hlog.subset h) hmem hin

namespace Strand

variable {s s' : Strand} {f : Failure} {e : Exception}

theorem Shows.mono (hs : s ≤ s') (h : s.Shows e) : s'.Shows e := by
  obtain ⟨e₀, forms, hcame, hextends, hstack⟩ := h
  refine ⟨e₀, forms, hcame.mono hs.2.2, hextends, ?_⟩
  rw [site_eq hs, hstack]

theorem Leaves.mono (hs : s ≤ s') (h : s.Leaves f) : s'.Leaves f :=
  fun e he hc ↦ (h e he hc).mono hs

theorem leaves_flow (flow : Flow) : s.Leaves (.flow flow) :=
  nofun

theorem leaves_composite {reason : Reason} (h : reason.isComposite = true) : s.Leaves (.ofReason reason) := by
  rintro _ ⟨⟩ hc
  rw [show reason.isComposite = false from hc] at h
  cases h

/-- What has just been raised leaves, whether or not the form that is being run is known. -/
theorem leaves_raised {site : Option CallSite} (hsite : site = none ∨ site = s.site) (reason : Reason) :
    (s.add (.raised site reason)).Leaves (.exception (.mk reason site.toList)) := by
  rintro _ ⟨⟩ -
  refine ⟨_, [], .raised (List.mem_append_right _ List.mem_cons_self), .refl _, ?_⟩
  rw [site_eq (s.le_add _), List.nil_append]
  rcases hsite with rfl | rfl
  · have hraised : (Exception.mk reason []).stack = collapse [] := rfl
    exact Exception.stack_outOf_of_collapse hraised s.site
  · cases s.site with
    | none => rfl
    | some site => simp [Exception.outOf, Exception.through, Exception.stack, CallSite.same_refl, collapse]

/-- A form that ends leaves its log behind in that of what is around it. -/
theorem leave_eq {s₁ : Strand} {site : CallSite} (h : s.enter site ≤ s₁) (o : Outcome) :
    s₁.leave o = s.add (.form site s₁.log o) := by
  rw [leave, h.1, h.2.1]
  rfl

/-- What leaves a form has gone through its site, and leaves what is around it. -/
theorem leaves_form {s₁ : Strand} {site : CallSite} (h : s.enter site ≤ s₁) (hf : s₁.Leaves f) :
    (s.add (.form site s₁.log (.error (f.through site)))).Leaves (f.through site) := by
  cases f with
  | exception e =>
    rintro _ ⟨⟩ hc
    rw [Exception.reason_through] at hc
    obtain ⟨e₀, forms, hcame, hextends, hstack⟩ := hf e rfl hc
    rw [site_eq h] at hstack
    refine ⟨_, forms ++ [site], .form (List.mem_append_right _ List.mem_cons_self) hcame
      (hextends.trans (e.extends_through site)), .refl _, ?_⟩
    exact Exception.stack_outOf_of_collapse hstack _
  | parse _ _ => nofun
  | compile _ _ => nofun
  | flow _ => nofun

/-- What leaves a stage leaves the form that is being run around the stages. -/
theorem leaves_stage {logs : List Log} {inside : Log} (hmem : inside ∈ logs)
    (hf : Leaves ⟨inside, [], s.site⟩ f) : (s.add (.stages logs)).Leaves f := by
  intro e he hc
  obtain ⟨e₀, forms, hcame, hextends, hstack⟩ := hf e he hc
  refine ⟨e₀, forms, .stage (List.mem_append_right _ List.mem_cons_self) hmem hcame, hextends, ?_⟩
  rw [site_eq (s.le_add _)]
  exact hstack

end Strand

end ValueShell
