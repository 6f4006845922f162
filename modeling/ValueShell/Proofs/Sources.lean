import ValueShell.Proofs.Capture
import ValueShell.Proofs.Forms.Programs
import ValueShell.Proofs.Widening.Lowered

/-!
# Programs that run code in its own source

Code stands in a source, and everything about it that outlives the compiler says in which: call sites and lambdas
(`Op.IsOf`).  `Prog.Sourced p s` says what a program makes of this from a strand on.

* Each form that begins stands in the source of the frame it is run in.
* Each closure that is made is code of the source it is given.
* Each module that is looked for is looked for from the directory of the source in which the form that is being run
  stands.

Closures live in the store, where a program finds them again, so it may count on one thing in return: a closure it is
handed is code of its source (`Act.Gives`).  `Moment.Records.sourced` is where both sides meet.  In a world whose
closures are all like this (`World.OwnCode`), each step leaves such a world and a task that keeps to it.

`Comp.Sourced site m` says the same of a computation that begins while the form at `site` is being run.  How it ends
is of no importance, and so there is no postcondition.
-/

set_option autoImplicit false

namespace ValueShell

/-! ## Code of a source -/

/-- The operation is code of the source: its forms stand there, and its lambdas name it as theirs. -/
def Op.IsOf (op : Op) (source : Source) : Prop :=
  op.WidensTo source op

/-- **What is compiled from a source is code of it.** -/
theorem compile_isOf {source : Source} {scope : Scope} {op : Op} (h : compile source scope = .ok op) :
    op.IsOf source := by
  unfold compile at h
  split at h
  next => cases h
  next tree _ =>
    split at h
    next => cases h
    next op' hop =>
      cases h
      obtain ⟨op'', hop'', hwidens⟩ := tree.lower_widens source (.refl scope) hop
      obtain rfl := Except.ok.inj (hop.symm.trans hop'')
      exact hwidens

/-- All closures are code of their sources. -/
def World.OwnCode (w : World) : Prop :=
  ∀ id c, w.store.closure? id = some c → c.body.IsOf c.source

/-! ## Acts and notes -/

/-- What an act keeps to while the form at the site is being run. -/
def Act.Minds (site : Option CallSite) : Act → Prop
  | .newClosure _ _ _ body source => body.IsOf source
  | .resolveModule _ base => ∀ here, site = some here → base = here.source.path.bind parentPath
  | _ => True

/-- What can be counted on of a reply. -/
def Act.Gives : (a : Act) → a.Reply → Prop
  | .closure _, found => ∀ c, found = some c → c.body.IsOf c.source
  | _, _ => True

/-- A form that begins stands in the source of its frame. -/
def Note.Minds : Note → Prop
  | .starts (some site) source _ => site.source = source
  | _ => True

namespace Act

variable {a : Act} {site : Option CallSite} {w : World}

theorem perform_gives (hw : w.OwnCode) (a : Act) : a.Gives (a.perform w).1 := by
  cases a with
  | closure id => exact fun c hc ↦ hw id c hc
  | _ => trivial

theorem perform_ownCode (h : a.Minds site) (hw : w.OwnCode) : (a.perform w).2.OwnCode := by
  intro id c hc
  obtain hsame | ⟨space, outer, signature, body, source, rfl, hstore⟩ := a.perform_closures w
  · rw [Store.closure?, hsame] at hc
    exact hw id c hc
  · rw [Store.closure?, hstore, Store.newClosure, Array.getElem?_push] at hc
    split at hc
    · cases hc
      exact h
    · exact hw id c hc

end Act

/-! ## Programs -/

mutual

/-- Begun in a strand, the program runs code in its own source. -/
def Prog.Sourced : Prog → Strand → Prop
  | .done _, _ | .spent, _ => True
  | .act a next, s => a.Minds s.site ∧ ∀ r, a.Gives r → (next r).Sourced s
  | .note n p, s => n.Minds ∧ p.Sourced (s.note n)
  | .fork stages next, s =>
    Prog.AllSourced stages (.start s.site) ∧ ∀ os logs, (next os).Sourced (s.add (.stages logs))

/-- All the programs do, each begun in the strand. -/
def Prog.AllSourced : List Prog → Strand → Prop
  | [], _ => True
  | p :: ps, s => p.Sourced s ∧ Prog.AllSourced ps s

end

theorem Prog.allSourced_iff {ps : List Prog} {s : Strand} : Prog.AllSourced ps s ↔ ∀ p ∈ ps, p.Sourced s := by
  induction ps with
  | nil => simp [Prog.AllSourced]
  | cons p ps ih => simp [Prog.AllSourced, ih]

/-! ## Computations -/

/-- While the form at the site is being run, the computation runs code in its own source, with anything behind it that
does. -/
def Comp.Sourced {α : Type} (site : Option CallSite) (m : Comp α) : Prop :=
  ∀ (s : Strand) (k : Except Failure α → Prog), s.site = site → (∀ s', s ≤ s' → ∀ r, (k r).Sourced s') →
    (m k).Sourced s

namespace Comp.Sourced

variable {α β : Type} {site : Option CallSite} {m : Comp α}

theorem ofExcept {r : Except Failure α} : (Comp.ofExcept r).Sourced site :=
  fun _ _ _ hk ↦ hk _ le_rfl _

theorem pure {a : α} : (Pure.pure a : Comp α).Sourced site :=
  ofExcept

theorem fail {f : Failure} : (Comp.fail f : Comp α).Sourced site :=
  ofExcept

theorem spent : (Comp.spent : Comp α).Sourced site :=
  fun _ _ _ _ ↦ trivial

theorem bind {g : α → Comp β} (h : m.Sourced site) (hg : ∀ a, (g a).Sourced site) : (m >>= g).Sourced site := by
  intro s k hs hk
  refine h s _ hs fun s' hs' r ↦ ?_
  cases r with
  | ok a => exact hg a s' k ((Strand.site_eq hs').trans hs) fun s₁ hs₁ ↦ hk s₁ (hs'.trans hs₁)
  | error f => exact hk s' hs' (.error f)

theorem discard (h : m.Sourced site) : (discard m).Sourced site :=
  h.bind fun _ ↦ pure

theorem result (h : m.Sourced site) : m.result.Sourced site :=
  fun s _ hs hk ↦ h s _ hs fun s' hs' _ ↦ hk s' hs' _

theorem mapFailure {g : Failure → Failure} (h : m.Sourced site) : (m.mapFailure g).Sourced site := by
  intro s k hs hk
  refine h s _ hs fun s' hs' r ↦ ?_
  cases r <;> exact hk s' hs' _

theorem act {a : Act} (h : a.Minds site) : (Comp.act a).Sourced site := by
  rintro s k rfl hk
  exact ⟨h, fun _ _ ↦ hk s le_rfl _⟩

/-- What follows the look for a closure gets code of the closure's source. -/
theorem closure_bind {id : ClosureId} {g : Option Closure → Comp β}
    (h : ∀ found, (∀ c, found = some c → c.body.IsOf c.source) → (g found).Sourced site) :
    (Comp.act (.closure id) >>= g).Sourced site :=
  fun s k hs hk ↦ ⟨trivial, fun found hfound ↦ h found hfound s k hs hk⟩

/-- A note that is no form's. -/
theorem note {n : Note} (hn : n.Minds) (hle : ∀ s : Strand, s ≤ s.note n) : (Comp.note n).Sourced site :=
  fun s _ _ hk ↦ ⟨hn, hk _ (hle s) _⟩

theorem forEach {g : α → Comp Unit} {items : List α} (h : ∀ a, (g a).Sourced site) :
    (Comp.forEach g items).Sourced site := by
  induction items with
  | nil => exact pure
  | cons a items ih => exact (h a).bind fun _ ↦ ih

theorem mapEach {g : α → Comp β} {items : List α} (h : ∀ a, (g a).Sourced site) :
    (Comp.mapEach g items).Sourced site := by
  induction items with
  | nil => exact pure
  | cons a items ih => exact (h a).bind fun _ ↦ ih.bind fun _ ↦ pure

theorem repeatWhile {body : Comp Bool} (h : body.Sourced site) (n : Nat) :
    (Comp.repeatWhile body n).Sourced site := by
  induction n with
  | zero => exact spent
  | succ n ih =>
    refine h.bind fun again ↦ ?_
    cases again with
    | false => exact pure
    | true => exact ih

/-- Stages begin strands of their own, in the form that forks. -/
theorem fork {stages : List Prog} (h : ∀ p ∈ stages, p.Sourced (.start site)) : (Comp.fork stages).Sourced site := by
  rintro s k rfl hk
  exact ⟨Prog.allSourced_iff.2 h, fun _ _ ↦ hk _ (s.le_add _) _⟩

/-- **A form runs code in its own source** if it stands in that of its frame and what is run in it does. -/
theorem atSite {fm : Frame} {here : CallSite} {f : Frame → Comp Unit} (hhere : here.source = fm.source)
    (h : (f { fm with site := some here }).Sourced (some here)) : (fm.atSite here f).Sourced site := by
  intro s k _ hk
  have hends (s₁ : Strand) (hs₁ : s.enter here ≤ s₁) (o : Outcome) (r : Except Failure Unit) :
      (k r).Sourced (s₁.leave o) := by
    rw [s.leave_eq hs₁]
    exact hk _ (s.le_add _) r
  refine ⟨hhere, h (s.enter here) _ rfl fun s₁ hs₁ r ↦ ?_⟩
  cases r with
  | ok _ => exact ⟨trivial, hends s₁ hs₁ _ _⟩
  | error f => exact ⟨trivial, hends s₁ hs₁ _ _⟩

theorem program {m : Comp Unit} (h : m.Sourced site) : m.program.Sourced (.start site) :=
  h _ _ rfl fun _ _ _ ↦ trivial

end Comp.Sourced

/-! ## Tasks -/

mutual

/-- All parts of the task run code in its own source. -/
def Task.Sourced : Task → Trace → Prop
  | .running p, .strand s => p.Sourced s
  | .forked stages next, .forked s traces =>
    Task.AllSourced stages traces ∧ ∀ os logs, (next os).Sourced (s.add (.stages logs))
  | _, _ => False

/-- All the tasks do. -/
def Task.AllSourced : List Task → List Trace → Prop
  | [], [] => True
  | t :: ts, tr :: trs => t.Sourced tr ∧ Task.AllSourced ts trs
  | _, _ => False

end

namespace Task

variable {ts us : List Task} {trs urs : List Trace}

theorem allSourced_append (hlength : ts.length = trs.length) :
    AllSourced (ts ++ us) (trs ++ urs) ↔ AllSourced ts trs ∧ AllSourced us urs := by
  induction ts generalizing trs with
  | nil =>
    obtain rfl := List.length_eq_zero_iff.1 hlength.symm
    simp [AllSourced]
  | cons t ts ih =>
    cases trs with
    | nil => cases hlength
    | cons tr trs => simp [AllSourced, ih (Nat.succ_inj.1 hlength), and_assoc]

theorem allSourced_running {ps : List Prog} {s : Strand} (h : Prog.AllSourced ps s) :
    AllSourced (ps.map .running) (ps.map fun _ ↦ .strand s) := by
  induction ps with
  | nil => trivial
  | cons p ps ih => exact ⟨h.1, ih h.2⟩

end Task

/-- **Each step runs code in its own source**, and leaves no other code in the store. -/
theorem Moment.Records.sourced {m m' : Moment} {e : Event} {tr tr' : Trace} (h : m.Records tr e m' tr')
    (ht : m.task.Sourced tr) (hw : m.world.OwnCode) : m'.task.Sourced tr' ∧ m'.world.OwnCode := by
  induction h with
  | act => exact ⟨ht.2 _ (Act.perform_gives hw _), Act.perform_ownCode ht.1 hw⟩
  | note => exact ⟨ht.2, hw⟩
  | fork => exact ⟨⟨Task.allSourced_running ht.1, ht.2⟩, hw⟩
  | stage hlength _ ih =>
    obtain ⟨hall, hnext⟩ := ht
    obtain ⟨hbefore, htask, hafter⟩ := (Task.allSourced_append hlength).1 hall
    obtain ⟨htask', hw'⟩ := ih htask hw
    exact ⟨⟨(Task.allSourced_append hlength).2 ⟨hbefore, htask', hafter⟩, hnext⟩, hw'⟩
  | join => exact ⟨ht.2 _ _, hw⟩
  | giveUp => exact ⟨trivial, hw⟩
  | wait => exact ⟨ht, hw⟩

end ValueShell
