import Mathlib.Order.Basic
import ValueShell.Proofs.Runs

/-!
# Protocols

The stages of a pipeline share one world, so what one part of a task knows about the world has to survive
whatever the others do.  A `Protocol` says what can be known (`S`, ordered by how things may develop), what
the world is then, which notes may be left and which failures may end a part.

* `Prog.Keeps P p s` says that a program keeps to the protocol when it is started knowing `s`: each of its acts
  leads from anything that may have become of its knowledge to something that is known again.
* `Protocol.Meets s m Q` says the same of a computation, and that `Q` holds of its result when it gives one.
  There is one rule for each way in which computations are put together.
* `Protocol.reaches` is what all this is for: a task that keeps to the protocol does so at every step of
  every run, however its parts take turns.
-/

set_option autoImplicit false

namespace ValueShell

/-- What the parts of a task keep to. -/
structure Protocol (S : Type) [Preorder S] where
  /-- The world as it is known -/
  world : S → World
  /-- The notes that may be left -/
  allows : Note → Prop
  /-- The failures that may end a part -/
  mayFail : S → Failure → Prop
  mayFail_mono : ∀ {s s' : S} {e : Failure}, s ≤ s' → mayFail s e → mayFail s' e
  /-- Time may pass -/
  wait : ∀ (s : S) (now : Nat), (world s).clock.now ≤ now →
    ∃ s', s ≤ s' ∧ world s' = { world s with clock := { (world s).clock with now } }

variable {S : Type} [Preorder S] {P : Protocol S} {α β : Type}

namespace Protocol

/-- The outcome is one that may end a part. -/
def Ends (P : Protocol S) (s : S) : Outcome → Prop
  | .ok () => True
  | .error e => P.mayFail s e

/-- From whatever may have become of `s`, the act leads to something that is known again and of which `Q`
holds together with the reply. -/
def Does (P : Protocol S) (a : Act) (s : S) (Q : S → a.Reply → Prop) : Prop :=
  ∀ s₁, s ≤ s₁ → a.ready (P.world s₁) = true →
    ∃ s₂, s₁ ≤ s₂ ∧ P.world s₂ = (a.perform (P.world s₁)).2 ∧ Q s₂ (a.perform (P.world s₁)).1

theorem Ends.mono {s s' : S} {o : Outcome} (hs : s ≤ s') (h : P.Ends s o) : P.Ends s' o := by
  cases o with
  | ok => trivial
  | error e => exact P.mayFail_mono hs h

theorem Does.mono {s s' : S} {a : Act} {Q : S → a.Reply → Prop} (hs : s ≤ s') (h : P.Does a s Q) :
    P.Does a s' Q :=
  fun s₁ hs₁ ↦ h s₁ (hs.trans hs₁)

end Protocol

/-! ## Programs and tasks -/

mutual

/-- The program keeps to the protocol when it is started knowing `s`. -/
def Prog.Keeps (P : Protocol S) : Prog → S → Prop
  | .done o, s => P.Ends s o
  | .spent, _ => True
  | .act a next, s => P.Does a s fun s' r ↦ (next r).Keeps P s'
  | .note n p, s => P.allows n ∧ p.Keeps P s
  | .fork stages next, s =>
    Prog.AllKeep P stages s ∧
      ∀ s', s ≤ s' → ∀ os, (∀ o ∈ os, P.Ends s' o) → (next os).Keeps P s'

/-- All the programs keep to the protocol. -/
def Prog.AllKeep (P : Protocol S) : List Prog → S → Prop
  | [], _ => True
  | p :: ps, s => p.Keeps P s ∧ Prog.AllKeep P ps s

end

mutual

/-- All parts of the task keep to the protocol. -/
def Task.Keeps (P : Protocol S) : Task → S → Prop
  | .running p, s => p.Keeps P s
  | .forked stages next, s =>
    Task.AllKeep P stages s ∧
      ∀ s', s ≤ s' → ∀ os, (∀ o ∈ os, P.Ends s' o) → (next os).Keeps P s'

/-- All parts of all the tasks keep to the protocol. -/
def Task.AllKeep (P : Protocol S) : List Task → S → Prop
  | [], _ => True
  | t :: ts, s => t.Keeps P s ∧ Task.AllKeep P ts s

end

mutual

theorem Prog.Keeps.mono {s s' : S} (hs : s ≤ s') : ∀ {p : Prog}, p.Keeps P s → p.Keeps P s'
  | .done _, h => Protocol.Ends.mono hs h
  | .spent, _ => trivial
  | .act _ _, h => Protocol.Does.mono hs h
  | .note _ _, h => ⟨h.1, Prog.Keeps.mono hs h.2⟩
  | .fork _ _, h => ⟨Prog.AllKeep.mono hs h.1, fun s₁ hs₁ ↦ h.2 s₁ (hs.trans hs₁)⟩

theorem Prog.AllKeep.mono {s s' : S} (hs : s ≤ s') :
    ∀ {ps : List Prog}, Prog.AllKeep P ps s → Prog.AllKeep P ps s'
  | [], _ => trivial
  | _ :: _, h => ⟨Prog.Keeps.mono hs h.1, Prog.AllKeep.mono hs h.2⟩

end

mutual

theorem Task.Keeps.mono {s s' : S} (hs : s ≤ s') : ∀ {t : Task}, t.Keeps P s → t.Keeps P s'
  | .running _, h => Prog.Keeps.mono hs h
  | .forked _ _, h => ⟨Task.AllKeep.mono hs h.1, fun s₁ hs₁ ↦ h.2 s₁ (hs.trans hs₁)⟩

theorem Task.AllKeep.mono {s s' : S} (hs : s ≤ s') :
    ∀ {ts : List Task}, Task.AllKeep P ts s → Task.AllKeep P ts s'
  | [], _ => trivial
  | _ :: _, h => ⟨Task.Keeps.mono hs h.1, Task.AllKeep.mono hs h.2⟩

end

theorem Prog.allKeep_iff {s : S} {ps : List Prog} :
    Prog.AllKeep P ps s ↔ ∀ p ∈ ps, p.Keeps P s := by
  induction ps with
  | nil => simp [Prog.AllKeep]
  | cons p ps ih => simp [Prog.AllKeep, ih]

theorem Task.allKeep_iff {s : S} {ts : List Task} :
    Task.AllKeep P ts s ↔ ∀ t ∈ ts, t.Keeps P s := by
  induction ts with
  | nil => simp [Task.AllKeep]
  | cons t ts ih => simp [Task.AllKeep, ih]

/-! ## Runs -/

/-- Tasks that have ended have ended as they may. -/
theorem Task.AllKeep.ends {s : S} {ts : List Task} {os : List Outcome} (h : Task.AllKeep P ts s)
    (hos : ts.mapM Task.outcome? = some os) : ∀ o ∈ os, P.Ends s o := by
  obtain rfl := Task.outcomes_eq_some_iff.1 hos
  intro o ho
  exact Task.allKeep_iff.1 h _ (List.mem_map_of_mem ho)

namespace Protocol

/-- The step is one that the protocol allows to show. -/
def Shows (P : Protocol S) : Event → Prop
  | .note n => P.allows n
  | _ => True

/-- One step keeps to the protocol. -/
theorem step {m m' : Moment} {e : Event} {s : S} (h : m.Step e m') (hw : P.world s = m.world)
    (hk : m.task.Keeps P s) :
    P.Shows e ∧ ∃ s', s ≤ s' ∧ P.world s' = m'.world ∧ m'.task.Keeps P s' := by
  induction h generalizing s with
  | @act a next w hr =>
    obtain ⟨s', hs, hw', hn⟩ := hk s le_rfl (hw ▸ hr)
    rw [hw] at hw' hn
    exact ⟨trivial, s', hs, hw', hn⟩
  | note => exact ⟨hk.1, s, le_rfl, hw, hk.2⟩
  | fork =>
    refine ⟨trivial, s, le_rfl, hw, Task.allKeep_iff.2 fun t ht ↦ ?_, hk.2⟩
    obtain ⟨p, hp, rfl⟩ := List.mem_map.1 ht
    exact Prog.allKeep_iff.1 hk.1 p hp
  | stage _ ih =>
    obtain ⟨hall, hnext⟩ := hk
    rw [Task.allKeep_iff] at hall
    obtain ⟨he, s', hs, hw', hk'⟩ := ih hw (hall _ (by simp))
    refine ⟨he, s', hs, hw', Task.allKeep_iff.2 fun t ht ↦ ?_, fun s₁ hs₁ ↦ hnext s₁ (hs.trans hs₁)⟩
    rcases List.mem_append.1 ht with ht | ht
    · exact (hall t (by simp [ht])).mono hs
    · rcases List.mem_cons.1 ht with rfl | ht
      · exact hk'
      · exact (hall t (by simp [ht])).mono hs
  | join hos => exact ⟨trivial, s, le_rfl, hw, hk.2 s le_rfl _ (hk.1.ends hos)⟩
  | giveUp => exact ⟨trivial, s, le_rfl, hw, trivial⟩
  | @wait t w now hnow =>
    obtain ⟨s', hs, hw'⟩ := P.wait s now (hw ▸ hnow)
    refine ⟨trivial, s', hs, ?_, hk.mono hs⟩
    rw [hw', hw]

/-- **A task that keeps to a protocol does so for its whole run**, in whatever order its parts take their
turns. -/
theorem reaches {m m' : Moment} {s : S} (h : m.Reaches m') (hw : P.world s = m.world)
    (hk : m.task.Keeps P s) : ∃ s', s ≤ s' ∧ P.world s' = m'.world ∧ m'.task.Keeps P s' := by
  induction h with
  | refl => exact ⟨s, le_rfl, hw, hk⟩
  | tail _ h ih =>
    obtain ⟨e, h⟩ := h
    obtain ⟨s₁, hs₁, hw₁, hk₁⟩ := ih
    obtain ⟨-, s₂, hs₂, hw₂, hk₂⟩ := P.step h hw₁ hk₁
    exact ⟨s₂, hs₁.trans hs₂, hw₂, hk₂⟩

/-! ## Computations -/

/-- Started knowing `s`, the computation keeps to the protocol, and `Q` holds of what it gives.  If it fails
it does so as it may. -/
def Meets (P : Protocol S) (s : S) (m : Comp α) (Q : S → α → Prop) : Prop :=
  ∀ k : Except Failure α → Prog,
    (∀ s', s ≤ s' → ∀ a, Q s' a → (k (.ok a)).Keeps P s') →
    (∀ s', s ≤ s' → ∀ e, P.mayFail s' e → (k (.error e)).Keeps P s') →
    (m k).Keeps P s

namespace Meets

variable {s : S} {m : Comp α} {Q R : S → α → Prop}

/-- What remains to be shown after a computation. -/
theorem consequence (h : P.Meets s m Q) (hq : ∀ s', s ≤ s' → ∀ a, Q s' a → R s' a) :
    P.Meets s m R :=
  fun k hok herr ↦ h k (fun s' hs a ha ↦ hok s' hs a (hq s' hs a ha)) herr

theorem pure {a : α} (h : Q s a) : P.Meets s (Pure.pure a : Comp α) Q :=
  fun _ hok _ ↦ hok s le_rfl a h

theorem bind {f : α → Comp β} {T : S → β → Prop} (h : P.Meets s m Q)
    (hf : ∀ s', s ≤ s' → ∀ a, Q s' a → P.Meets s' (f a) T) : P.Meets s (m >>= f) T := by
  intro k hok herr
  refine h _ (fun s' hs a ha ↦ ?_) herr
  exact hf s' hs a ha k (fun s₁ hs₁ ↦ hok s₁ (hs.trans hs₁)) fun s₁ hs₁ ↦ herr s₁ (hs.trans hs₁)

theorem fail {e : Failure} (h : P.mayFail s e) : P.Meets s (Comp.fail e : Comp α) Q :=
  fun _ _ herr ↦ herr s le_rfl e h

theorem ofExcept {r : Except Failure α} (hok : ∀ a, r = .ok a → Q s a)
    (herr : ∀ e, r = .error e → P.mayFail s e) : P.Meets s (Comp.ofExcept r) Q := by
  cases r with
  | ok a => exact pure (hok a rfl)
  | error e => exact fail (herr e rfl)

theorem act {a : Act} {Q : S → a.Reply → Prop} (h : P.Does a s Q) : P.Meets s (Comp.act a) Q := by
  intro k hok _ s₁ hs₁ hr
  obtain ⟨s₂, hs₂, hw, hq⟩ := h s₁ hs₁ hr
  exact ⟨s₂, hs₂, hw, hok s₂ (hs₁.trans hs₂) _ hq⟩

theorem note {n : Note} {Q : S → Unit → Prop} (hn : P.allows n) (h : Q s ()) :
    P.Meets s (Comp.note n) Q :=
  fun _ hok _ ↦ ⟨hn, hok s le_rfl () h⟩

/-- A note that may be left changes nothing. -/
theorem noted {n : Note} (hn : P.allows n) (h : P.Meets s m Q) : P.Meets s (Comp.note n >>= fun _ ↦ m) Q :=
  fun k hok herr ↦ ⟨hn, h k hok herr⟩

theorem spent : P.Meets s (Comp.spent : Comp α) Q :=
  fun _ _ _ ↦ trivial

theorem result (h : P.Meets s m Q) :
    P.Meets s m.result fun s' r ↦ (∀ a, r = .ok a → Q s' a) ∧ ∀ e, r = .error e → P.mayFail s' e := by
  intro k hok _
  refine h _ (fun s' hs a ha ↦ hok s' hs _ ⟨?_, ?_⟩) fun s' hs e he ↦ hok s' hs _ ⟨?_, ?_⟩
  · rintro _ ⟨⟩
    exact ha
  · rintro _ ⟨⟩
  · rintro _ ⟨⟩
  · rintro _ ⟨⟩
    exact he

theorem mapFailure {f : Failure → Failure} (h : P.Meets s m Q)
    (hf : ∀ s', s ≤ s' → ∀ e, P.mayFail s' e → P.mayFail s' (f e)) :
    P.Meets s (m.mapFailure f) Q :=
  fun _ hok herr ↦ h _ hok fun s' hs e he ↦ herr s' hs _ (hf s' hs e he)

/-- A note of how a computation ends changes nothing. -/
theorem noting {n : Outcome → Note} (hn : ∀ o, P.allows (n o)) (h : P.Meets s m Q) : P.Meets s (m.noting n) Q :=
  fun _ hok herr ↦ h _ (fun s' hs a ha ↦ ⟨hn _, hok s' hs a ha⟩) fun s' hs e he ↦ ⟨hn _, herr s' hs e he⟩

theorem fork {stages : List Prog} (h : ∀ p ∈ stages, p.Keeps P s) :
    P.Meets s (Comp.fork stages) fun s' os ↦ ∀ o ∈ os, P.Ends s' o :=
  fun _ hok _ ↦ ⟨Prog.allKeep_iff.2 h, fun s' hs os hos ↦ hok s' hs os hos⟩

/-- Doing something for each item keeps what doing it for one keeps. -/
theorem forEach {I : S → Prop} {f : α → Comp Unit} {items : List α} (hs : I s)
    (h : ∀ s', s ≤ s' → I s' → ∀ a ∈ items, P.Meets s' (f a) fun s'' _ ↦ I s'') :
    P.Meets s (Comp.forEach f items) fun s' _ ↦ I s' := by
  induction items generalizing s with
  | nil => exact pure hs
  | cons a items ih =>
    refine bind (h s le_rfl hs a List.mem_cons_self) fun s' hs' _ hi ↦ ?_
    exact ih hi fun s₁ hs₁ hi₁ b hb ↦ h s₁ (hs'.trans hs₁) hi₁ b (List.mem_cons_of_mem _ hb)

/-- The results for each item are what they are for one. -/
theorem mapEach {T : S → β → Prop} {f : α → Comp β} {items : List α}
    (hmono : ∀ s s' b, s ≤ s' → T s b → T s' b)
    (h : ∀ s', s ≤ s' → ∀ a ∈ items, P.Meets s' (f a) T) :
    P.Meets s (Comp.mapEach f items) fun s' bs ↦ ∀ b ∈ bs, T s' b := by
  induction items generalizing s with
  | nil => exact pure fun _ hb ↦ by cases hb
  | cons a items ih =>
    refine bind (h s le_rfl a List.mem_cons_self) fun s₁ hs₁ b hb ↦ ?_
    refine bind (ih fun s' hs' a' ha' ↦ h s' (hs₁.trans hs') a' (List.mem_cons_of_mem _ ha'))
      fun s₂ hs₂ bs hbs ↦ pure ?_
    exact List.forall_mem_cons.2 ⟨hmono s₁ s₂ b hs₂ hb, hbs⟩

theorem repeatWhile {I : S → Prop} {body : Comp Bool} {n : Nat} (hs : I s)
    (h : ∀ s', s ≤ s' → I s' → P.Meets s' body fun s'' _ ↦ I s'') :
    P.Meets s (Comp.repeatWhile body n) fun s' _ ↦ I s' := by
  induction n generalizing s with
  | zero => exact spent
  | succ n ih =>
    refine bind (h s le_rfl hs) fun s' hs' again hi ↦ ?_
    cases again with
    | false => exact pure hi
    | true => exact ih hi fun s₁ hs₁ ↦ h s₁ (hs'.trans hs₁)

end Meets

/-- A computation that meets something is a program that keeps to the protocol. -/
theorem Meets.program {s : S} {m : Comp Unit} {Q : S → Unit → Prop} (h : P.Meets s m Q) :
    m.program.Keeps P s :=
  h _ (fun _ _ _ _ ↦ trivial) fun _ _ _ he ↦ he

end Protocol

end ValueShell
