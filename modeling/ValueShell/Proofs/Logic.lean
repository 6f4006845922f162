import Mathlib.Data.List.Forall2
import ValueShell.Eval
import ValueShell.Proofs.Dialect

/-!
# Reasoning about running code

Several facts about scripts are proved in the same way: over the syntax of operations as they are run, with one
rule for each way in which computations are put together.  A `Comp.Logic` is such a set of rules.  What follows
from the rules alone, down to `Comp.Logic.Holds.exec` for all operations of a dialect, is proved once, whatever the
rules are about.

* A logic is about code of one dialect, without pipelines.
* It speaks of families of computations, the same one built for each number of steps, so that it may say what
  happens if there are enough of them.
* `L.Holds S m P` is said of a computation that is run in a `Setting`.  It says that `P` holds of what the
  computation gives, beside whatever else the logic is about.
* `L.Fits S fm` says that a frame belongs to a setting and that the logic allows the frame's outlets.
-/

set_option autoImplicit false

namespace ValueShell

/-! ## Settings -/

/-- What is the same for all code that runs inside one call. -/
structure Setting where
  config : Config
  depth : Nat
  input : Inlet
  loading : List FilePath

/-- The setting of what a call runs. -/
def Setting.deeper (S : Setting) : Setting :=
  { S with depth := S.depth + 1 }

/-- The setting while one more module is being loaded. -/
def Setting.loadingModule (S : Setting) (path : FilePath) : Setting :=
  { S with loading := S.loading ++ [path] }

/-- The setting of what is run in the frame. -/
def Frame.setting (fm : Frame) : Setting :=
  ⟨fm.config, fm.depth, fm.wiring.input, fm.loading⟩

/-! ## Acts -/

/-- Is the act done at once in every world, without regard to streams and modules? -/
def Act.isPlain : Act → Bool
  | put .. | writeBytes .. | receive .. | awaitTimer .. | newPipe _ | endStage .. | resolveModule .. | attemptLoad ..
  | awaitLoad .. | finishLoad .. | abandonLoad _ => false
  | _ => true

/-! ## Rules -/

namespace Comp

/-- Rules for reasoning about computations. -/
structure Logic where
  /-- The code that is reasoned about -/
  dialect : Dialect
  sequential : dialect.pipelines = false
  /-- May code write there? -/
  Accepts : Outlet → Prop
  accepts_capture : ∀ id : CaptureId, Accepts (.capture id)
  accepts_file : ∀ id : HandleId, Accepts (.file id)
  /-- Run in the setting, the computation does as it should, and the property holds of what it gives. -/
  Holds : {α : Type} → Setting → (Nat → Comp α) → (α → Prop) → Prop
  deeper : ∀ {α : Type} {S : Setting} {m : Nat → Comp α} {P : α → Prop}, Holds S.deeper m P → Holds S m P
  consequence : ∀ {α : Type} {S : Setting} {m : Nat → Comp α} {P P' : α → Prop},
    Holds S m P → (∀ a, P a → P' a) → Holds S m P'
  ofExcept : ∀ {α : Type} {S : Setting} {r : Except Failure α} {P : α → Prop},
    (∀ a, r = .ok a → P a) → Holds S (fun _ ↦ Comp.ofExcept r) P
  bind : ∀ {α β : Type} {S : Setting} {m : Nat → Comp α} {f : Nat → α → Comp β} {P : α → Prop} {Q : β → Prop},
    Holds S m P → (∀ a, P a → Holds S (fun n ↦ f n a) Q) → Holds S (fun n ↦ m n >>= f n) Q
  result : ∀ {α : Type} {S : Setting} {m : Nat → Comp α} {P : α → Prop},
    Holds S m P → Holds S (fun n ↦ (m n).result) fun r ↦ ∀ a, r = .ok a → P a
  mapFailure : ∀ {α : Type} {S : Setting} {m : Nat → Comp α} {P : α → Prop} (g : Failure → Failure),
    Holds S m P → Holds S (fun n ↦ (m n).mapFailure g) P
  /-- What an act replies it replies in some world. -/
  act : ∀ {S : Setting} {a : Act}, a.isPlain = true → a.isIn dialect = true →
    Holds S (fun _ ↦ Comp.act a) fun r ↦ (Event.act a r).isIn dialect = true ∧ ∃ w, r = (a.perform w).1
  put : ∀ {S : Setting} {outlet : Outlet} {v : Value}, Accepts outlet →
    Holds S (fun _ ↦ Comp.act (.put outlet.values v)) fun _ ↦ True
  writeBytes : ∀ {S : Setting} {outlet : Outlet} {bytes : Bytes}, Accepts outlet →
    Holds S (fun _ ↦ Comp.act (.writeBytes outlet.bytes bytes)) fun _ ↦ True
  sleepFor : ∀ {S : Setting} {fm : Frame} {v : Value}, Holds S (fun _ ↦ Engine.sleepFor fm v) fun _ ↦ True
  raises : ∀ {S : Setting} {site : Option CallSite} {reason : Reason},
    Holds S (fun _ ↦ Comp.note (.raises site reason)) fun _ ↦ True
  starts : ∀ {S : Setting} {site : Option CallSite} {source : Source},
    Holds S (fun _ ↦ Comp.note (.starts site source S.loading)) fun _ ↦ True
  ends : ∀ {S : Setting} {site : CallSite} {o : Outcome}, Holds S (fun _ ↦ Comp.note (.ends site o)) fun _ ↦ True
  repeatWhile : ∀ {S : Setting} {m : Nat → Comp Bool} (turns : Nat → Nat), dialect.loops = true →
    Holds S m (fun _ ↦ True) → Holds S (fun n ↦ Comp.repeatWhile (m n) (turns n)) fun _ ↦ True

namespace Logic

/-- The frame belongs to the setting, and the logic allows what is written to its outlets. -/
structure Fits (L : Logic) (S : Setting) (fm : Frame) : Prop where
  setting : fm.setting = S
  output : L.Accepts fm.wiring.output
  error : L.Accepts fm.wiring.error

variable {L : Logic} {S : Setting}

/-! ## Frames that fit -/

namespace Fits

variable {fm : Frame}

theorem loading (h : L.Fits S fm) : fm.loading = S.loading :=
  congrArg Setting.loading h.setting

theorem atSite (h : L.Fits S fm) (site : CallSite) : L.Fits S { fm with site := some site } :=
  ⟨h.setting, h.output, h.error⟩

theorem loadingModule (h : L.Fits S fm) (path : FilePath) :
    L.Fits (S.loadingModule path) (fm.loadingModule path) :=
  ⟨congrArg (Setting.loadingModule · path) h.setting, h.output, h.error⟩

/-- The frame wired differently, to outlets that are allowed. -/
theorem withWiring (h : L.Fits S fm) {wiring : Wiring} (hinput : wiring.input = fm.wiring.input)
    (houtput : L.Accepts wiring.output) (herror : L.Accepts wiring.error) : L.Fits S (fm.withWiring wiring) := by
  refine ⟨?_, houtput, herror⟩
  rw [← h.setting, Frame.setting, Frame.setting, Frame.withWiring, hinput]

/-- A frame for other code. -/
theorem inner (h : L.Fits S fm) {space : NsId} {outer : List Bindings} {source : Source} {inside : Frame}
    (hinside : fm.inner space outer source = .ok inside) :
    S.depth < S.config.maxCallDepth ∧ L.Fits S.deeper inside := by
  rw [Frame.inner] at hinside
  split at hinside <;> cases hinside
  rename_i hdepth
  obtain rfl : fm.setting = S := h.setting
  exact ⟨Nat.lt_of_succ_le (Nat.le_of_not_lt hdepth), rfl, h.output, h.error⟩

end Fits

/-! ## Rules that follow -/

namespace Holds

variable {α β : Type} {m : Nat → Comp α} {f : Nat → α → Comp β} {P P' : α → Prop} {Q : β → Prop}

theorem consequence (h : L.Holds S m P) (hp : ∀ a, P a → P' a) : L.Holds S m P' :=
  L.consequence h hp

theorem any (h : L.Holds S m P) : L.Holds S m fun _ ↦ True :=
  h.consequence fun _ _ ↦ trivial

theorem ofExcept {r : Except Failure α} (h : ∀ a, r = .ok a → P a) : L.Holds S (fun _ ↦ Comp.ofExcept r) P :=
  L.ofExcept h

theorem pure {a : α} (h : P a) : L.Holds S (fun _ ↦ (Pure.pure a : Comp α)) P :=
  ofExcept (r := .ok a) (by rintro _ ⟨⟩; exact h)

theorem fail {e : Failure} : L.Holds S (fun _ ↦ (Comp.fail e : Comp α)) P :=
  ofExcept (r := .error e) nofun

theorem bind (h : L.Holds S m P) (hf : ∀ a, P a → L.Holds S (fun n ↦ f n a) Q) :
    L.Holds S (fun n ↦ m n >>= f n) Q :=
  L.bind h hf

theorem discard (h : L.Holds S m P) : L.Holds S (fun n ↦ discard (m n)) fun _ ↦ True :=
  bind h fun _ _ ↦ pure trivial

theorem result (h : L.Holds S m P) : L.Holds S (fun n ↦ (m n).result) fun r ↦ ∀ a, r = .ok a → P a :=
  L.result h

theorem mapFailure {g : Failure → Failure} (h : L.Holds S m P) : L.Holds S (fun n ↦ (m n).mapFailure g) P :=
  L.mapFailure g h

/-- An act that is done at once, whatever it replies. -/
theorem done {a : Act} (h : a.isPlain = true) (hin : a.isIn L.dialect = true) :
    L.Holds S (fun _ ↦ Comp.act a) fun _ ↦ True :=
  (L.act h hin).consequence fun _ _ ↦ trivial

theorem forEach {f : Nat → α → Comp Unit} {items : List α}
    (h : ∀ a ∈ items, L.Holds S (fun n ↦ f n a) fun _ ↦ True) :
    L.Holds S (fun n ↦ Comp.forEach (f n) items) fun _ ↦ True := by
  induction items with
  | nil => exact pure trivial
  | cons a items ih =>
    refine bind (h a List.mem_cons_self) fun _ _ ↦ ih fun b hb ↦ ?_
    exact h b (List.mem_cons_of_mem a hb)

/-- The results for each item are what they are for one. -/
theorem mapEach {R : α → β → Prop} {items : List α} (h : ∀ a ∈ items, L.Holds S (fun n ↦ f n a) (R a)) :
    L.Holds S (fun n ↦ Comp.mapEach (f n) items) (List.Forall₂ R items) := by
  induction items with
  | nil => exact pure .nil
  | cons a items ih =>
    refine bind (h a List.mem_cons_self) fun b hb ↦ ?_
    refine bind (ih fun a' ha' ↦ h a' (List.mem_cons_of_mem a ha')) fun bs hbs ↦ ?_
    exact pure (.cons hb hbs)

end Holds

end Logic

end Comp

end ValueShell
