import Mathlib.Data.List.Nodup
import ValueShell.Proofs.Dialect
import ValueShell.Proofs.Loading.Table
import ValueShell.Proofs.StoreEffects

/-!
# Programs that load one module inside another

Code in which one form runs after another loads modules like nested brackets: a load that is begun last ends
first.  So the modules that are being loaded are always those on the way to the code that runs, and nobody ever
finds a module being loaded by somebody else.

* `LoadState.LoadsExactly` and `LoadState.Balanced` say this of the table of modules, at one moment and from one
  moment to a later one.
* `Prog.Orderly d post p s` says that a program, started with the table `s`, keeps to this at each of its acts and
  notes, and that `post` holds of the table at its end.  `Moment.Orderly.step` carries it from step to step.
* `Comp.Balances d m chain P` says the same of a computation that runs while the modules of `chain` are being
  loaded, and that it ends all loads it begins, however it ends.  There is one rule for each way in which
  computations are put together; none of them has to speak of the table.
-/

set_option autoImplicit false

namespace ValueShell

/-! ## The table of modules -/

namespace LoadState

variable {s s' s'' : LoadState} {chain : List FilePath} {path : FilePath}

/-- The modules that are being loaded are those of the chain, which has none of them twice. -/
structure LoadsExactly (s : LoadState) (chain : List FilePath) : Prop where
  nodup : chain.Nodup
  mem : ∀ p, p ∈ chain ↔ s.status? p = some .loading

/-- From `s` to `s'` all loads that were begun have ended, and what had been loaded still is. -/
structure Balanced (s s' : LoadState) : Prop where
  loading : ∀ p, s'.status? p = some .loading ↔ s.status? p = some .loading
  done : ∀ p ns, s.status? p = some (.done ns) → s'.status? p = some (.done ns)

theorem loadsExactly_nil : s.LoadsExactly [] ↔ ∀ p, s.status? p ≠ some .loading := by
  constructor
  · intro h p hp
    exact List.not_mem_nil ((h.mem p).2 hp)
  · intro h
    exact ⟨List.nodup_nil, fun p ↦ ⟨fun hp ↦ absurd hp List.not_mem_nil, fun hp ↦ absurd hp (h p)⟩⟩

theorem Balanced.refl (s : LoadState) : s.Balanced s :=
  ⟨fun _ ↦ .rfl, fun _ _ ↦ id⟩

theorem Balanced.trans (h : s.Balanced s') (h' : s'.Balanced s'') : s.Balanced s'' :=
  ⟨fun p ↦ (h'.loading p).trans (h.loading p), fun p ns hp ↦ h'.done p ns (h.done p ns hp)⟩

theorem LoadsExactly.balanced (hs : s.LoadsExactly chain) (h : s.Balanced s') : s'.LoadsExactly chain :=
  ⟨hs.nodup, fun p ↦ (hs.mem p).trans (h.loading p).symm⟩

/-- A load begins. -/
theorem LoadsExactly.start (hs : s.LoadsExactly chain) (hpath : s.status? path = none) :
    (s.setStatus path .loading).LoadsExactly (chain ++ [path]) := by
  have hmem : path ∉ chain := by
    rw [hs.mem, hpath]
    exact nofun
  refine ⟨List.nodup_append.2 ⟨hs.nodup, List.nodup_singleton _, ?_⟩, fun p ↦ ?_⟩
  · rintro a ha b hb rfl
    rw [List.mem_singleton.1 hb] at ha
    exact hmem ha
  · by_cases hp : p = path
    · subst hp
      simp
    · rw [status?_setStatus_of_ne hp, ← hs.mem]
      simp [hp]

/-- A module that nobody is loading is to be loaded, or is ready. -/
theorem attempt_of_not_loading (s : LoadState) (chain : List FilePath) (h : s.status? path ≠ some .loading) :
    (s.status? path = none ∧ s.attempt path chain = (.load, s.setStatus path .loading)) ∨
      ∃ ns, s.status? path = some (.done ns) ∧ s.attempt path chain = (.ready ns, s) := by
  cases hstatus : s.status? path with
  | none => exact .inl ⟨rfl, attempt_none hstatus⟩
  | some load =>
    cases load with
    | loading => exact absurd hstatus h
    | done ns => exact .inr ⟨ns, rfl, attempt_done hstatus⟩

/-- A load that was begun ends, however that is. -/
theorem Balanced.ended (hpath : s.status? path = none) (h : (s.setStatus path .loading).Balanced s')
    (hself : s''.status? path ≠ some .loading) (hother : ∀ p, p ≠ path → s''.status? p = s'.status? p) :
    s.Balanced s'' := by
  constructor
  · intro p
    by_cases hp : p = path
    · subst hp
      simp [hself, hpath]
    · rw [hother p hp, h.loading, status?_setStatus_of_ne hp]
  · intro p ns hdone
    have hp : p ≠ path := by
      rintro rfl
      rw [hpath] at hdone
      cases hdone
    rw [hother p hp]
    exact h.done p ns ((status?_setStatus_of_ne hp).trans hdone)

theorem Balanced.finish (hpath : s.status? path = none) (h : (s.setStatus path .loading).Balanced s')
    (ns : NsId) : s.Balanced (s'.finish path ns) :=
  h.ended hpath (by simp) fun _ hp ↦ status?_finish_of_ne hp

theorem Balanced.abandon (hpath : s.status? path = none) (h : (s.setStatus path .loading).Balanced s') :
    s.Balanced (s'.abandon path) :=
  h.ended hpath (by simp) fun _ hp ↦ status?_abandon_of_ne hp

end LoadState

/-! ## Acts -/

/-- Is it an act that asks for a module or changes the table of modules? -/
def Act.concernsModules : Act → Bool
  | resolveModule .. | attemptLoad .. | awaitLoad .. | finishLoad .. | abandonLoad .. => true
  | _ => false

theorem Act.perform_loads {a : Act} (h : a.concernsModules = false) (w : World) :
    (a.perform w).2.loads = w.loads := by
  refine (a.perform_sameBut w).loads ?_
  cases a with
  | attemptLoad | awaitLoad | finishLoad | abandonLoad => cases h
  | _ => nofun

/-- Nobody asks to load a module that is being loaded, and nobody waits for one.  A load that ends has been
begun. -/
def Act.Safe : Act → LoadState → Prop
  | attemptLoad path _, s => s.status? path ≠ some .loading
  | awaitLoad .., _ => False
  | finishLoad path _, s => s.status? path = some .loading
  | abandonLoad path, s => s.status? path = some .loading
  | _, _ => True

/-- A `use` whose module is found at a place fails as it does if there is no module, with the exception for a
circle: `next` is what follows the answer where the module is. -/
def RefusesModule (next : Except Reason FilePath → Prog) (spec : String) (path : FilePath) : Prop :=
  ∃ (fm : Frame) (k : Except Failure NsId → Prog),
    (∀ reason, next (.error reason) = (fm.throw reason : Comp NsId) k) ∧
      next (.ok path) = (fm.throw (.moduleCycle spec) : Comp NsId) k

/-- A module that is asked for while it is being loaded is refused by what follows the reply. -/
def Act.Answered : (a : Act) → a.Reply → LoadState → (a.Reply → Prog) → Prop
  | resolveModule spec _, .ok path, s, next => s.status? path = some .loading → RefusesModule next spec path
  | _, _, _, _ => True

theorem Act.Safe.of_not_concerned {a : Act} (h : a.concernsModules = false) (s : LoadState) : a.Safe s := by
  cases a with
  | attemptLoad | awaitLoad | finishLoad | abandonLoad => cases h
  | _ => trivial

/-- What is loaded stays loaded, and where it is. -/
theorem Act.Safe.keeps_done {a : Act} {w : World} {path : FilePath} {ns : NsId} (h : a.Safe w.loads)
    (hdone : w.loads.status? path = some (.done ns)) :
    (a.perform w).2.loads.status? path = some (.done ns) := by
  have hne {other : FilePath} (hother : w.loads.status? other ≠ some (.done ns)) : path ≠ other := by
    rintro rfl
    exact hother hdone
  by_cases hconcerned : a.concernsModules = false
  · rw [perform_loads hconcerned]
    exact hdone
  · cases a with
    | resolveModule => exact hdone
    | attemptLoad other chain =>
      obtain ⟨hnone, hattempt⟩ | ⟨_, -, hattempt⟩ := w.loads.attempt_of_not_loading chain h
      · have hother : path ≠ other := hne (by rw [hnone]; rintro ⟨⟩)
        rw [perform, hattempt]
        exact (LoadState.status?_setStatus_of_ne hother).trans hdone
      · rw [perform, hattempt]
        exact hdone
    | awaitLoad => exact h.elim
    | finishLoad other space =>
      have hloading : w.loads.status? other = some .loading := h
      have hother : path ≠ other := hne (by rw [hloading]; rintro ⟨⟩)
      exact (LoadState.status?_finish_of_ne hother).trans hdone
    | abandonLoad other =>
      have hloading : w.loads.status? other = some .loading := h
      have hother : path ≠ other := hne (by rw [hloading]; rintro ⟨⟩)
      exact (LoadState.status?_abandon_of_ne hother).trans hdone
    | _ => exact absurd rfl hconcerned

theorem Act.Answered.of_not_concerned {a : Act} (h : a.concernsModules = false) (r : a.Reply)
    (s : LoadState) (next : a.Reply → Prog) : a.Answered r s next := by
  cases a with
  | resolveModule => cases h
  | _ => trivial

/-- What is said of the modules that are being loaded is so. -/
def Note.Holds : Note → LoadState → Prop
  | starts _ _ loading, s => s.LoadsExactly loading
  | uses _ loading, s => s.LoadsExactly loading
  | raises .., _ | ends .., _ => True

/-! ## Programs -/

/-- Started with the table `s`, the program loads one module inside another, whatever else the world is, as long
as all code it runs is in the dialect.  At its end `post` holds of the table. -/
def Prog.Orderly (d : Dialect) (post : LoadState → Prop) : Prog → LoadState → Prop
  | .done _, s => post s
  | .spent, _ => True
  | .act a next, s =>
    a.Safe s ∧ ∀ w : World, w.loads = s → a.ready w = true →
      (Event.act a (a.perform w).1).isIn d = true →
        a.Answered (a.perform w).1 s next ∧
          (next (a.perform w).1).Orderly d post (a.perform w).2.loads
  | .note n p, s => n.Holds s ∧ p.Orderly d post s
  | .fork _ _, _ => False

/-- The task is in one piece, and orderly. -/
def Moment.Orderly (d : Dialect) (post : LoadState → Prop) (m : Moment) : Prop :=
  ∃ p, m.task = .running p ∧ p.Orderly d post m.world.loads

section Steps

variable {d : Dialect} {post : LoadState → Prop}

/-- One step keeps the order, unless it brings in code that is not in the dialect. -/
theorem Moment.Orderly.step {m m' : Moment} {e : Event} (hm : m.Orderly d post) (h : m.Step e m')
    (he : e.isIn d = true) : m'.Orderly d post := by
  obtain ⟨p, hp, horderly⟩ := hm
  cases h with
  | act hready =>
    cases hp
    exact ⟨_, rfl, (horderly.2 _ rfl hready he).2⟩
  | note =>
    cases hp
    exact ⟨_, rfl, horderly.2⟩
  | fork =>
    cases hp
    exact horderly.elim
  | wait => exact ⟨p, hp, horderly⟩
  | stage | join | giveUp => cases hp

/-- What an orderly program notes is so. -/
theorem Moment.Orderly.note {m m' : Moment} {n : Note} (hm : m.Orderly d post) (h : m.Step (.note n) m') :
    n.Holds m.world.loads := by
  obtain ⟨p, hp, horderly⟩ := hm
  cases h with
  | note =>
    cases hp
    exact horderly.1
  | stage => cases hp

/-- What an orderly program does is safe, and it heeds the reply. -/
theorem Moment.Orderly.act {m m' : Moment} {a : Act} {r : a.Reply} (hm : m.Orderly d post)
    (h : m.Step (.act a r) m') :
    r = (a.perform m.world).1 ∧ a.Safe m.world.loads ∧
      ∃ next, m.task = .running (.act a next) ∧ m'.task = .running (next r) ∧
        ((Event.act a r).isIn d = true → a.Answered r m.world.loads next) := by
  obtain ⟨p, hp, horderly⟩ := hm
  cases h with
  | act hready =>
    cases hp
    exact ⟨rfl, horderly.1, _, rfl, rfl, fun he ↦ (horderly.2 _ rfl hready he).1⟩
  | stage => cases hp

/-- No step of an orderly program loses a module. -/
theorem Moment.Orderly.keeps_done {m m' : Moment} {e : Event} {path : FilePath} {ns : NsId} (hm : m.Orderly d post)
    (h : m.Step e m') (hdone : m.world.loads.status? path = some (.done ns)) :
    m'.world.loads.status? path = some (.done ns) := by
  obtain ⟨p, hp, horderly⟩ := hm
  cases h with
  | act =>
    cases hp
    exact horderly.1.keeps_done hdone
  | stage => cases hp
  | _ => exact hdone

end Steps

/-! ## Computations -/

namespace Comp

variable {α β : Type} {d : Dialect} {m : Comp α} {f : α → Comp β} {s : LoadState} {chain : List FilePath}

/-- Started with the table `s`, the computation is orderly, and `Q` holds of the table and of its result when it
comes to one. -/
def Orderly (d : Dialect) (m : Comp α) (s : LoadState) (Q : LoadState → Except Failure α → Prop) : Prop :=
  ∀ (post : LoadState → Prop) (k : Except Failure α → Prog),
    (∀ s' r, Q s' r → (k r).Orderly d post s') → (m k).Orderly d post s

namespace Orderly

variable {Q : LoadState → Except Failure α → Prop} {R : LoadState → Except Failure β → Prop}

theorem consequence {Q' : LoadState → Except Failure α → Prop} (h : m.Orderly d s Q)
    (hq : ∀ s' r, Q s' r → Q' s' r) : m.Orderly d s Q' :=
  fun post k hk ↦ h post k fun s' r hr ↦ hk s' r (hq s' r hr)

theorem ofExcept {r : Except Failure α} (h : Q s r) : (Comp.ofExcept r).Orderly d s Q :=
  fun _ _ hk ↦ hk s r h

theorem bind (h : m.Orderly d s Q) (hok : ∀ s' a, Q s' (.ok a) → (f a).Orderly d s' R)
    (herror : ∀ s' e, Q s' (.error e) → R s' (.error e)) : (m >>= f).Orderly d s R := by
  intro post k hk
  refine h post _ fun s' r hr ↦ ?_
  cases r with
  | ok a => exact hok s' a hr post k hk
  | error e => exact hk s' _ (herror s' e hr)

theorem result (h : m.Orderly d s Q) :
    m.result.Orderly d s fun s' r ↦ ∃ r', r = .ok r' ∧ Q s' r' :=
  fun post _ hk ↦ h post _ fun s' r hr ↦ hk s' _ ⟨r, rfl, hr⟩

theorem act {a : Act} {Q : LoadState → Except Failure a.Reply → Prop} (hsafe : a.Safe s)
    (hanswered : ∀ r next, a.Answered r s next)
    (h : ∀ w : World, w.loads = s → (Event.act a (a.perform w).1).isIn d = true →
      Q (a.perform w).2.loads (.ok (a.perform w).1)) : (Comp.act a).Orderly d s Q :=
  fun _ _ hk ↦ ⟨hsafe, fun w hw _ he ↦ ⟨hanswered _ _, hk _ _ (h w hw he)⟩⟩

end Orderly

/-- Run while the modules of the chain are being loaded, the computation is orderly and ends all loads it
begins, and `P` holds of what it gives. -/
def Balances (d : Dialect) (m : Comp α) (chain : List FilePath) (P : α → Prop) : Prop :=
  ∀ s, s.LoadsExactly chain → m.Orderly d s fun s' r ↦ s.Balanced s' ∧ ∀ a, r = .ok a → P a

namespace Balances

variable {P P' : α → Prop} {Q : β → Prop}

theorem consequence (h : m.Balances d chain P) (hp : ∀ a, P a → P' a) : m.Balances d chain P' :=
  fun s hs ↦ (h s hs).consequence fun _ _ hr ↦ ⟨hr.1, fun a ha ↦ hp a (hr.2 a ha)⟩

theorem ofExcept {r : Except Failure α} (h : ∀ a, r = .ok a → P a) :
    (Comp.ofExcept r).Balances d chain P :=
  fun s _ ↦ .ofExcept ⟨.refl s, h⟩

theorem pure {a : α} (h : P a) : (Pure.pure a : Comp α).Balances d chain P :=
  ofExcept (r := .ok a) (by rintro _ ⟨⟩; exact h)

theorem fail {e : Failure} : (Comp.fail e : Comp α).Balances d chain P :=
  ofExcept (r := .error e) (by rintro _ ⟨⟩)

theorem bind (h : m.Balances d chain P) (hf : ∀ a, P a → (f a).Balances d chain Q) :
    (m >>= f).Balances d chain Q := by
  intro s hs
  refine .bind (h s hs) (fun s' a hr ↦ ?_) fun s' e hr ↦ ⟨hr.1, by rintro _ ⟨⟩⟩
  refine (hf a (hr.2 a rfl) s' (hs.balanced hr.1)).consequence fun s'' r hr' ↦ ?_
  exact ⟨hr.1.trans hr'.1, hr'.2⟩

theorem result (h : m.Balances d chain P) :
    m.result.Balances d chain fun r ↦ ∀ a, r = .ok a → P a := by
  intro s hs
  refine (h s hs).result.consequence fun s' r ↦ ?_
  rintro ⟨r', rfl, hr⟩
  exact ⟨hr.1, by rintro _ ⟨⟩; exact hr.2⟩

theorem mapFailure {g : Failure → Failure} (h : m.Balances d chain P) :
    (m.mapFailure g).Balances d chain P := by
  intro s hs post k hk
  refine h s hs post _ fun s' r hr ↦ ?_
  cases r with
  | ok a => exact hk s' _ hr
  | error e => exact hk s' _ ⟨hr.1, by rintro _ ⟨⟩⟩

/-- An act that has nothing to do with modules.  What it replies it replies in some world. -/
theorem act {a : Act} (h : a.concernsModules = false) :
    (Comp.act a).Balances d chain fun r ↦
      (Event.act a r).isIn d = true ∧ ∃ w, r = (a.perform w).1 := by
  intro s _
  refine .act (.of_not_concerned h s) (fun r next ↦ .of_not_concerned h r s next) fun w hw he ↦ ⟨?_, ?_⟩
  · rw [Act.perform_loads h, hw]
    exact .refl s
  · rintro _ ⟨⟩
    exact ⟨he, w, rfl⟩

theorem note {n : Note} (h : ∀ s : LoadState, s.LoadsExactly chain → n.Holds s) :
    (Comp.note n).Balances d chain fun _ ↦ True :=
  fun s hs _ _ hk ↦ ⟨h s hs, hk s _ ⟨.refl s, fun _ _ ↦ trivial⟩⟩

theorem spent : (Comp.spent : Comp α).Balances d chain P :=
  fun _ _ _ _ _ ↦ trivial

theorem forEach {f : α → Comp Unit} {items : List α}
    (h : ∀ a ∈ items, (f a).Balances d chain fun _ ↦ True) :
    (Comp.forEach f items).Balances d chain fun _ ↦ True := by
  induction items with
  | nil => exact pure trivial
  | cons a items ih =>
    refine bind (h a List.mem_cons_self) fun _ _ ↦ ih fun b hb ↦ ?_
    exact h b (List.mem_cons_of_mem a hb)

theorem repeatWhile {body : Comp Bool} {n : Nat} (h : body.Balances d chain fun _ ↦ True) :
    (Comp.repeatWhile body n).Balances d chain fun _ ↦ True := by
  induction n with
  | zero => exact spent
  | succ n ih =>
    refine bind h fun again _ ↦ ?_
    cases again with
    | false => exact pure trivial
    | true => exact ih

end Balances

/-- A computation that is run while the modules of the chain are being loaded is an orderly program, and they are
still being loaded at its end. -/
theorem Balances.program {m : Comp Unit} {P : Unit → Prop} (h : m.Balances d chain P) (hs : s.LoadsExactly chain) :
    m.program.Orderly d (·.LoadsExactly chain) s :=
  h s hs _ _ fun _ _ hr ↦ hs.balanced hr.1

end Comp

end ValueShell
