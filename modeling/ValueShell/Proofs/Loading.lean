import Mathlib.Data.List.Nodup
import Mathlib.Logic.Function.Basic
import ValueShell.Proofs.Loading.Table

/-!
# The module cache and its callers

The table of modules together with everything that is under way: the loads that somebody has to end, and the
callers that wait.  Any number of callers ask, look again after waiting, and end loads, in any order; each of
these is one `Cache.Step` with an `Event` that says what it was.

`Step.preserves` takes a step apart into the five things that can become of the cache, so an invariant is shown
once for each of these.  `Cache.Sound` is the invariant that ties the table to what is under way, and
`LoadState.NoCircle` the one about waiting.
-/

set_option autoImplicit false

namespace ValueShell

/-- The cache with all that is under way. -/
structure Cache (κ : Type) where
  loads : LoadState
  /-- The modules that are to be loaded, one entry for each caller who has been told to -/
  guards : List FilePath
  /-- The callers that wait, each with its entry in the table -/
  blocked : κ → Option (Nat × Waiter)

/-- What has happened at the cache. -/
inductive Cache.Event (κ : Type) where
  /-- A caller has been answered, at once or after waiting -/
  | told (k : κ) (w : Waiter) (claim : Claim)
  /-- A waiting caller has looked again, and waits on -/
  | slept (k : κ)
  | finished (path : FilePath) (ns : NsId)
  | dropped (path : FilePath)

/-- Has somebody been answered about the module? -/
def Cache.Event.answers {κ : Type} (path : FilePath) : Event κ → Prop
  | told _ w _ => w.target = path
  | _ => False

namespace Cache

variable {κ : Type}

/-- Nothing is loaded, and nobody waits. -/
def fresh : Cache κ :=
  ⟨.empty, [], fun _ ↦ none⟩

/-! ## Steps -/

variable [DecidableEq κ]

/-- What an answer means for the caller. -/
def hear (c : Cache κ) (k : κ) (w : Waiter) : Claim → Cache κ
  | .load => { c with guards := w.target :: c.guards, blocked := Function.update c.blocked k none }
  | .wait waiter => { c with blocked := Function.update c.blocked k (some (waiter, w)) }
  | .ready _ | .cycle | .givenUp => { c with blocked := Function.update c.blocked k none }

/-- A caller asks for a module. -/
def ask (c : Cache κ) (k : κ) (w : Waiter) : Claim × Cache κ :=
  let (claim, loads) := c.loads.attempt w.target w.chain
  (claim, { c with loads }.hear k w claim)

/-- A waiting caller looks again, and leaves. -/
def wake (c : Cache κ) (k : κ) (waiter : Nat) (w : Waiter) : Claim × Cache κ :=
  let (claim, loads) := c.loads.recheck waiter w.target
  (claim, { c with loads }.hear k w claim)

/-- A load has succeeded. -/
def finish (c : Cache κ) (path : FilePath) (ns : NsId) : Cache κ :=
  { c with loads := c.loads.finish path ns, guards := c.guards.erase path }

/-- A load has been given up. -/
def drop (c : Cache κ) (path : FilePath) : Cache κ :=
  { c with loads := c.loads.abandon path, guards := c.guards.erase path }

/-- One step.  A caller that waits does nothing else, and only those who have been told to load a module end its
load, once.  A waiting caller that finds the module still being loaded waits on, or leaves because it has been
interrupted. -/
inductive Step : Cache κ → Event κ → Cache κ → Prop where
  | ask {c : Cache κ} {k : κ} (w : Waiter) (hfree : c.blocked k = none) :
    Step c (.told k w (c.ask k w).1) (c.ask k w).2
  | wake {c : Cache κ} {k : κ} {waiter : Nat} {w : Waiter} (hblocked : c.blocked k = some (waiter, w)) :
    Step c (.told k w (c.wake k waiter w).1) (c.wake k waiter w).2
  | sleep {c : Cache κ} {k : κ} {waiter : Nat} {w : Waiter} (hblocked : c.blocked k = some (waiter, w))
    (hloading : c.loads.status? w.target = some .loading) : Step c (.slept k) c
  | finish {c : Cache κ} {path : FilePath} (ns : NsId) (hguard : path ∈ c.guards) :
    Step c (.finished path ns) (c.finish path ns)
  | drop {c : Cache κ} {path : FilePath} (hguard : path ∈ c.guards) : Step c (.dropped path) (c.drop path)

/-- Steps with events of some kind only. -/
def Steps (allowed : Event κ → Prop) : Cache κ → Cache κ → Prop :=
  Relation.ReflTransGen fun c c' ↦ ∃ e, allowed e ∧ c.Step e c'

/-- The second cache may come of the first. -/
def Leads : Cache κ → Cache κ → Prop :=
  Steps fun _ ↦ True

/-- The cache may come of a fresh one. -/
def Reachable (c : Cache κ) : Prop :=
  fresh.Leads c

/-! ## What can become of the cache -/

/-- Somebody is to load a module. -/
def start (c : Cache κ) (path : FilePath) : Cache κ :=
  { c with loads := c.loads.setStatus path .loading, guards := path :: c.guards }

/-- A caller starts to wait. -/
def enter (c : Cache κ) (k : κ) (w : Waiter) : Cache κ :=
  { c with
    loads := c.loads.enter w
    blocked := Function.update c.blocked k (some (c.loads.nextWaiter, w)) }

/-- A caller waits no more. -/
def leave (c : Cache κ) (k : κ) (waiter : Nat) : Cache κ :=
  { c with loads := c.loads.leave waiter, blocked := Function.update c.blocked k none }

variable {c c' : Cache κ} {e : Event κ} {k : κ} {w : Waiter} {waiter : Nat} {path : FilePath}

theorem blocked_enter_self : (c.enter k w).blocked k = some (c.loads.nextWaiter, w) :=
  Function.update_self ..

theorem blocked_enter_of_ne {k' : κ} (h : k' ≠ k) : (c.enter k w).blocked k' = c.blocked k' :=
  Function.update_of_ne h ..

theorem blocked_leave_self : (c.leave k waiter).blocked k = none :=
  Function.update_self ..

theorem blocked_leave_of_ne {k' : κ} (h : k' ≠ k) : (c.leave k waiter).blocked k' = c.blocked k' :=
  Function.update_of_ne h ..

section Answers

variable {ns : NsId}

theorem ask_done (hfree : c.blocked k = none) (h : c.loads.status? w.target = some (.done ns)) :
    c.ask k w = (.ready ns, c) := by
  rw [ask, LoadState.attempt_done h]
  simp only [hear, ← hfree, Function.update_eq_self]

theorem ask_none (hfree : c.blocked k = none) (h : c.loads.status? w.target = none) :
    c.ask k w = (.load, c.start w.target) := by
  rw [ask, LoadState.attempt_none h]
  simp only [hear, ← hfree, Function.update_eq_self, start]

theorem ask_cycle (hfree : c.blocked k = none) (h : c.loads.status? w.target = some .loading)
    (hwaits : c.loads.waitsOn w.target w.chain = true) : c.ask k w = (.cycle, c) := by
  rw [ask, LoadState.attempt_cycle h hwaits]
  simp only [hear, ← hfree, Function.update_eq_self]

theorem ask_wait (h : c.loads.status? w.target = some .loading)
    (hwaits : c.loads.waitsOn w.target w.chain = false) :
    c.ask k w = (.wait c.loads.nextWaiter, c.enter k w) := by
  rw [ask, LoadState.attempt_wait h hwaits]
  rfl

theorem wake_done (h : c.loads.status? w.target = some (.done ns)) :
    c.wake k waiter w = (.ready ns, c.leave k waiter) := by
  rw [wake, LoadState.recheck_done h]
  rfl

theorem wake_none (h : c.loads.status? w.target = none) :
    c.wake k waiter w = (.load, (c.start w.target).leave k waiter) := by
  rw [wake, LoadState.recheck_none h]
  rfl

theorem wake_loading (h : c.loads.status? w.target = some .loading) :
    c.wake k waiter w = (.givenUp, c.leave k waiter) := by
  rw [wake, LoadState.recheck_loading h]
  rfl

end Answers

/-- What holds after each of the five things that can become of a cache holds after every step. -/
theorem Step.preserves {I : Cache κ → Prop} (h : c.Step e c') (hc : I c)
    (hstart : ∀ c path, I c → e.answers path → c.loads.status? path = none → I (c.start path))
    (henter : ∀ k w, c.blocked k = none → c.loads.waitsOn w.target w.chain = false → I (c.enter k w))
    (hleave : ∀ c k waiter w, I c → c.blocked k = some (waiter, w) → I (c.leave k waiter))
    (hfinish : ∀ path ns, path ∈ c.guards → I (c.finish path ns))
    (hdrop : ∀ path, path ∈ c.guards → I (c.drop path)) : I c' := by
  cases h with
  | @ask k w hfree =>
    cases hstatus : c.loads.status? w.target with
    | none =>
      rw [ask_none hfree hstatus]
      exact hstart c _ hc rfl hstatus
    | some load =>
      cases load with
      | done ns =>
        rw [ask_done hfree hstatus]
        exact hc
      | loading =>
        cases hwaits : c.loads.waitsOn w.target w.chain with
        | true =>
          rw [ask_cycle hfree hstatus hwaits]
          exact hc
        | false =>
          rw [ask_wait hstatus hwaits]
          exact henter k w hfree hwaits
  | @wake k waiter w hblocked =>
    cases hstatus : c.loads.status? w.target with
    | none =>
      rw [wake_none hstatus]
      exact hleave _ k waiter w (hstart c _ hc rfl hstatus) hblocked
    | some load =>
      have hleft := hleave c k waiter w hc hblocked
      cases load with
      | done ns => rwa [wake_done hstatus]
      | loading => rwa [wake_loading hstatus]
  | sleep => exact hc
  | finish ns hguard => exact hfinish _ ns hguard
  | drop hguard => exact hdrop _ hguard

/-- What holds at first and is preserved by every step holds at last. -/
theorem Steps.invariant {allowed : Event κ → Prop} {I : Cache κ → Prop} (h : Steps allowed c c') (hc : I c)
    (hstep : ∀ c e c', I c → allowed e → c.Step e c' → I c') : I c' := by
  induction h with
  | refl => exact hc
  | tail _ hlast ih =>
    obtain ⟨e, hallowed, hlast⟩ := hlast
    exact hstep _ e _ ih hallowed hlast

/-! ## The table and what is under way -/

/-- The table agrees with what is under way. -/
structure Sound (c : Cache κ) : Prop where
  /-- Somebody is to load a module just if it is marked so, and then one caller is. -/
  guards : ∀ path, c.guards.count path = if c.loads.status? path = some .loading then 1 else 0
  /-- The waiters are the entries of the callers that wait. -/
  blocked : ∀ entry, entry ∈ c.loads.waiters ↔ ∃ k, c.blocked k = some entry
  unique : ∀ k k' entry entry', c.blocked k = some entry → c.blocked k' = some entry' →
    entry.1 = entry'.1 → k = k'
  nodup : (c.loads.waiters.map (·.1)).Nodup
  below : ∀ entry ∈ c.loads.waiters, entry.1 < c.loads.nextWaiter

namespace Sound

section

omit [DecidableEq κ]

theorem fresh : (Cache.fresh : Cache κ).Sound where
  guards _ := rfl
  blocked _ := by simp [Cache.fresh, LoadState.empty]
  unique k k' entry entry' h := by cases h
  nodup := List.nodup_nil
  below _ h := by cases h

/-- A module that somebody is to load is marked so. -/
theorem loading (h : c.Sound) (hpath : path ∈ c.guards) : c.loads.status? path = some .loading := by
  have hcount := h.guards path
  by_contra hstatus
  rw [if_neg hstatus] at hcount
  exact List.count_eq_zero.1 hcount hpath

theorem start (h : c.Sound) (hstatus : c.loads.status? path = none) : (c.start path).Sound := by
  refine { h with guards := fun other ↦ ?_ }
  have hcount := h.guards other
  rw [Cache.start, List.count_cons]
  by_cases heq : other = path
  · rw [heq, hstatus] at hcount
    rw [heq, hcount, LoadState.status?_setStatus_self]
    simp
  · rw [LoadState.status?_setStatus_of_ne heq, hcount]
    simpa using fun h ↦ heq h.symm

/-- A load has ended, so that the module is not marked any more. -/
theorem ended (h : c.Sound) (hguard : path ∈ c.guards) {loads : LoadState}
    (hself : loads.status? path ≠ some .loading)
    (hother : ∀ other, other ≠ path → loads.status? other = c.loads.status? other)
    (hwaiters : loads.waiters = c.loads.waiters) (hnext : loads.nextWaiter = c.loads.nextWaiter) :
    ({ c with loads, guards := c.guards.erase path } : Cache κ).Sound where
  guards other := by
    have hcount := h.guards other
    by_cases heq : other = path
    · rw [heq, h.loading hguard, if_pos rfl] at hcount
      rw [heq, List.count_erase_self, hcount, if_neg hself]
    · rw [List.count_erase_of_ne heq, hother other heq, hcount]
  blocked := by rw [hwaiters]; exact h.blocked
  unique := h.unique
  nodup := by rw [hwaiters]; exact h.nodup
  below := by rw [hwaiters, hnext]; exact h.below

theorem finish (h : c.Sound) (hguard : path ∈ c.guards) (ns : NsId) : (c.finish path ns).Sound :=
  h.ended hguard (by simp) (fun _ ↦ LoadState.status?_finish_of_ne) rfl rfl

theorem drop (h : c.Sound) (hguard : path ∈ c.guards) : (c.drop path).Sound :=
  h.ended hguard (by simp) (fun _ ↦ LoadState.status?_abandon_of_ne) rfl rfl

end

theorem enter (h : c.Sound) (hfree : c.blocked k = none) (w : Waiter) : (c.enter k w).Sound where
  guards := h.guards
  blocked entry := by
    change entry ∈ (c.loads.enter w).waiters ↔ _
    rw [LoadState.mem_enter, h.blocked]
    constructor
    · rintro (⟨k', hk'⟩ | rfl)
      · have hne : k' ≠ k := by
          rintro rfl
          rw [hfree] at hk'
          cases hk'
        exact ⟨k', by rw [blocked_enter_of_ne hne, hk']⟩
      · exact ⟨k, blocked_enter_self⟩
    · rintro ⟨k', hk'⟩
      by_cases heq : k' = k
      · rw [heq, blocked_enter_self] at hk'
        exact .inr (Option.some.inj hk').symm
      · rw [blocked_enter_of_ne heq] at hk'
        exact .inl ⟨k', hk'⟩
  unique := by
    -- the new number is above all others
    have hold : ∀ k' entry, k' ≠ k → (c.enter k w).blocked k' = some entry →
        c.blocked k' = some entry ∧ entry.1 < c.loads.nextWaiter := by
      intro k' entry hne hk'
      rw [blocked_enter_of_ne hne] at hk'
      exact ⟨hk', h.below entry ((h.blocked entry).2 ⟨k', hk'⟩)⟩
    intro k₁ k₂ entry₁ entry₂ h₁ h₂ heq
    by_cases hk₁ : k₁ = k <;> by_cases hk₂ : k₂ = k
    · rw [hk₁, hk₂]
    · rw [hk₁, blocked_enter_self] at h₁
      cases h₁
      have hlt := (hold k₂ entry₂ hk₂ h₂).2
      omega
    · rw [hk₂, blocked_enter_self] at h₂
      cases h₂
      have hlt := (hold k₁ entry₁ hk₁ h₁).2
      omega
    · exact h.unique k₁ k₂ entry₁ entry₂ (hold k₁ entry₁ hk₁ h₁).1 (hold k₂ entry₂ hk₂ h₂).1 heq
  nodup := by
    have hnew : c.loads.nextWaiter ∉ c.loads.waiters.map (·.1) := by
      intro hmem
      obtain ⟨entry, hentry, heq⟩ := List.mem_map.1 hmem
      exact absurd heq (Nat.ne_of_lt (h.below entry hentry))
    rw [Cache.enter, LoadState.enter, List.map_append]
    exact h.nodup.append (List.nodup_singleton _) (by simpa using hnew)
  below entry hentry := by
    rcases LoadState.mem_enter.1 hentry with hentry | rfl
    · exact Nat.lt_succ_of_lt (h.below entry hentry)
    · exact Nat.lt_succ_self _

theorem leave (h : c.Sound) (hblocked : c.blocked k = some (waiter, w)) : (c.leave k waiter).Sound where
  guards := h.guards
  blocked entry := by
    change entry ∈ (c.loads.leave waiter).waiters ↔ _
    rw [LoadState.mem_leave, h.blocked]
    constructor
    · rintro ⟨⟨k', hk'⟩, hne⟩
      have hother : k' ≠ k := by
        rintro rfl
        rw [hblocked] at hk'
        cases hk'
        exact hne rfl
      exact ⟨k', by rw [blocked_leave_of_ne hother, hk']⟩
    · rintro ⟨k', hk'⟩
      by_cases heq : k' = k
      · rw [heq, blocked_leave_self] at hk'
        cases hk'
      · rw [blocked_leave_of_ne heq] at hk'
        exact ⟨⟨k', hk'⟩, fun hwaiter ↦ heq (h.unique k' k entry _ hk' hblocked hwaiter)⟩
  unique k₁ k₂ entry₁ entry₂ h₁ h₂ heq := by
    have hold : ∀ k' entry, (c.leave k waiter).blocked k' = some entry → c.blocked k' = some entry := by
      intro k' entry hk'
      by_cases hne : k' = k
      · rw [hne, blocked_leave_self] at hk'
        cases hk'
      · rwa [blocked_leave_of_ne hne] at hk'
    exact h.unique k₁ k₂ entry₁ entry₂ (hold k₁ entry₁ h₁) (hold k₂ entry₂ h₂) heq
  nodup := h.nodup.sublist (List.Sublist.map _ List.filter_sublist)
  below entry hentry := h.below entry (LoadState.mem_leave.1 hentry).1

theorem step (h : c.Sound) (hstep : c.Step e c') : c'.Sound :=
  hstep.preserves h (fun _ _ hc _ ↦ hc.start) (fun _ w hfree _ ↦ h.enter hfree w)
    (fun _ _ _ _ hc ↦ hc.leave) (fun _ ns hguard ↦ h.finish hguard ns) fun _ ↦ h.drop

end Sound

theorem Sound.steps {allowed : Event κ → Prop} (h : c.Sound) (hsteps : Steps allowed c c') : c'.Sound :=
  hsteps.invariant h fun _ _ _ hc _ ↦ hc.step

theorem Reachable.sound (h : c.Reachable) : c.Sound :=
  Sound.fresh.steps h

theorem Reachable.asks (h : c.Reachable) (w : Waiter) (hfree : c.blocked k = none) :
    (c.ask k w).2.Reachable :=
  .tail h ⟨_, trivial, .ask w hfree⟩

/-! ## Each module is loaded once -/

/-- What is known of a module that nobody is loading changes in no step but by an answer about it to somebody who
finds nothing known of it. -/
theorem Step.status? (h : c.Step e c') (hc : c.Sound) (hloading : c.loads.status? path ≠ some .loading)
    (hevent : c.loads.status? path = none → ¬ e.answers path) :
    c'.loads.status? path = c.loads.status? path := by
  have hguards : ∀ other ∈ c.guards, path ≠ other := by
    rintro other hother rfl
    exact hloading (hc.loading hother)
  refine h.preserves (I := fun c₁ ↦ c₁.loads.status? path = c.loads.status? path) rfl ?_ (fun _ _ _ _ ↦ rfl)
    (fun _ _ _ _ hsame _ ↦ hsame) (fun other _ hother ↦ ?_) fun other hother ↦ ?_
  · intro c₁ other hsame hanswers hnone
    have hne : path ≠ other := by
      rintro rfl
      exact hevent (hsame ▸ hnone) hanswers
    rw [Cache.start, LoadState.status?_setStatus_of_ne hne, hsame]
  · rw [Cache.finish, LoadState.status?_finish_of_ne (hguards other hother)]
  · rw [Cache.drop, LoadState.status?_abandon_of_ne (hguards other hother)]

/-- Whoever is answered about a module that has been loaded is given its namespace. -/
theorem Step.told_done {ns : NsId} {claim : Claim} (h : c.Step (.told k w claim) c')
    (hdone : c.loads.status? w.target = some (.done ns)) : claim = .ready ns := by
  cases h with
  | ask w hfree => rw [ask_done hfree hdone]
  | wake hblocked => rw [wake_done hdone]

/-- Whoever is answered about a module of which nothing is known is to load it. -/
theorem Step.told_none {claim : Claim} (h : c.Step (.told k w claim) c')
    (hnone : c.loads.status? w.target = none) : claim = .load ∧ c'.loads.status? w.target = some .loading := by
  cases h with
  | ask w hfree =>
    rw [ask_none hfree hnone]
    exact ⟨rfl, LoadState.status?_setStatus_self⟩
  | wake hblocked =>
    rw [wake_none hnone]
    exact ⟨rfl, LoadState.status?_setStatus_self⟩

/-- A caller is only turned away if what it asks for leads to one of its own loads. -/
theorem Step.told_cycle {claim : Claim} (h : c.Step (.told k w claim) c') (hclaim : claim = .cycle) :
    c.loads.waitsOn w.target w.chain = true := by
  cases h with
  | ask w hfree =>
    cases hstatus : c.loads.status? w.target with
    | none => rw [ask_none hfree hstatus] at hclaim; cases hclaim
    | some load =>
      cases load with
      | done ns => rw [ask_done hfree hstatus] at hclaim; cases hclaim
      | loading =>
        cases hwaits : c.loads.waitsOn w.target w.chain with
        | true => rfl
        | false => rw [ask_wait hstatus hwaits] at hclaim; cases hclaim
  | wake hblocked =>
    cases hstatus : c.loads.status? w.target with
    | none => rw [wake_none hstatus] at hclaim; cases hclaim
    | some load =>
      cases load with
      | done ns => rw [wake_done hstatus] at hclaim; cases hclaim
      | loading => rw [wake_loading hstatus] at hclaim; cases hclaim

/-- In every cache that may come about:

* there is one load to be ended for each module that is marked as being loaded, and none for the others;
* a module that has been loaded stays so, and all who are answered about it later are given its namespace;
* once a load is given up nothing is known of its module, and the next to be answered about it is to load it;
* the table of waiters holds the callers that wait, each once. -/
theorem loads_once (h : c.Reachable) :
    (∀ path, c.guards.count path = if c.loads.status? path = some .loading then 1 else 0) ∧
    (∀ path ns, c.loads.status? path = some (.done ns) → ∀ c₁, c.Leads c₁ →
      c₁.loads.status? path = some (.done ns) ∧
        ∀ k w claim c₂, w.target = path → c₁.Step (.told k w claim) c₂ → claim = .ready ns) ∧
    (∀ path c₁, c.Step (.dropped path) c₁ → ∀ c₂, Steps (¬ ·.answers path) c₁ c₂ →
      c₂.loads.status? path = none ∧
        ∀ k w claim c₃, w.target = path → c₂.Step (.told k w claim) c₃ →
          claim = .load ∧ c₃.guards.count path = 1) ∧
    (c.loads.waiters.map (·.1)).Nodup ∧ (∀ entry, entry ∈ c.loads.waiters ↔ ∃! k, c.blocked k = some entry) := by
  have hsound := h.sound
  refine ⟨hsound.guards, ?_, ?_, hsound.nodup, ?_⟩
  · intro path ns hdone c₁ hleads
    obtain ⟨-, hdone₁⟩ := hleads.invariant (I := fun c ↦ c.Sound ∧ c.loads.status? path = some (.done ns))
      ⟨hsound, hdone⟩ fun c e c' ⟨hc, hdone⟩ _ hstep ↦
        ⟨hc.step hstep, (hstep.status? hc (by simp [hdone]) (by simp [hdone])).trans hdone⟩
    refine ⟨hdone₁, fun k w claim c₂ hpath hstep ↦ ?_⟩
    exact hstep.told_done (hpath ▸ hdone₁)
  · intro path c₁ hdrop c₂ hsteps
    have hnone : c₁.loads.status? path = none := by
      cases hdrop
      exact LoadState.status?_abandon_self
    obtain ⟨hsound₂, hnone₂⟩ := hsteps.invariant (I := fun c ↦ c.Sound ∧ c.loads.status? path = none)
      ⟨hsound.step hdrop, hnone⟩ fun c e c' ⟨hc, hnone⟩ hevent hstep ↦
        ⟨hc.step hstep, (hstep.status? hc (by simp [hnone]) fun _ ↦ hevent).trans hnone⟩
    refine ⟨hnone₂, fun k w claim c₃ hpath hstep ↦ ?_⟩
    obtain ⟨hload, hloading⟩ := hstep.told_none (hpath ▸ hnone₂)
    refine ⟨hload, ?_⟩
    rw [(hsound₂.step hstep).guards path, if_pos (hpath ▸ hloading)]
  · intro entry
    rw [hsound.blocked]
    constructor
    · rintro ⟨k, hk⟩
      exact ⟨k, hk, fun k' hk' ↦ hsound.unique k' k entry entry hk' hk rfl⟩
    · rintro ⟨k, hk, -⟩
      exact ⟨k, hk⟩

/-- One caller loads a module and another waits for it. -/
def twoCallers : Cache Nat :=
  (fresh.start ["m"]).enter 1 ⟨[], ["m"]⟩

/-- With two callers there is one load to be ended and one caller in the table; and if the load is given up, the
other caller is to load the module. -/
theorem loads_once_twoCallers :
    twoCallers.Reachable ∧ twoCallers.guards.count ["m"] = 1 ∧
    (∃! k, twoCallers.blocked k = some (0, ⟨[], ["m"]⟩)) ∧
    ((twoCallers.drop ["m"]).wake 1 0 ⟨[], ["m"]⟩).1 = .load := by
  have hfirst : (fresh : Cache Nat).Reachable := .refl
  have hloads := hfirst.asks (k := 0) ⟨[], ["m"]⟩ rfl
  rw [ask_none rfl rfl] at hloads
  have hreachable : twoCallers.Reachable := by
    have hwaits := hloads.asks (k := 1) ⟨[], ["m"]⟩ rfl
    rwa [ask_wait rfl (LoadState.waitsOn_of_waiters_nil rfl (by decide))] at hwaits
  obtain ⟨hguards, -, hdrop, -, htable⟩ := Cache.loads_once hreachable
  have hdropped : twoCallers.Step (.dropped ["m"]) (twoCallers.drop ["m"]) := .drop (by decide)
  refine ⟨hreachable, hguards ["m"], (htable _).1 (by decide), ?_⟩
  exact ((hdrop ["m"] _ hdropped _ .refl).2 1 _ _ _ rfl (.wake rfl)).1

/-! ## Nobody waits for their own load -/

theorem Step.noCircle (h : c.Step e c') (hc : c.loads.NoCircle) : c'.loads.NoCircle :=
  h.preserves (I := fun c ↦ c.loads.NoCircle) hc (fun _ _ hc _ _ ↦ hc)
    (fun _ _ _ hwaits ↦ hc.enter fun _ ↦ LoadState.waitsOn_false hwaits)
    (fun _ _ waiter _ hc _ ↦ hc.leave waiter) (fun _ _ _ ↦ hc) fun _ _ ↦ hc

/-- In every cache that may come about nobody waits, directly or through others, for a load of their own; and
whoever is told that waiting would never end would have closed a circle by waiting. -/
theorem no_circles (h : c.Reachable) :
    (∀ p, ¬ Relation.TransGen c.loads.Waits p p) ∧
    ∀ k w c₁, c.Step (.told k w .cycle) c₁ → ∃ p, Relation.TransGen (c.loads.enter w).Waits p p := by
  constructor
  · refine Steps.invariant (I := fun c ↦ c.loads.NoCircle) h ?_ fun _ _ _ hc _ hstep ↦ hstep.noCircle hc
    intro p hp
    obtain ⟨q, ⟨entry, hentry, -⟩, -⟩ := Relation.TransGen.head'_iff.1 hp
    cases hentry
  · intro k w c₁ hstep
    obtain ⟨q, hq, hreaches⟩ := LoadState.waitsOn_true (hstep.told_cycle rfl)
    exact ⟨q, LoadState.circle_enter hq hreaches⟩

/-- The modules `a` and `b` are being loaded, and a part of the load of `a` waits for `b`. -/
def loadOfTwo : Cache Nat :=
  ((fresh.start ["a"]).start ["b"]).enter 2 ⟨[["a"]], ["b"]⟩

/-- Then a part of the load of `b` that asks for `a` is turned away. -/
theorem no_circles_loadOfTwo :
    loadOfTwo.Reachable ∧ (∀ p, ¬ Relation.TransGen loadOfTwo.loads.Waits p p) ∧
    loadOfTwo.loads.Waits ["a"] ["b"] ∧ (loadOfTwo.ask 3 ⟨[["b"]], ["a"]⟩).1 = .cycle ∧
    ∃ p, Relation.TransGen (loadOfTwo.loads.enter ⟨[["b"]], ["a"]⟩).Waits p p := by
  have hfirst : (fresh : Cache Nat).Reachable := .refl
  have hloadsA := hfirst.asks (k := 0) ⟨[], ["a"]⟩ rfl
  rw [ask_none rfl rfl] at hloadsA
  have hloadsB := hloadsA.asks (k := 1) ⟨[], ["b"]⟩ rfl
  rw [ask_none rfl rfl] at hloadsB
  have hreachable : loadOfTwo.Reachable := by
    have hwaits := hloadsB.asks (k := 2) ⟨[["a"]], ["b"]⟩ rfl
    rwa [ask_wait rfl (LoadState.waitsOn_of_waiters_nil rfl (by decide))] at hwaits
  have hedge : loadOfTwo.loads.Waits ["a"] ["b"] := ⟨_, .head _, .head _, rfl⟩
  have hcycle : (loadOfTwo.ask 3 ⟨[["b"]], ["a"]⟩).1 = .cycle := by
    cases hwaits : loadOfTwo.loads.waitsOn ["a"] [["b"]] with
    | true => rw [ask_cycle rfl rfl hwaits]
    | false => exact absurd (.single hedge) (LoadState.waitsOn_false hwaits (.head _))
  obtain ⟨hnone, hturned⟩ := Cache.no_circles hreachable
  have hstep : loadOfTwo.Step (.told 3 ⟨[["b"]], ["a"]⟩ .cycle) (loadOfTwo.ask 3 ⟨[["b"]], ["a"]⟩).2 := by
    rw [← hcycle]
    exact .ask _ rfl
  exact ⟨hreachable, hnone, hedge, hcycle, hturned 3 _ _ hstep⟩

end Cache

end ValueShell
