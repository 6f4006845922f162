import Mathlib.Logic.Relation
import ValueShell.Modules.Loading

/-!
# The table of modules

What each step on the table does, with one equation for each thing that may be known of the module.  Statuses
are kept one per path, so `LoadState.status?` is all that need be known of the modules.

`LoadState.Waits` is the relation the search for circles goes along: those who load `p` wait for `q`.  The search
finds a module of the chain if there is one to be found (`search_false`) and only then (`search_true`).
-/

set_option autoImplicit false

namespace ValueShell

namespace LoadState

variable {s : LoadState} {path other : FilePath} {load : Load} {chain : List FilePath} {waiter : Nat}

/-! ## What is known of a module -/

theorem find?_filter_ne (modules : List (FilePath × Load)) (h : other ≠ path) :
    (modules.filter (·.1 ≠ path)).find? (·.1 = other) = modules.find? (·.1 = other) := by
  induction modules with
  | nil => rfl
  | cons entry modules ih =>
    by_cases hentry : entry.1 = path
    · have hother : ¬ entry.1 = other := fun heq ↦ h (heq.symm.trans hentry)
      rw [List.filter_cons_of_neg (by simpa using hentry), List.find?_cons_of_neg (by simpa using hother), ih]
    · rw [List.filter_cons_of_pos (by simpa using hentry)]
      by_cases hother : entry.1 = other
      · rw [List.find?_cons_of_pos (by simpa using hother), List.find?_cons_of_pos (by simpa using hother)]
      · rw [List.find?_cons_of_neg (by simpa using hother), List.find?_cons_of_neg (by simpa using hother), ih]

theorem find?_filter_self (modules : List (FilePath × Load)) :
    (modules.filter (·.1 ≠ path)).find? (·.1 = path) = none := by
  rw [List.find?_eq_none]
  intro entry hentry
  have hne : entry.1 ≠ path := by simpa using (List.mem_filter.1 hentry).2
  simpa using hne

@[simp] theorem status?_setStatus_self : (s.setStatus path load).status? path = some load := by
  rw [status?, setStatus, List.find?_append, find?_filter_self]
  simp

theorem status?_setStatus_of_ne (h : other ≠ path) :
    (s.setStatus path load).status? other = s.status? other := by
  have hlast : [(path, load)].find? (·.1 = other) = none := by
    rw [List.find?_cons_of_neg (by simpa using h.symm), List.find?_nil]
  rw [status?, setStatus, List.find?_append, find?_filter_ne _ h, hlast, Option.or_none]
  rfl

@[simp] theorem status?_abandon_self : (s.abandon path).status? path = none := by
  rw [status?, abandon, find?_filter_self]
  rfl

theorem status?_abandon_of_ne (h : other ≠ path) : (s.abandon path).status? other = s.status? other := by
  rw [status?, abandon, find?_filter_ne _ h]
  rfl

@[simp] theorem status?_finish_self {ns : NsId} : (s.finish path ns).status? path = some (.done ns) :=
  status?_setStatus_self

theorem status?_finish_of_ne {ns : NsId} (h : other ≠ path) :
    (s.finish path ns).status? other = s.status? other :=
  status?_setStatus_of_ne h

@[simp] theorem status?_leave : (s.leave waiter).status? path = s.status? path :=
  rfl

/-! ## Waiters -/

/-- The table with one more waiter. -/
def enter (s : LoadState) (w : Waiter) : LoadState :=
  { s with waiters := s.waiters ++ [(s.nextWaiter, w)], nextWaiter := s.nextWaiter + 1 }

@[simp] theorem status?_enter {w : Waiter} : (s.enter w).status? path = s.status? path :=
  rfl

@[simp] theorem waiters_setStatus : (s.setStatus path load).waiters = s.waiters :=
  rfl

@[simp] theorem waiters_finish {ns : NsId} : (s.finish path ns).waiters = s.waiters :=
  rfl

@[simp] theorem waiters_abandon : (s.abandon path).waiters = s.waiters :=
  rfl

theorem mem_enter {w : Waiter} {e : Nat × Waiter} :
    e ∈ (s.enter w).waiters ↔ e ∈ s.waiters ∨ e = (s.nextWaiter, w) := by
  rw [enter, List.mem_append, List.mem_singleton]

theorem mem_leave {e : Nat × Waiter} : e ∈ (s.leave waiter).waiters ↔ e ∈ s.waiters ∧ e.1 ≠ waiter := by
  rw [leave, List.mem_filter, decide_eq_true_eq]

/-! ## What callers are told -/

section Answers

variable {ns : NsId}

theorem attempt_done (h : s.status? path = some (.done ns)) : s.attempt path chain = (.ready ns, s) := by
  rw [attempt, h]

theorem attempt_none (h : s.status? path = none) :
    s.attempt path chain = (.load, s.setStatus path .loading) := by
  rw [attempt, h]

theorem attempt_cycle (h : s.status? path = some .loading) (hwaits : s.waitsOn path chain = true) :
    s.attempt path chain = (.cycle, s) := by
  rw [attempt, h]
  exact if_pos hwaits

theorem attempt_wait (h : s.status? path = some .loading) (hwaits : s.waitsOn path chain = false) :
    s.attempt path chain = (.wait s.nextWaiter, s.enter ⟨chain, path⟩) := by
  rw [attempt, h]
  exact if_neg (by rw [hwaits]; exact Bool.false_ne_true)

theorem recheck_done (h : s.status? path = some (.done ns)) :
    s.recheck waiter path = (.ready ns, s.leave waiter) := by
  rw [recheck, h]

theorem recheck_none (h : s.status? path = none) :
    s.recheck waiter path = (.load, (s.setStatus path .loading).leave waiter) := by
  rw [recheck, h]

theorem recheck_loading (h : s.status? path = some .loading) :
    s.recheck waiter path = (.givenUp, s.leave waiter) := by
  rw [recheck, h]

end Answers

/-! ## Who waits for what -/

/-- A caller in the middle of loading `p` waits for `q`. -/
def Waits (s : LoadState) (p q : FilePath) : Prop :=
  ∃ e ∈ s.waiters, p ∈ e.2.chain ∧ e.2.target = q

open Relation (ReflTransGen TransGen)

theorem mem_targetsOf {p q : FilePath} : q ∈ s.targetsOf p ↔ s.Waits p q := by
  simp [targetsOf, Waits, and_assoc]

/-- What the search finds can be reached. -/
theorem search_true {unseen pending : List FilePath} (h : s.search chain unseen pending = true) :
    ∃ p ∈ pending, ∃ q ∈ chain, ReflTransGen s.Waits p q := by
  induction unseen, pending using search.induct s chain with
  | case1 unseen => rw [search] at h; cases h
  | case2 unseen path pending hpath =>
    exact ⟨path, List.mem_cons_self, path, List.contains_iff_mem.1 hpath, .refl⟩
  | case3 unseen path pending hpath hunseen ih =>
    rw [search, if_neg hpath, dif_pos hunseen] at h
    obtain ⟨p, hp, q, hq, hreaches⟩ := ih h
    rcases List.mem_append.1 hp with hp | hp
    · exact ⟨path, List.mem_cons_self, q, hq, .head (mem_targetsOf.1 hp) hreaches⟩
    · exact ⟨p, List.mem_cons_of_mem _ hp, q, hq, hreaches⟩
  | case4 unseen path pending hpath hunseen ih =>
    rw [search, if_neg hpath, dif_neg hunseen] at h
    obtain ⟨p, hp, q, hq, hreaches⟩ := ih h
    exact ⟨p, List.mem_cons_of_mem _ hp, q, hq, hreaches⟩

/-- What the search does not find cannot be reached.  `seen` is the modules it has been at: all that these wait
for has been seen or is pending, so in the end nothing leads out of them. -/
theorem search_false {unseen pending : List FilePath} (h : s.search chain unseen pending = false)
    (seen : FilePath → Prop)
    (hseen : ∀ p, seen p → p ∉ chain ∧ ∀ q, s.Waits p q → seen q ∨ q ∈ pending)
    (hpending : ∀ q ∈ pending, q ∈ unseen ∨ seen q) (hall : ∀ p q, s.Waits p q → q ∈ unseen ∨ seen q)
    {p q : FilePath} (hp : seen p ∨ p ∈ pending) (hq : q ∈ chain) : ¬ ReflTransGen s.Waits p q := by
  induction unseen, pending using search.induct s chain generalizing seen with
  | case1 unseen =>
    have hclosed : ∀ r, ReflTransGen s.Waits p r → seen r := by
      intro r hreaches
      induction hreaches with
      | refl => exact hp.resolve_right List.not_mem_nil
      | tail _ hstep ih => exact ((hseen _ ih).2 _ hstep).resolve_right List.not_mem_nil
    exact fun hreaches ↦ (hseen q (hclosed q hreaches)).1 hq
  | case2 unseen path pending hpath => rw [search, if_pos hpath] at h; cases h
  | case3 unseen path pending hpath hunseen ih =>
    rw [search, if_neg hpath, dif_pos hunseen] at h
    have herase : ∀ r, r ∈ unseen ∨ seen r → r ∈ unseen.erase path ∨ seen r ∨ r = path := by
      intro r hr
      by_cases heq : r = path
      · exact .inr (.inr heq)
      · exact hr.imp (List.mem_erase_of_ne heq).2 .inl
    refine ih h (fun r ↦ seen r ∨ r = path) ?_ ?_ (fun r r' hr ↦ herase r' (hall r r' hr)) ?_
    · rintro r (hr | rfl)
      · refine ⟨(hseen r hr).1, fun r' hr' ↦ ?_⟩
        rcases (hseen r hr).2 r' hr' with hr' | hr'
        · exact .inl (.inl hr')
        · rcases List.mem_cons.1 hr' with rfl | hr'
          · exact .inl (.inr rfl)
          · exact .inr (List.mem_append_right _ hr')
      · refine ⟨fun hr ↦ hpath (List.contains_iff_mem.2 hr), fun r' hr' ↦ .inr ?_⟩
        exact List.mem_append_left _ (mem_targetsOf.2 hr')
    · intro r hr
      rcases List.mem_append.1 hr with hr | hr
      · exact herase r (hall path r (mem_targetsOf.1 hr))
      · exact herase r (hpending r (List.mem_cons_of_mem _ hr))
    · rcases hp with hp | hp
      · exact .inl (.inl hp)
      · rcases List.mem_cons.1 hp with rfl | hp
        · exact .inl (.inr rfl)
        · exact .inr (List.mem_append_right _ hp)
  | case4 unseen path pending hpath hunseen ih =>
    rw [search, if_neg hpath, dif_neg hunseen] at h
    have hpath : seen path := (hpending path List.mem_cons_self).resolve_left hunseen
    refine ih h seen (fun r hr ↦ ⟨(hseen r hr).1, fun r' hr' ↦ ?_⟩)
      (fun r hr ↦ hpending r (List.mem_cons_of_mem _ hr)) hall ?_
    · rcases (hseen r hr).2 r' hr' with hr' | hr'
      · exact .inl hr'
      · rcases List.mem_cons.1 hr' with rfl | hr'
        · exact .inl hpath
        · exact .inr hr'
    · rcases hp with hp | hp
      · exact .inl hp
      · rcases List.mem_cons.1 hp with rfl | hp
        · exact .inl hpath
        · exact .inr hp

/-- A positive answer names a module that can be reached. -/
theorem waitsOn_true {target : FilePath} (h : s.waitsOn target chain = true) :
    ∃ q ∈ chain, ReflTransGen s.Waits target q := by
  obtain ⟨p, hp, q, hq, hreaches⟩ := search_true h
  obtain rfl := List.mem_singleton.1 hp
  exact ⟨q, hq, hreaches⟩

/-- A negative answer leaves none that can be reached. -/
theorem waitsOn_false {target q : FilePath} (h : s.waitsOn target chain = false) (hq : q ∈ chain) :
    ¬ ReflTransGen s.Waits target q := by
  refine search_false h (fun _ ↦ False) (fun _ hp ↦ hp.elim) ?_ ?_ (.inr (List.mem_singleton.2 rfl)) hq
  · intro p hp
    exact .inl (List.mem_cons.2 (.inl (List.mem_singleton.1 hp)))
  · rintro p r ⟨e, he, -, rfl⟩
    exact .inl (List.mem_cons_of_mem _ (List.mem_map.2 ⟨e, he, rfl⟩))

/-- While nobody waits, only the module itself can be one of the chain. -/
theorem waitsOn_of_waiters_nil {target : FilePath} (h : s.waiters = []) (htarget : target ∉ chain) :
    s.waitsOn target chain = false := by
  rw [Bool.eq_false_iff]
  intro hwaits
  obtain ⟨q, hq, hreaches⟩ := waitsOn_true hwaits
  rcases hreaches.cases_head with rfl | ⟨r, ⟨e, he, -⟩, -⟩
  · exact htarget hq
  · rw [h] at he
    cases he

/-! ## Circles -/

theorem Waits.enter {w : Waiter} {p q : FilePath} :
    (s.enter w).Waits p q ↔ s.Waits p q ∨ (p ∈ w.chain ∧ w.target = q) := by
  constructor
  · rintro ⟨e, he, hp, hq⟩
    rcases mem_enter.1 he with he | rfl
    · exact .inl ⟨e, he, hp, hq⟩
    · exact .inr ⟨hp, hq⟩
  · rintro (⟨e, he, hp, hq⟩ | ⟨hp, hq⟩)
    · exact ⟨e, mem_enter.2 (.inl he), hp, hq⟩
    · exact ⟨_, mem_enter.2 (.inr rfl), hp, hq⟩

theorem Waits.of_leave {p q : FilePath} (h : (s.leave waiter).Waits p q) : s.Waits p q := by
  obtain ⟨e, he, hp⟩ := h
  exact ⟨e, (mem_leave.1 he).1, hp⟩

/-- Nobody waits, directly or through others, for a load of their own. -/
def NoCircle (s : LoadState) : Prop :=
  ∀ p, ¬ TransGen s.Waits p p

theorem NoCircle.leave (h : s.NoCircle) (waiter : Nat) : (s.leave waiter).NoCircle :=
  fun p hp ↦ h p (TransGen.mono (fun _ _ ↦ Waits.of_leave) p p hp)

/-- With one more waiter, a way is either one from before or goes along the new waiter. -/
theorem transGen_enter {w : Waiter} {p q : FilePath} (h : TransGen (s.enter w).Waits p q) :
    TransGen s.Waits p q ∨
      ∃ r ∈ w.chain, ReflTransGen (s.enter w).Waits p r ∧ ReflTransGen (s.enter w).Waits w.target q := by
  induction h with
  | single hstep =>
    rcases Waits.enter.1 hstep with hstep | ⟨hp, rfl⟩
    · exact .inl (.single hstep)
    · exact .inr ⟨p, hp, .refl, .refl⟩
  | tail hway hstep ih =>
    rcases ih with ih | ⟨r, hr, hpr, htarget⟩
    · rcases Waits.enter.1 hstep with hstep | ⟨hp, rfl⟩
      · exact .inl (ih.tail hstep)
      · exact .inr ⟨_, hp, hway.to_reflTransGen, .refl⟩
    · exact .inr ⟨r, hr, hpr, htarget.tail hstep⟩

/-- A waiter whose target leads to none of its chain closes no circle. -/
theorem NoCircle.enter {w : Waiter} (h : s.NoCircle)
    (hw : ∀ q ∈ w.chain, ¬ ReflTransGen s.Waits w.target q) : (s.enter w).NoCircle := by
  -- from its target on, the new waiter is never passed
  have hold : ∀ q, ReflTransGen (s.enter w).Waits w.target q → ReflTransGen s.Waits w.target q := by
    intro q hreaches
    induction hreaches with
    | refl => exact .refl
    | tail _ hstep ih =>
      rcases Waits.enter.1 hstep with hstep | ⟨hp, -⟩
      · exact ih.tail hstep
      · exact absurd ih (hw _ hp)
  intro p hp
  rcases transGen_enter hp with hp | ⟨r, hr, hpr, htarget⟩
  · exact h p hp
  · exact hw r hr (hold r (htarget.trans hpr))

/-- A waiter whose target leads to one of its chain closes a circle. -/
theorem circle_enter {w : Waiter} {q : FilePath} (hq : q ∈ w.chain) (h : ReflTransGen s.Waits w.target q) :
    TransGen (s.enter w).Waits q q :=
  .head' (Waits.enter.2 (.inr ⟨hq, rfl⟩)) (ReflTransGen.mono (fun _ _ hstep ↦ Waits.enter.2 (.inl hstep)) _ _ h)

end LoadState

end ValueShell
