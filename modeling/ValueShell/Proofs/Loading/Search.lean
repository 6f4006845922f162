import Mathlib.Data.Finset.Card
import Mathlib.Data.Multiset.AddSub
import Mathlib.Order.WellFounded
import ValueShell.Proofs.Loading.Table

/-!
# The search for circles, in any order

Before a caller waits, the table is searched for a way from the module it wants to one of those it is loading
itself.  `LoadState.search` goes along the waiters in the order in which they came.  Nothing depends on that: here the
modules still to be looked at are a multiset, a round takes any of them, and a module that has been seen before is
passed over (`LoadState.Round`).

* **It ends** (`LoadState.round_wellFounded`), from any state and on any table, with circles or without: a round
  either sees one more of the modules that are pending or waited for, or leaves one less pending.
* **It answers** as the table is (`LoadState.Answers.sound`, `LoadState.Answers.complete`): all that the modules seen
  wait for has been seen or is pending, so if nothing is pending any more, nothing leads out of them.
* So all orders come to one answer, that of `LoadState.waitsOn` (`LoadState.waitsOn_exact`).
-/

set_option autoImplicit false

namespace ValueShell

namespace LoadState

open Relation (ReflTransGen)

/-- How far a search has come. -/
structure Search where
  /-- The modules that have been looked at -/
  seen : Finset FilePath
  /-- The modules still to be looked at, as often as they have been met -/
  pending : Multiset FilePath

/-- The search for a module has only that to look at. -/
def Search.start (target : FilePath) : Search :=
  ⟨∅, {target}⟩

variable {s : LoadState} {chain : List FilePath} {path target : FilePath} {seen : Finset FilePath}
  {pending : Multiset FilePath} {p p' : Search} {answer : Bool}

/-- One round takes a pending module that is not of the chain.  If it is new, what it waits for is pending too. -/
inductive Round (s : LoadState) (chain : List FilePath) : Search → Search → Prop where
  | again {path : FilePath} {seen : Finset FilePath} {pending : Multiset FilePath} (hchain : path ∉ chain)
    (hseen : path ∈ seen) : Round s chain ⟨seen, path ::ₘ pending⟩ ⟨seen, pending⟩
  | follow {path : FilePath} {seen : Finset FilePath} {pending : Multiset FilePath} (hchain : path ∉ chain)
    (hseen : path ∉ seen) : Round s chain ⟨seen, path ::ₘ pending⟩ ⟨insert path seen, s.targetsOf path + pending⟩

/-- The search may come to the answer: it takes a module of the chain, or there is none left to take. -/
inductive Answers (s : LoadState) (chain : List FilePath) : Search → Bool → Prop where
  | found {path : FilePath} {seen : Finset FilePath} {pending : Multiset FilePath} (hchain : path ∈ chain) :
    Answers s chain ⟨seen, path ::ₘ pending⟩ true
  | lost {seen : Finset FilePath} : Answers s chain ⟨seen, 0⟩ false
  | round {p p' : Search} {answer : Bool} (hround : s.Round chain p p') (h : Answers s chain p' answer) :
    Answers s chain p answer

/-! ## The search ends -/

/-- The modules that a search may come to look at and has not seen. -/
def Search.unseen (s : LoadState) (p : Search) : Finset FilePath :=
  (p.pending.toFinset ∪ (s.waiters.map fun (_, w) ↦ w.target).toFinset) \ p.seen

theorem mem_targets_of_mem_targetsOf {q : FilePath} (h : q ∈ s.targetsOf path) :
    q ∈ (s.waiters.map fun (_, w) ↦ w.target).toFinset := by
  obtain ⟨e, he, -, rfl⟩ := mem_targetsOf.1 h
  exact List.mem_toFinset.2 (List.mem_map.2 ⟨e, he, rfl⟩)

/-- A round sees a module, or has one less to look at. -/
theorem Round.lt (h : s.Round chain p p') :
    Prod.Lex (· < ·) (· < ·) ((p'.unseen s).card, p'.pending.card) ((p.unseen s).card, p.pending.card) := by
  cases h with
  | @again path seen pending _ hseen =>
    have hsub : Search.unseen s ⟨seen, pending⟩ ⊆ Search.unseen s ⟨seen, path ::ₘ pending⟩ := by
      refine Finset.sdiff_subset_sdiff (Finset.union_subset_union_left ?_) subset_rfl
      exact Multiset.toFinset_subset.2 (Multiset.subset_cons pending path)
    rcases Nat.eq_or_lt_of_le (Finset.card_le_card hsub) with heq | hlt
    · rw [heq]
      exact .right _ (by rw [Multiset.card_cons]; exact Nat.lt_succ_self _)
    · exact .left _ _ hlt
  | @follow path seen pending _ hseen =>
    refine .left _ _ (Finset.card_lt_card (Finset.ssubset_iff_of_subset ?_ |>.2 ⟨path, ?_, ?_⟩))
    · intro q hq
      simp only [Search.unseen, Finset.mem_sdiff, Finset.mem_union, Multiset.mem_toFinset, Multiset.mem_add,
        Multiset.mem_coe, Multiset.mem_cons, Finset.mem_insert, not_or] at hq ⊢
      obtain ⟨(hq | hq) | hq, -, hnot⟩ := hq
      · exact ⟨.inr (mem_targets_of_mem_targetsOf hq), hnot⟩
      · exact ⟨.inl (.inr hq), hnot⟩
      · exact ⟨.inr hq, hnot⟩
    · simp [Search.unseen, hseen]
    · simp [Search.unseen]

/-- No search goes on for ever. -/
theorem round_wellFounded (s : LoadState) (chain : List FilePath) :
    WellFounded fun p' p ↦ s.Round chain p p' :=
  Subrelation.wf Round.lt (InvImage.wf (fun p : Search ↦ ((p.unseen s).card, p.pending.card))
    (WellFounded.prod_lex Nat.lt_wfRel.wf Nat.lt_wfRel.wf))

/-- So it comes to an answer. -/
theorem exists_answers (s : LoadState) (chain : List FilePath) (p : Search) : ∃ answer, s.Answers chain p answer := by
  induction p using (round_wellFounded s chain).induction with
  | _ p ih =>
    obtain ⟨seen, pending⟩ := p
    cases pending using Multiset.induction with
    | empty => exact ⟨false, .lost⟩
    | cons path pending _ =>
      by_cases hchain : path ∈ chain
      · exact ⟨true, .found hchain⟩
      · by_cases hseen : path ∈ seen
        · obtain ⟨answer, h⟩ := ih _ (.again hchain hseen)
          exact ⟨answer, .round (.again hchain hseen) h⟩
        · obtain ⟨answer, h⟩ := ih _ (.follow hchain hseen)
          exact ⟨answer, .round (.follow hchain hseen) h⟩

/-! ## The answer -/

/-- A way leads from the module to one of the chain. -/
def LeadsInto (s : LoadState) (chain : List FilePath) (path : FilePath) : Prop :=
  ∃ q ∈ chain, ReflTransGen s.Waits path q

/-- What is found can be reached. -/
theorem Answers.sound (h : s.Answers chain p true) : ∃ path ∈ p.pending, s.LeadsInto chain path := by
  generalize hanswer : true = answer at h
  induction h with
  | @found path seen pending hchain => exact ⟨path, Multiset.mem_cons_self .., path, hchain, .refl⟩
  | lost => cases hanswer
  | round hround _ ih =>
    obtain ⟨path, hpath, q, hq, hreaches⟩ := ih hanswer
    cases hround with
    | again _ _ => exact ⟨path, Multiset.mem_cons_of_mem hpath, q, hq, hreaches⟩
    | @follow taken _ _ _ _ =>
      rcases Multiset.mem_add.1 hpath with hpath | hpath
      · exact ⟨taken, Multiset.mem_cons_self .., q, hq, .head (mem_targetsOf.1 (Multiset.mem_coe.1 hpath)) hreaches⟩
      · exact ⟨path, Multiset.mem_cons_of_mem hpath, q, hq, hreaches⟩

/-- What has been seen is not of the chain, and all that it waits for has been seen or is pending. -/
def Search.Closed (s : LoadState) (chain : List FilePath) (p : Search) : Prop :=
  ∀ path ∈ p.seen, path ∉ chain ∧ ∀ q, s.Waits path q → q ∈ p.seen ∨ q ∈ p.pending

theorem Search.Closed.start (target : FilePath) : (Search.start target).Closed s chain :=
  fun _ h ↦ absurd h (Finset.notMem_empty _)

theorem Round.closed (h : s.Round chain p p') (hclosed : p.Closed s chain) : p'.Closed s chain := by
  cases h with
  | @again path seen pending _ hseen =>
    refine fun r hr ↦ ⟨(hclosed r hr).1, fun q hq ↦ ?_⟩
    rcases (hclosed r hr).2 q hq with hq | hq
    · exact .inl hq
    · rcases Multiset.mem_cons.1 hq with rfl | hq
      · exact .inl hseen
      · exact .inr hq
  | @follow path seen pending hchain _ =>
    intro r hr
    rcases Finset.mem_insert.1 hr with rfl | hr
    · exact ⟨hchain, fun q hq ↦ .inr (Multiset.mem_add.2 (.inl (mem_targetsOf.2 hq)))⟩
    · refine ⟨(hclosed r hr).1, fun q hq ↦ ?_⟩
      rcases (hclosed r hr).2 q hq with hq | hq
      · exact .inl (Finset.mem_insert_of_mem hq)
      · rcases Multiset.mem_cons.1 hq with rfl | hq
        · exact .inl (Finset.mem_insert_self ..)
        · exact .inr (Multiset.mem_add.2 (.inr hq))

/-- A round loses sight of nothing. -/
theorem Round.known (h : s.Round chain p p') (hpath : path ∈ p.seen ∨ path ∈ p.pending) :
    path ∈ p'.seen ∨ path ∈ p'.pending := by
  cases h with
  | again _ hseen =>
    rcases hpath with hpath | hpath
    · exact .inl hpath
    · rcases Multiset.mem_cons.1 hpath with rfl | hpath
      · exact .inl hseen
      · exact .inr hpath
  | follow _ _ =>
    rcases hpath with hpath | hpath
    · exact .inl (Finset.mem_insert_of_mem hpath)
    · rcases Multiset.mem_cons.1 hpath with rfl | hpath
      · exact .inl (Finset.mem_insert_self ..)
      · exact .inr (Multiset.mem_add.2 (.inr hpath))

/-- What is not found cannot be reached. -/
theorem Answers.complete (h : s.Answers chain p false) (hclosed : p.Closed s chain)
    (hpath : path ∈ p.seen ∨ path ∈ p.pending) : ¬ s.LeadsInto chain path := by
  generalize hanswer : false = answer at h
  induction h with
  | found _ => cases hanswer
  | @lost seen =>
    have hseen : path ∈ seen := hpath.resolve_right (Multiset.notMem_zero path)
    have hstays : ∀ q, ReflTransGen s.Waits path q → q ∈ seen := by
      intro q hreaches
      induction hreaches with
      | refl => exact hseen
      | tail _ hstep ih => exact ((hclosed _ ih).2 _ hstep).resolve_right (Multiset.notMem_zero _)
    rintro ⟨q, hq, hreaches⟩
    exact (hclosed q (hstays q hreaches)).1 hq
  | round hround _ ih => exact ih (hround.closed hclosed) (hround.known hpath) hanswer

/-- **The search for circles is exact.**  It comes to its end in whatever order it goes along the waiters, and then says
whether a way leads from the module to one of the chain. -/
theorem waitsOn_exact (s : LoadState) (target : FilePath) (chain : List FilePath) :
    (s.waitsOn target chain = true ↔ ∃ q ∈ chain, ReflTransGen s.Waits target q) ∧
      (WellFounded fun p' p ↦ s.Round chain p p') ∧
      ∀ answer, s.Answers chain (.start target) answer ↔ answer = s.waitsOn target chain := by
  have hexact : s.waitsOn target chain = true ↔ s.LeadsInto chain target := by
    refine ⟨waitsOn_true, fun ⟨q, hq, hreaches⟩ ↦ ?_⟩
    by_contra hnot
    exact waitsOn_false (Bool.eq_false_iff.2 hnot) hq hreaches
  have hunique : ∀ answer, s.Answers chain (.start target) answer → answer = s.waitsOn target chain := by
    intro answer h
    cases answer with
    | true =>
      obtain ⟨path, hpath, hleads⟩ := h.sound
      obtain rfl := Multiset.mem_singleton.1 hpath
      exact (hexact.2 hleads).symm
    | false =>
      have hnot := h.complete (.start target) (.inr (Multiset.mem_singleton_self target))
      exact (Bool.eq_false_iff.2 fun hwaits ↦ hnot (hexact.1 hwaits)).symm
  refine ⟨hexact, round_wellFounded s chain, fun answer ↦ ⟨hunique answer, ?_⟩⟩
  rintro rfl
  obtain ⟨answer, h⟩ := exists_answers s chain (.start target)
  exact hunique answer h ▸ h

end LoadState

end ValueShell
