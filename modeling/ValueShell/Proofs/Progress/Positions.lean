import Mathlib.Logic.Function.Iterate
import ValueShell.Proofs.Parsing

/-!
# Where the parser stands

A run of the parser moves along one list of tokens, so every cursor it comes to is the first one behind some number of
them: its position (`Cursor.past`).  `Parser.Settled` says of an answer that it is one: not for want of steps, and
given at a position not before the one where it was asked for.  `Parser.Settles` says so of two parsers at once, which
give the same there; they are one rule with two numbers of steps, so that it follows that more steps make no
difference.

Below are the rules for what the parser does at one position, and for one thing after the other
(`Parser.Settles.bind`).  Positions are plain numbers, so that what a rule has read is left to arithmetic.
-/

set_option autoImplicit false

namespace ValueShell

namespace Cursor

/-- The cursor behind the first tokens. -/
def past (c : Cursor) (pos : Nat) : Cursor :=
  tail^[pos] c

variable {c : Cursor} {pos : Nat}

theorem tail_past : (c.past pos).tail = c.past (pos + 1) :=
  (Function.iterate_succ_apply' ..).symm

theorem past_past {further : Nat} : (c.past pos).past further = c.past (pos + further) := by
  rw [past, past, past, ← Function.iterate_add_apply, Nat.add_comm]

theorem rest_tail : c.tail.rest = c.rest.tail := by
  obtain ⟨_ | ⟨t, rest⟩, behind, finish⟩ := c <;> rfl

theorem rest_past : (c.past pos).rest = c.rest.drop pos := by
  induction pos with
  | zero => rfl
  | succ pos ih => rw [← tail_past, rest_tail, ih, List.tail_drop]

theorem length_rest_past : (c.past pos).rest.length = c.rest.length - pos := by
  rw [rest_past, List.length_drop]

theorem tail_eq_self (h : c.next? = none) : c.tail = c := by
  obtain ⟨_ | ⟨t, rest⟩, behind, finish⟩ := c
  · rfl
  · cases h

/-- Where there is a next token, there is a position behind it. -/
theorem lt_of_next? {token : Token} (h : (c.past pos).next? = some token) : pos < c.rest.length := by
  by_contra hle
  rw [next?, rest_past, List.drop_eq_nil_of_le (Nat.not_lt.1 hle)] at h
  cases h

theorem le_of_next? (h : (c.past pos).next? = none) : c.rest.length ≤ pos := by
  rw [next?, Option.map_eq_none_iff, List.head?_eq_none_iff, rest_past, List.drop_eq_nil_iff] at h
  exact h

/-- Passing over tokens leads to a later position. -/
theorem exists_skip_eq (p : Token → Bool) (c : Cursor) : ∃ pos, pos ≤ c.rest.length ∧ c.skip p = c.past pos := by
  have hgo (rest : List Spanned) (behind : Option Nat) :
      ∃ pos, pos ≤ rest.length ∧ skip.go p c rest behind = past ⟨rest, behind, c.finish⟩ pos := by
    induction rest generalizing behind with
    | nil => exact ⟨0, Nat.le_refl _, rfl⟩
    | cons t rest ih =>
      by_cases ht : p t.token = true
      · obtain ⟨pos, hpos, hskip⟩ := ih (some t.span.stop)
        exact ⟨pos + 1, Nat.succ_le_succ hpos, by rw [skip.go, if_pos ht, hskip]; rfl⟩
      · exact ⟨0, Nat.zero_le _, by rw [skip.go, if_neg ht]; rfl⟩
  exact hgo c.rest c.behind

end Cursor

namespace Parser

variable {α β : Type} {c : Cursor} {start pos : Nat} {m m' : Parser α} {f f' : α → Parser β}
  {P P' : Nat → α → Prop} {Q : Nat → β → Prop}

/-- The answer is a result at a position not before `pos`, for which `P` holds, or a fault at a position not before
`start` that is not for want of steps. -/
inductive Settled (c : Cursor) (start pos : Nat) (P : Nat → α → Prop) :
    Except (SyntaxFault × Nat) (α × Cursor) → Prop where
  | ok {a : α} {pos' : Nat} (hle : pos ≤ pos') (hlength : pos' ≤ c.rest.length) (h : P pos' a) :
    Settled c start pos P (.ok (a, c.past pos'))
  | error {fault : SyntaxFault} {pos' : Nat} (hfault : fault ≠ .outOfSteps) (hle : start ≤ pos')
    (hlength : pos' ≤ c.rest.length) : Settled c start pos P (.error (fault, (c.past pos').here))

/-- At the position, the two parsers give the same answer, and it is settled. -/
def Settles (c : Cursor) (start pos : Nat) (m m' : Parser α) (P : Nat → α → Prop) : Prop :=
  start ≤ pos → pos ≤ c.rest.length → m (c.past pos) = m' (c.past pos) ∧ Settled c start pos P (m (c.past pos))

theorem Settled.mono {start' pos' : Nat} {r : Except (SyntaxFault × Nat) (α × Cursor)} (h : Settled c start pos P r)
    (hstart : start' ≤ start) (hpos : pos' ≤ pos) (hP : ∀ i a, pos ≤ i → P i a → P' i a) :
    Settled c start' pos' P' r := by
  cases h with
  | ok hle hlength h => exact .ok (Nat.le_trans hpos hle) hlength (hP _ _ hle h)
  | error hfault hle hlength => exact .error hfault (Nat.le_trans hstart hle) hlength

namespace Settles

theorem imp (h : Settles c start pos m m' P) (hP : ∀ i a, pos ≤ i → P i a → P' i a) : Settles c start pos m m' P' :=
  fun hstart hpos ↦ (h hstart hpos).imp_right fun hsettled ↦
    hsettled.mono (Nat.le_refl start) (Nat.le_refl pos) hP

/-- A rule that is called where the one that calls it stands by now. -/
theorem called (h : Settles c pos pos m m' P) : Settles c start pos m m' P :=
  fun hstart hpos ↦ (h (Nat.le_refl pos) hpos).imp_right fun hsettled ↦
    hsettled.mono hstart (Nat.le_refl pos) fun _ _ _ ↦ id

theorem pure {a : α} (h : P pos a) : Settles c start pos (Pure.pure a) (Pure.pure a) P :=
  fun _ hpos ↦ ⟨rfl, .ok (Nat.le_refl pos) hpos h⟩

theorem fail {fault : SyntaxFault} (h : fault ≠ .outOfSteps) :
    Settles c start pos (Parser.fail fault) (Parser.fail fault) P :=
  fun hstart hpos ↦ ⟨rfl, .error h hstart hpos⟩

/-- A fault at the place where the rule was entered. -/
theorem failAt {fault : SyntaxFault} (h : fault ≠ .outOfSteps) :
    Settles c start pos (Parser.failAt (c.past start).here fault) (Parser.failAt (c.past start).here fault) P :=
  fun hstart hpos ↦ ⟨rfl, .error h (Nat.le_refl start) (Nat.le_trans hstart hpos)⟩

theorem bind (h : Settles c start pos m m' P)
    (hf : ∀ i a, pos ≤ i → P i a → Settles c start i (f a) (f' a) Q) :
    Settles c start pos (m >>= f) (m' >>= f') Q := by
  intro hstart hpos
  obtain ⟨heq, hsettled⟩ := h hstart hpos
  change (m (c.past pos) >>= fun x ↦ f x.1 x.2) = (m' (c.past pos) >>= fun x ↦ f' x.1 x.2) ∧
    Settled c start pos Q (m (c.past pos) >>= fun x ↦ f x.1 x.2)
  rw [← heq]
  generalize m (c.past pos) = r at hsettled
  cases hsettled with
  | ok hle hlength h =>
    obtain ⟨hsame, hthen⟩ := hf _ _ hle h (Nat.le_trans hstart hle) hlength
    exact ⟨hsame, hthen.mono (Nat.le_refl start) hle fun _ _ _ ↦ id⟩
  | error hfault hle hlength => exact ⟨rfl, .error hfault hle hlength⟩

/-- What only looks gives the same twice and stays where it is. -/
theorem look {a : α} (hm : m (c.past pos) = .ok (a, c.past pos)) (h : Settles c start pos (f a) (f' a) Q) :
    Settles c start pos (m >>= f) (m >>= f') Q := by
  intro hstart hpos
  rw [bind_eq hm, bind_eq hm]
  exact h hstart hpos

/-- The next token is read, if there is one. -/
theorem advance {f f' : Option Token → Parser β}
    (hnone : (c.past pos).next? = none → Settles c start pos (f none) (f' none) Q)
    (hsome : ∀ token, (c.past pos).next? = some token →
      Settles c start (pos + 1) (f (some token)) (f' (some token)) Q) :
    Settles c start pos (Parser.advance >>= f) (Parser.advance >>= f') Q := by
  intro hstart hpos
  cases hnext : (c.past pos).next? with
  | none =>
    have hadvance : Parser.advance (c.past pos) = .ok (none, c.past pos) := by
      rw [Parser.advance, hnext, Cursor.tail_eq_self hnext]
    rw [bind_eq hadvance, bind_eq hadvance]
    exact hnone hnext hstart hpos
  | some token =>
    have hadvance : Parser.advance (c.past pos) = .ok (some token, c.past (pos + 1)) := by
      rw [Parser.advance, hnext, Cursor.tail_past]
    rw [bind_eq hadvance, bind_eq hadvance]
    obtain ⟨heq, hsettled⟩ := hsome token hnext (Nat.le_succ_of_le hstart) (Cursor.lt_of_next? hnext)
    exact ⟨heq, hsettled.mono (Nat.le_refl start) (Nat.le_succ pos) fun _ _ _ ↦ id⟩

/-- A token that has been looked at is read. -/
theorem discard {token : Token} (hnext : (c.past pos).next? = some token) :
    Settles c start pos (Functor.discard Parser.advance) (Functor.discard Parser.advance) fun i _ ↦ i = pos + 1 := by
  intro hstart hpos
  have hdiscard : (Functor.discard Parser.advance : Parser PUnit) (c.past pos) = .ok (⟨⟩, c.past (pos + 1)) := by
    rw [← Cursor.tail_past]
    rfl
  rw [hdiscard]
  exact ⟨rfl, .ok (Nat.le_succ pos) (Cursor.lt_of_next? hnext) rfl⟩

/-- Behind the last token nothing is read. -/
theorem discard_none (hnext : (c.past pos).next? = none) :
    Settles c start pos (Functor.discard Parser.advance) (Functor.discard Parser.advance) fun i _ ↦ i = pos := by
  intro hstart hpos
  have hdiscard : (Functor.discard Parser.advance : Parser PUnit) (c.past pos) = .ok (⟨⟩, c.past pos) :=
    congrArg (fun d ↦ Except.ok (PUnit.unit, d)) (Cursor.tail_eq_self hnext)
  rw [hdiscard]
  exact ⟨rfl, .ok (Nat.le_refl pos) hpos rfl⟩

/-- Tokens of some kind are passed over. -/
theorem skip (p : Token → Bool) : Settles c start pos (fun d ↦ .ok ((), d.skip p)) (fun d ↦ .ok ((), d.skip p))
    fun _ _ ↦ True := by
  intro hstart hpos
  obtain ⟨i, hi, hskip⟩ := Cursor.exists_skip_eq p (c.past pos)
  rw [Cursor.length_rest_past] at hi
  dsimp only
  rw [hskip, Cursor.past_past]
  exact ⟨rfl, .ok (Nat.le_add_right _ _) (by omega) trivial⟩

theorem expect (wanted : Token) :
    Settles c start pos (Parser.expect wanted) (Parser.expect wanted) fun i _ ↦ i = pos + 1 := by
  refine .look rfl ?_
  split
  next hnext => exact .discard hnext
  next => exact .fail (by simp)

theorem endPipeline (close : Option Token) :
    Settles c start pos (Parser.endPipeline close) (Parser.endPipeline close) fun i _ ↦ i = pos := by
  refine .look rfl ?_
  split
  · exact .pure rfl
  · exact .pure rfl
  · exact .pure rfl
  · split
    · exact .pure rfl
    · exact .fail (by simp)

end Settles

end Parser

end ValueShell
