import Mathlib.Data.List.Forall2
import ValueShell.Signature

/-!
# The weight of a call

A builtin command may call what it is given: `call` a command with arguments out of a list and options out of a map,
`time` and `eval` a callback.  Such a call is made in the caller's own frame, however many of them lie inside one
another.  What keeps them from going on for ever is that there is less in each: `Value.weight` counts the values in
a value, and a command that is called by another has a smaller `Value.callWeight`.
-/

set_option autoImplicit false

namespace ValueShell

/-! ## Weights -/

mutual

/-- The number of values that a list or a map has inside, itself included.  Keys do not count. -/
def Value.weight : Value → Nat
  | .list items => weights items + 1
  | .map entries => entryWeights entries + 1
  | _ => 1

/-- The weights of several values together. -/
def weights : List Value → Nat
  | [] => 0
  | v :: vs => v.weight + weights vs

/-- The weights of the values of entries together. -/
def entryWeights : List (Value × Value) → Nat
  | [] => 0
  | (_, v) :: entries => v.weight + entryWeights entries

end

/-- The weights of options together. -/
def Options.weight (opts : Options) : Nat :=
  weights (opts.map (·.2))

/-- The weight of a command with its arguments and options. -/
def Value.callWeight (f : Value) (args : List Value) (opts : Options) : Nat :=
  f.weight + weights args + opts.weight

theorem Value.one_le_weight (v : Value) : 1 ≤ v.weight := by
  cases v <;> simp [weight]

theorem Value.weight_le_of_mem {v : Value} {vs : List Value} (h : v ∈ vs) : v.weight ≤ weights vs := by
  induction vs with
  | nil => cases h
  | cons w vs ih =>
    rw [weights]
    rcases List.mem_cons.1 h with rfl | h
    · exact Nat.le_add_right _ _
    · exact Nat.le_trans (ih h) (Nat.le_add_left _ _)

namespace Options

variable {opts : Options} {name : String} {v : Value}

theorem weight_cons (n : String) (v : Value) (opts : Options) : weight ((n, v) :: opts) = v.weight + opts.weight := by
  rw [weight, List.map_cons, weights]
  rfl

theorem weight_le_of_mem (h : (name, v) ∈ opts) : v.weight ≤ opts.weight :=
  Value.weight_le_of_mem (List.mem_map_of_mem (f := (·.2)) h)

theorem weight_insert_le (opts : Options) (name : String) (v : Value) :
    (opts.insert name v).weight ≤ opts.weight + v.weight := by
  induction opts with
  | nil =>
    rw [insert, weight_cons]
    omega
  | cons o opts ih =>
    obtain ⟨n, w⟩ := o
    rw [insert]
    split
    · rw [weight_cons, weight_cons]
      omega
    · rw [weight_cons, weight_cons]
      omega

/-- Of several options with one name all but one are left out. -/
theorem weight_ofPairs_le (pairs : List (String × Value)) : (ofPairs pairs).weight ≤ weight pairs := by
  have hfold (acc : Options) : weight (pairs.foldl (fun opts p ↦ opts.insert p.1 p.2) acc) ≤
      acc.weight + weight pairs := by
    induction pairs generalizing acc with
    | nil => exact Nat.le_add_right _ _
    | cons p pairs ih =>
      obtain ⟨n, v⟩ := p
      have hinsert := acc.weight_insert_le n v
      rw [List.foldl_cons, weight_cons]
      refine Nat.le_trans (ih (acc.insert n v)) ?_
      omega
  have hall := hfold []
  rw [weight.eq_def [], List.map_nil, weights, Nat.zero_add] at hall
  exact hall

/-- The options that are made of the entries of a map weigh as much. -/
theorem weight_of_entries {entries : List (Value × Value)} {pairs : Options}
    (h : List.Forall₂ (fun e p ↦ p.2 = e.2) entries pairs) : pairs.weight = entryWeights entries := by
  induction h with
  | nil => rfl
  | @cons e p entries pairs hp _ ih =>
    obtain ⟨k, v⟩ := e
    obtain ⟨n, w⟩ := p
    obtain rfl : w = v := hp
    rw [weight_cons, entryWeights, ih]

end Options

/-! ## Arguments -/

namespace Signature

variable {s : Signature} {args : List Value} {opts : Options} {bound : Args} {name : String} {v : Value}

/-- Without a parameter that takes the rest, there is one argument for each parameter. -/
theorem bind_positional (h : s.bind args opts = .ok bound) (hrest : s.rest = none) :
    bound.positional = args ∧ args.length = s.params.length := by
  unfold bind at h
  split at h
  · rename_i hcount
    have hplace : s.place args = args := by rw [place, hrest]
    simp only [accepts, arity, hrest, Option.all_some, Bool.and_eq_true, decide_eq_true_eq] at hcount
    split at h
    · cases h
    · cases h
      exact ⟨hplace, Nat.le_antisymm hcount.2 hcount.1⟩
  · cases h

theorem mem_fill {given : Options} {o : String × Value} (h : o ∈ s.fill given) : o ∈ given ∨ o ∈ s.options := by
  rw [fill] at h
  generalize s.options = options at h ⊢
  induction options generalizing given with
  | nil => exact .inl h
  | cons o' options ih =>
    rcases ih h with h | h
    · dsimp only at h
      split at h
      · exact .inl h
      · rcases List.mem_append.1 h with h | h
        · exact .inl h
        · rw [List.mem_singleton.1 h]
          exact .inr List.mem_cons_self
    · exact .inr (List.mem_cons_of_mem o' h)

/-- An option without a default is one that was given. -/
theorem bind_option (h : s.bind args opts = .ok bound) (hdefault : ∀ w, (name, w) ∈ s.options → w = .nil)
    (hv : bound.option? name = some v) : (name, v) ∈ opts := by
  have hmem : (name, v) ∈ bound.options ∧ v ≠ .nil := by
    rw [Args.option?] at hv
    split at hv
    · cases hv
    · rename_i hnil
      rw [Options.get?, Option.map_eq_some_iff] at hv
      obtain ⟨⟨n, w⟩, hfind, rfl⟩ := hv
      obtain rfl : n = name := by simpa using List.find?_some hfind
      refine ⟨List.mem_of_find?_eq_some hfind, ?_⟩
      rintro rfl
      exact hnil (by rw [Options.get?, hfind]; rfl)
  unfold bind at h
  split at h
  · split at h
    · cases h
    · cases h
      rcases mem_fill hmem.1 with hgiven | hoption
      · exact (List.mem_filter.1 hgiven).1
      · exact absurd (hdefault v hoption) hmem.2
  · cases h

end Signature

/-! ## Calls that commands make -/

namespace Value

variable {b : Builtin} {opts : Options} {f : Value}

/-- A callback is called with an argument that has nothing inside. -/
theorem callWeight_callback_lt {v arg : Value} {name : String} (hf : (name, f) ∈ opts) (harg : arg.weight = 1) :
    callWeight f [arg] [] < callWeight (.builtin b) [v] opts := by
  have hopts := Options.weight_le_of_mem hf
  have hv := v.one_le_weight
  simp only [callWeight, weights, Options.weight, List.map_nil, weight, harg] at hopts ⊢
  omega

theorem callWeight_body_lt (body : Value) : callWeight body [] [] < callWeight (.builtin b) [body] opts := by
  simp only [callWeight, weights, Options.weight, List.map_nil, weight]
  omega

/-- The arguments and the options of a call are taken out of two arguments of the command that makes it. -/
theorem callWeight_call_lt {vs v : Value} {args' : List Value} {opts' : Options}
    (h : weights args' + opts'.weight < vs.weight + v.weight) :
    callWeight f args' opts' < callWeight (.builtin b) [f, vs, v] opts := by
  simp only [callWeight, weights, weight]
  omega

end Value

end ValueShell
