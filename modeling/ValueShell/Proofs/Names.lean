import ValueShell.Store

/-!
# Plain names

A name without a colon before its end is a path of one, so it is looked up as it is.  The functions that
make variable names out of words keep qualified names qualified.
-/

set_option autoImplicit false

namespace ValueShell

namespace Name

theorem cutColons_ne_nil (cs : List Char) : cutColons cs ≠ [] := by
  fun_cases cutColons cs <;> simp_all

/-- Cutting at colons loses nothing. -/
theorem cutColons_flatten (cs : List Char) : (cutColons cs).flatten = cs := by
  fun_induction cutColons cs with
  | case1 => rfl
  | case2 c => rfl
  | case3 cs _ ih => rw [List.flatten_cons, ih, List.singleton_append]
  | case4 c cs _ _ first others h ih =>
    rw [h, List.flatten_cons] at ih
    rw [List.flatten_cons, List.cons_append, ih]
  | case5 c cs _ _ h => exact absurd h (cutColons_ne_nil cs)

variable {name : String}

theorem path_of_plain (h : isQualified name = false) : path name = [name] := by
  have hlen : (cutColons name.toList).length ≤ 1 := by
    simpa [isQualified, path] using h
  have hflat := cutColons_flatten name.toList
  rw [path]
  match hc : cutColons name.toList with
  | [] => exact absurd hc (cutColons_ne_nil _)
  | [cs] =>
    rw [hc, List.flatten_cons, List.flatten_nil, List.append_nil] at hflat
    rw [hflat, List.map_singleton, String.ofList_toList]
  | _ :: _ :: _ =>
    rw [hc] at hlen
    simp at hlen

theorem root_of_plain (h : isQualified name = false) : root name = name := by
  rw [root, path_of_plain h]
  rfl

/-- The first piece has no colon before its end. -/
theorem cutColons_first {cs first : List Char} {others : List (List Char)} (h : cutColons cs = first :: others) :
    cutColons first = [first] := by
  fun_induction cutColons cs generalizing first others with
  | case1 =>
    cases h
    rfl
  | case2 c =>
    cases h
    rfl
  | case3 cs _ ih =>
    cases h
    rfl
  | case4 c cs _ hc piece pieces hpieces ih =>
    cases h
    have hpiece : cutColons piece = [piece] := ih hpieces
    cases piece with
    | nil => rfl
    | cons d ds =>
      rw [cutColons, if_neg hc, hpiece]
      simp
  | case5 c cs _ _ hnil => exact absurd hnil (cutColons_ne_nil cs)

/-- What is looked up in the scope is a plain name. -/
theorem isQualified_root (name : String) : isQualified (root name) = false := by
  cases hpieces : cutColons name.toList with
  | nil => exact absurd hpieces (cutColons_ne_nil _)
  | cons first others =>
    have hroot : root name = String.ofList first := by
      rw [root, path, hpieces]
      rfl
    rw [hroot, isQualified, path, String.toList_ofList, cutColons_first hpieces]
    rfl

theorem length_cutColons_le_append (cs : List Char) (c : Char) :
    (cutColons cs).length ≤ (cutColons (cs ++ [c])).length := by
  fun_induction cutColons cs with
  | case1 => simp [cutColons]
  | case2 d => exact Nat.succ_le_of_lt (List.length_pos_iff.2 (cutColons_ne_nil _))
  | case3 cs hcs ih =>
    rw [List.cons_append, cutColons, if_pos rfl]
    · exact Nat.succ_le_succ ih
    · simp
  | case4 d cs hcs hd first others h ih =>
    rw [List.cons_append, cutColons, if_neg hd]
    · rw [h] at ih
      match hc : cutColons (cs ++ [c]) with
      | [] => exact absurd hc (cutColons_ne_nil _)
      | first' :: others' =>
        rw [hc] at ih
        exact ih
    · simp
  | case5 d cs _ _ h => exact absurd h (cutColons_ne_nil cs)

/-- The function of a qualified name is in the same namespace. -/
theorem isQualified_function (h : isQualified name = true) : isQualified (function name) = true := by
  have hle := length_cutColons_le_append name.toList '~'
  simp only [isQualified, path, List.length_map, decide_eq_true_eq] at h ⊢
  rw [function, String.toList_append]
  exact Nat.lt_of_lt_of_le h hle

end Name

theorem Store.find?_of_plain {s : Store} {chain : List Bindings} {name : String}
    (h : Name.isQualified name = false) : s.find? chain name = Bindings.findIn? chain name := by
  rw [Store.find?, Name.path_of_plain h]

end ValueShell
