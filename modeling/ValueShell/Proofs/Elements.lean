import ValueShell.Proofs.Maps
import ValueShell.Proofs.StoreEffects

/-!
# Assigning and removing elements

`set` and `del` take a path of keys into a value of nested lists and maps, and rebuild the value around the change.
`Store.element_laws` says that they obey the laws of places: what is assigned is what is found there, everything else
is as it was, and it is the last of two assignments that counts.

Two keys may name one element without being equal, as `0` and `-2` do in a list of two.  Paths are therefore compared
element by element along the value (`Store.Parts`), and not key by key.

Assigning and removing differ in what they do to the last container on the way only.  `Store.ChangedAt` leaves that
open: what goes on along the path is proved once, by induction on it, from what is known of one level.
-/

set_option autoImplicit false

namespace ValueShell

/-! ## Values without namespaces -/

mutual

/-- No path of keys leads to a namespace: the value is made of lists and maps, down to what cannot be indexed. -/
def Value.Unshared : Value → Prop
  | .list items => Value.UnsharedItems items
  | .map entries => Value.UnsharedEntries entries
  | .ns _ => False
  | _ => True

/-- No path leads from the items to a namespace. -/
def Value.UnsharedItems : List Value → Prop
  | [] => True
  | v :: vs => v.Unshared ∧ Value.UnsharedItems vs

/-- No path leads from the values of the entries to a namespace. -/
def Value.UnsharedEntries : List (Value × Value) → Prop
  | [] => True
  | (_, v) :: entries => v.Unshared ∧ Value.UnsharedEntries entries

end

namespace Value

theorem unshared_list {xs : List Value} : (list xs).Unshared ↔ ∀ x ∈ xs, x.Unshared := by
  rw [Unshared]
  induction xs with
  | nil => simp [UnsharedItems]
  | cons x xs ih => simp [UnsharedItems, ih]

theorem unshared_map {es : Entries} : (map es).Unshared ↔ ∀ e ∈ es, e.2.Unshared := by
  rw [Unshared]
  induction es with
  | nil => simp [UnsharedEntries]
  | cons e es ih => simp [UnsharedEntries, ih]

/-! ## Keys of one element -/

/-- Do two keys name the same element of a value?  Positions of a list can be written in several ways. -/
def SameElement (base key other : Value) : Prop :=
  match base with
  | .list items => listIndex? key items.length = listIndex? other items.length
  | _ => key.keyEq other = true

/-- Can an element be put under the key? -/
def HasPlace (base key : Value) : Prop :=
  match base with
  | .list items => (listIndex? key items.length).isSome
  | .map _ => True
  | _ => False

/-- What assigning an element leaves of the layout of a value: a list keeps its length, and a map its keys in their
order, with a new one last. -/
def SameLayout (base key base' : Value) : Prop :=
  match base, base' with
  | .list items, .list items' => items'.length = items.length
  | .map es, .map es' =>
    Entries.keys es' = if (Entries.keys es).any key.keyEq then Entries.keys es else Entries.keys es ++ [key]
  | _, _ => False

end Value

theorem Value.sameElement_refl {base key : Value} (hkey : key.WellKeyed) : base.SameElement key key := by
  cases base with
  | list => rfl
  | _ => exact hkey.keyEq_refl

theorem listIndex?_lt {key : Value} {n i : Nat} (h : listIndex? key n = some i) : i < n := by
  rw [listIndex?] at h
  split at h
  · rw [Option.ite_none_right_eq_some, Option.some.injEq] at h
    omega
  · cases h

/-! ## Entries -/

namespace Entries

variable {es : Entries} {key other v w : Value}

theorem insert_insert (hkey : key.WellKeyed) : (es.insert key v).insert key w = es.insert key w := by
  induction es with
  | nil => simp [insert, hkey.keyEq_refl]
  | cons e es ih =>
    obtain ⟨k, u⟩ := e
    cases hk : key.keyEq k <;> simp [insert, hk, ih]

theorem insert_of_get? (h : es.get? key = some v) : es.insert key v = es := by
  induction es with
  | nil => cases h
  | cons e es ih =>
    obtain ⟨k, u⟩ := e
    rw [get?_cons] at h
    rw [insert]
    split at h
    · cases h
      rw [if_pos ‹_›]
    · rw [if_neg ‹_›, ih h]

theorem get?_congr (hkey : key.WellKeyed) (hother : other.WellKeyed) (hes : ∀ e ∈ es, e.1.WellKeyed)
    (h : key.keyEq other = true) : es.get? key = es.get? other := by
  rw [get?, get?]
  exact congrArg _ (List.find?_congr fun e he ↦ hkey.keyEq_congr_left hother (hes e he) h)

end Entries

/-! ## One level -/

namespace Store

variable {s s' : Store} {base key other inner v w r : Value}

theorem index_list {items : List Value} :
    s.index (.list items) key =
      match (listIndex? key items.length).bind (items[·]?) with
      | some v => .ok v
      | none => .error (.badValue "index" s!"integer from -{items.length} to {items.length - 1}" key.repr) :=
  rfl

theorem index_map {es : Entries} :
    s.index (.map es) key =
      match es.get? key with
      | some v => .ok v
      | none => .error (.noSuchKey key.repr) :=
  rfl

/-- An element can be read from a list or a map only, namespaces aside. -/
theorem index_cases (hbase : base.Unshared) (h : s.index base key = .ok inner) :
    (∃ items i, base = .list items ∧ listIndex? key items.length = some i ∧ items[i]? = some inner) ∨
      ∃ es : Entries, base = .map es ∧ es.get? key = some inner := by
  cases base with
  | list items =>
    rw [index_list] at h
    split at h <;> cases h
    obtain ⟨i, hi, hinner⟩ := Option.bind_eq_some_iff.1 ‹_›
    exact .inl ⟨items, i, rfl, hi, hinner⟩
  | map es =>
    rw [index_map] at h
    split at h <;> cases h
    exact .inr ⟨es, rfl, ‹_›⟩
  | ns id => cases hbase
  | _ => cases h

/-- An element can be assigned in a list or a map only, namespaces aside. -/
theorem assoc_cases (hbase : base.Unshared) (h : s.assoc base key v = .ok (r, s')) :
    s' = s ∧ ((∃ items i, base = .list items ∧ listIndex? key items.length = some i ∧ r = .list (items.set i v)) ∨
      ∃ es : Entries, base = .map es ∧ r = .map (es.insert key v)) := by
  cases base with
  | list items =>
    rw [assoc] at h
    split at h <;> cases h
    exact ⟨rfl, .inl ⟨items, _, rfl, ‹_›, rfl⟩⟩
  | map es =>
    cases h
    exact ⟨rfl, .inr ⟨es, rfl, rfl⟩⟩
  | ns id => cases hbase
  | _ => cases h

/-- An element can be removed from a map only, namespaces aside. -/
theorem dissoc_cases (hbase : base.Unshared) (h : s.dissoc base key = .ok (r, s')) :
    s' = s ∧ ∃ es : Entries, base = .map es ∧ (es.get? key).isSome ∧ r = .map (es.erase key) := by
  cases base with
  | map es =>
    rw [dissoc] at h
    split at h <;> cases h
    exact ⟨rfl, es, rfl, by simp [*], rfl⟩
  | ns id => cases hbase
  | _ => cases h

theorem mem_of_get? {es : Entries} (h : es.get? key = some v) : ∃ k, (k, v) ∈ es := by
  obtain ⟨e, he, rfl⟩ := Option.map_eq_some_iff.1 h
  exact ⟨e.1, List.mem_of_find?_eq_some he⟩

theorem index_unshared (hbase : base.Unshared) (h : s.index base key = .ok inner) : inner.Unshared := by
  rcases index_cases hbase h with ⟨items, i, rfl, -, hinner⟩ | ⟨es, rfl, hinner⟩
  · exact Value.unshared_list.1 hbase _ (List.mem_of_getElem? hinner)
  · obtain ⟨k, hk⟩ := mem_of_get? hinner
    exact Value.unshared_map.1 hbase _ hk

theorem index_wellKeyed (hbase : base.Unshared) (hwell : base.WellKeyed) (h : s.index base key = .ok inner) :
    inner.WellKeyed := by
  rcases index_cases hbase h with ⟨items, i, rfl, -, hinner⟩ | ⟨es, rfl, hinner⟩
  · exact Value.wellKeyed_list.1 hwell _ (List.mem_of_getElem? hinner)
  · obtain ⟨k, hk⟩ := mem_of_get? hinner
    exact ((Value.wellKeyed_map.1 hwell).2 _ hk).2

/-- Whether an element can be assigned does not depend on what is assigned. -/
theorem assoc_isOk_iff (hbase : base.Unshared) : (∃ r s', s.assoc base key v = .ok (r, s')) ↔ base.HasPlace key := by
  cases base with
  | list items =>
    rw [assoc, Value.HasPlace]
    cases listIndex? key items.length <;> simp
  | map es => simp [assoc, Value.HasPlace]
  | ns id => cases hbase
  | _ => simp [assoc, Value.HasPlace]

/-- Where an element can be read, one can be assigned. -/
theorem hasPlace_of_index (hbase : base.Unshared) (h : s.index base key = .ok inner) : base.HasPlace key := by
  rcases index_cases hbase h with ⟨items, i, rfl, hi, -⟩ | ⟨es, rfl, -⟩
  · simp [Value.HasPlace, hi]
  · trivial

/-- Keys of one element lead to it alike. -/
theorem index_congr (hbase : base.Unshared) (hwell : base.WellKeyed) (hkey : key.WellKeyed) (hother : other.WellKeyed)
    (hsame : base.SameElement key other) (h : s.index base key = .ok inner) : s.index base other = .ok inner := by
  rcases index_cases hbase h with ⟨items, i, rfl, hi, hinner⟩ | ⟨es, rfl, hinner⟩
  · rw [index_list, ← (show listIndex? key items.length = listIndex? other items.length from hsame), hi,
      Option.bind_some, hinner]
  · rw [index_map, ← Entries.get?_congr hkey hother (fun e he ↦ ((Value.wellKeyed_map.1 hwell).2 e he).1) hsame,
      hinner]

/-- What is assigned is read, under every key of the element. -/
theorem index_assoc_of_sameElement (hbase : base.Unshared) (hwell : base.WellKeyed) (hkey : key.WellKeyed)
    (hother : other.WellKeyed) (hsame : base.SameElement key other) (h : s.assoc base key v = .ok (r, s')) :
    s.index r other = .ok v := by
  rcases (assoc_cases hbase h).2 with ⟨items, i, rfl, hi, rfl⟩ | ⟨es, rfl, rfl⟩
  · have hother : listIndex? other items.length = some i := hsame.symm.trans hi
    rw [index_list, List.length_set, hother, Option.bind_some, List.getElem?_set_self (listIndex?_lt hi)]
  · rw [index_map, Entries.get?_insert hkey hother fun e he ↦ ((Value.wellKeyed_map.1 hwell).2 e he).1,
      if_pos (hkey.keyEq_symm hother hsame)]

theorem index_assoc (hbase : base.Unshared) (hwell : base.WellKeyed) (hkey : key.WellKeyed)
    (h : s.assoc base key v = .ok (r, s')) : s.index r key = .ok v :=
  index_assoc_of_sameElement hbase hwell hkey hkey (Value.sameElement_refl hkey) h

/-- The other elements are what they were. -/
theorem index_assoc_of_not_sameElement (hbase : base.Unshared) (hwell : base.WellKeyed) (hkey : key.WellKeyed)
    (hother : other.WellKeyed) (hdiff : ¬ base.SameElement key other) (h : s.assoc base key v = .ok (r, s')) :
    s.index r other = s.index base other := by
  rcases (assoc_cases hbase h).2 with ⟨items, i, rfl, hi, rfl⟩ | ⟨es, rfl, rfl⟩
  · have hne : ∀ j ∈ listIndex? other items.length, i ≠ j := by
      rintro j hj rfl
      exact hdiff (hi.trans hj.symm)
    rw [index_list, index_list, List.length_set]
    cases hj : listIndex? other items.length with
    | none => rfl
    | some j => rw [Option.bind_some, Option.bind_some, List.getElem?_set_ne (hne j hj)]
  · have hne : ¬ other.keyEq key = true := fun hok ↦ hdiff (hother.keyEq_symm hkey hok)
    rw [index_map, index_map, Entries.get?_insert hkey hother fun e he ↦ ((Value.wellKeyed_map.1 hwell).2 e he).1,
      if_neg hne]

theorem sameLayout_assoc (hbase : base.Unshared) (h : s.assoc base key v = .ok (r, s')) : base.SameLayout key r := by
  rcases (assoc_cases hbase h).2 with ⟨items, i, rfl, -, rfl⟩ | ⟨es, rfl, rfl⟩
  · exact List.length_set
  · exact Entries.keys_insert

/-- Of two assignments of one element the last counts. -/
theorem assoc_assoc (hbase : base.Unshared) (hkey : key.WellKeyed) (h : s.assoc base key v = .ok (r, s'))
    (s₁ : Store) : s₁.assoc r key w = s₁.assoc base key w := by
  rcases (assoc_cases hbase h).2 with ⟨items, i, rfl, hi, rfl⟩ | ⟨es, rfl, rfl⟩
  · simp [assoc, hi]
  · rw [assoc, assoc, Entries.insert_insert hkey]

/-- Of a map, the elements that are not removed are what they were. -/
theorem index_dissoc_of_not_sameElement (hbase : base.Unshared) (hwell : base.WellKeyed) (hkey : key.WellKeyed)
    (hother : other.WellKeyed) (hdiff : ¬ base.SameElement key other) (h : s.dissoc base key = .ok (r, s')) :
    s.index r other = s.index base other := by
  obtain ⟨-, es, rfl, -, rfl⟩ := dissoc_cases hbase h
  have hne : ¬ other.keyEq key = true := fun hok ↦ hdiff (hother.keyEq_symm hkey hok)
  rw [index_map, index_map, Entries.get?_erase hkey hother hwell, if_neg hne]

/-- Assigning what is there changes nothing. -/
theorem assoc_of_index (hbase : base.Unshared) (h : s.index base key = .ok v) : s.assoc base key v = .ok (base, s) := by
  rcases index_cases hbase h with ⟨items, i, rfl, hi, hv⟩ | ⟨es, rfl, hv⟩
  · obtain ⟨hlt, rfl⟩ := List.getElem?_eq_some_iff.1 hv
    simp [assoc, hi]
  · rw [assoc, Entries.insert_of_get? hv]

/-! ## Along a path -/

/-- The element a path of keys leads to. -/
def indexPath (s : Store) (base : Value) : List Value → Except Reason Value
  | [] => .ok base
  | key :: path => do
    let inner ← s.index base key
    s.indexPath inner path

/-- A value with a change at the end of a path: `change` says what becomes of the container the last key belongs to,
and each value around it has the changed one assigned. -/
inductive ChangedAt (s : Store) (change : Value → Value → Value → Prop) : Value → List Value → Value → Prop where
  | here {base key r : Value} (h : change base key r) : ChangedAt s change base [key] r
  | inside {base key inner inner' r : Value} {path : List Value} (hindex : s.index base key = .ok inner)
      (hinner : ChangedAt s change inner path inner') (hassoc : s.assoc base key inner' = .ok (r, s)) :
      ChangedAt s change base (key :: path) r

/-- Two paths part: up to some level their keys name the same elements, and there they name different ones. -/
inductive Parts (s : Store) : Value → List Value → List Value → Prop where
  | here {base key other : Value} {path rest : List Value} (hdiff : ¬ base.SameElement key other) :
      Parts s base (key :: path) (other :: rest)
  | inside {base key other inner : Value} {path rest : List Value} (hsame : base.SameElement key other)
      (hindex : s.index base key = .ok inner) (h : Parts s inner path rest) :
      Parts s base (key :: path) (other :: rest)

variable {path : List Value} {change : Value → Value → Value → Prop}

theorem indexPath_cons (h : s.index base key = .ok inner) :
    s.indexPath base (key :: path) = s.indexPath inner path := by
  rw [indexPath, h]
  rfl

theorem indexPath_append {p q : List Value} :
    s.indexPath base (p ++ q) = (do
      let c ← s.indexPath base p
      s.indexPath c q) := by
  induction p generalizing base with
  | nil => rfl
  | cons key p ih => simp only [List.cons_append, indexPath, ih, bind_assoc]

theorem indexPath_concat {p : List Value} {c : Value} (h : s.indexPath base p = .ok c) :
    s.indexPath base (p ++ [key]) = s.index c key := by
  rw [indexPath_append, h]
  change (do s.indexPath (← s.index c key) []) = s.index c key
  cases s.index c key <;> rfl

theorem indexPath_unshared (hbase : base.Unshared) (h : s.indexPath base path = .ok inner) : inner.Unshared := by
  induction path generalizing base with
  | nil =>
    cases h
    exact hbase
  | cons key path ih =>
    obtain ⟨next, hnext, h⟩ := bind_eq_ok h
    exact ih (index_unshared hbase hnext) h

theorem indexPath_wellKeyed (hbase : base.Unshared) (hwell : base.WellKeyed) (h : s.indexPath base path = .ok inner) :
    inner.WellKeyed := by
  induction path generalizing base with
  | nil =>
    cases h
    exact hwell
  | cons key path ih =>
    obtain ⟨next, hnext, h⟩ := bind_eq_ok h
    exact ih (index_unshared hbase hnext) (index_wellKeyed hbase hwell hnext) h

theorem assocPath_cons (hpath : path ≠ []) (h : s.index base key = .ok inner) :
    s.assocPath base (key :: path) v = (do
      let (inner', s) ← s.assocPath inner path v
      s.assoc base key inner') := by
  cases path with
  | nil => exact absurd rfl hpath
  | cons =>
    rw [assocPath, h]
    · rfl
    · exact List.cons_ne_nil _ _

theorem assocPath_cons_error {e : Reason} (hpath : path ≠ []) (h : s.index base key = .error e) :
    s.assocPath base (key :: path) v = .error e := by
  cases path with
  | nil => exact absurd rfl hpath
  | cons =>
    rw [assocPath, h]
    · rfl
    · exact List.cons_ne_nil _ _

/-! ### What assigning and removing do -/

theorem changePath_changedAt {change : Store → Value → Value → Except Reason (Value × Store)} {whole : Value → Value}
    (hchange : ∀ base key r s', base.Unshared → change s base key = .ok (r, s') → s' = s) (hbase : base.Unshared)
    (hpath : path ≠ []) (h : s.changePath change whole base path = .ok (r, s')) :
    s' = s ∧ ChangedAt s (fun base key r ↦ change s base key = .ok (r, s)) base path r := by
  fun_induction changePath s change whole base path generalizing r s' with
  | case1 => exact absurd rfl hpath
  | case2 base key =>
    obtain rfl := hchange _ _ _ _ hbase h
    exact ⟨rfl, .here h⟩
  | case3 base key path hne ih =>
    obtain ⟨inner, hinner, h⟩ := bind_eq_ok h
    obtain ⟨⟨inner', s₁⟩, hchanged, hassoc⟩ := bind_eq_ok h
    obtain ⟨rfl, hchanged⟩ := ih inner (index_unshared hbase hinner) hne hchanged
    obtain ⟨rfl, -⟩ := assoc_cases hbase hassoc
    exact ⟨rfl, .inside hinner hchanged hassoc⟩

theorem assocPath_changedAt (hbase : base.Unshared) (hpath : path ≠ []) (h : s.assocPath base path v = .ok (r, s')) :
    s' = s ∧ ChangedAt s (fun base key r ↦ s.assoc base key v = .ok (r, s)) base path r := by
  rw [assocPath_eq] at h
  exact changePath_changedAt (fun _ _ _ _ hbase h ↦ (assoc_cases hbase h).1) hbase hpath h

theorem dissocPath_changedAt (hbase : base.Unshared) (hpath : path ≠ []) (h : s.dissocPath base path = .ok (r, s')) :
    s' = s ∧ ChangedAt s (fun base key r ↦ s.dissoc base key = .ok (r, s)) base path r := by
  rw [dissocPath_eq] at h
  exact changePath_changedAt (fun _ _ _ _ hbase h ↦ (dissoc_cases hbase h).1) hbase hpath h

namespace ChangedAt

/-- On the way down, the change is one of the value there. -/
theorem split {p q : List Value} {k : Value} (hbase : base.Unshared) (hwell : base.WellKeyed)
    (hpath : ∀ k ∈ p, k.WellKeyed) (h : ChangedAt s change base (p ++ k :: q) r) :
    ∃ c c', s.indexPath base p = .ok c ∧ s.indexPath r p = .ok c' ∧ ChangedAt s change c (k :: q) c' := by
  induction p generalizing base r with
  | nil => exact ⟨base, r, rfl, rfl, h⟩
  | cons key p ih =>
    obtain ⟨hkey, hpath⟩ := List.forall_mem_cons.1 hpath
    rw [List.cons_append] at h
    generalize hfull : p ++ k :: q = full at h
    cases h with
    | here => simp at hfull
    | inside hindex hinner hassoc =>
      subst hfull
      obtain ⟨c, c', hc, hc', h⟩ := ih (index_unshared hbase hindex) (index_wellKeyed hbase hwell hindex) hpath hinner
      rw [indexPath_cons hindex, indexPath_cons (index_assoc hbase hwell hkey hassoc)]
      exact ⟨c, c', hc, hc', h⟩

theorem container {c c' : Value} (h : ChangedAt s change c [key] c') : change c key c' := by
  cases h with
  | here h => exact h
  | inside _ h _ => cases h

theorem sameLayout {c c' : Value} (hc : c.Unshared) (hpath : path ≠ []) (h : ChangedAt s change c (key :: path) c') :
    c.SameLayout key c' := by
  cases h with
  | here => exact absurd rfl hpath
  | inside _ _ hassoc => exact sameLayout_assoc hc hassoc

/-- A path that parts from that of the change leads where it led. -/
theorem indexPath_of_parts
    (hchange : ∀ {base key r other : Value}, base.Unshared → base.WellKeyed → key.WellKeyed → other.WellKeyed →
      ¬ base.SameElement key other → change base key r → s.index r other = s.index base other)
    (hbase : base.Unshared) (hwell : base.WellKeyed) (hpath : ∀ k ∈ path, k.WellKeyed) {rest : List Value}
    (hrest : ∀ k ∈ rest, k.WellKeyed) (h : ChangedAt s change base path r) (hparts : Parts s base path rest) :
    s.indexPath r rest = s.indexPath base rest := by
  induction h generalizing rest with
  | here h =>
    cases hparts with
    | here hdiff =>
      rw [indexPath, indexPath, hchange hbase hwell (hpath _ List.mem_cons_self) (hrest _ List.mem_cons_self) hdiff h]
    | inside _ _ hparts => cases hparts
  | inside hindex hinner hassoc ih =>
    obtain ⟨hkey, hpath⟩ := List.forall_mem_cons.1 hpath
    cases hparts with
    | here hdiff =>
      rw [indexPath, indexPath,
        index_assoc_of_not_sameElement hbase hwell hkey (hrest _ List.mem_cons_self) hdiff hassoc]
    | inside hsame hindex' hparts =>
      obtain ⟨hother, hrest⟩ := List.forall_mem_cons.1 hrest
      cases hindex.symm.trans hindex'
      -- The other path goes to the same element, and this is the changed one now.
      have hold := index_congr hbase hwell hkey hother hsame hindex
      have hnew := index_assoc_of_sameElement hbase hwell hkey hother hsame hassoc
      rw [indexPath_cons hold, indexPath_cons hnew]
      exact ih (index_unshared hbase hindex) (index_wellKeyed hbase hwell hindex) hpath hrest hparts

end ChangedAt

/-- After an assignment the same path can be assigned again, as if for the first time. -/
theorem assocPath_assocPath (hbase : base.Unshared) (hwell : base.WellKeyed) (hpath : ∀ k ∈ path, k.WellKeyed)
    (h : ChangedAt s (fun base key r ↦ s.assoc base key v = .ok (r, s)) base path r) :
    s.assocPath r path w = s.assocPath base path w := by
  induction h with
  | here h => exact assoc_assoc hbase (hpath _ List.mem_cons_self) h s
  | @inside base key inner inner' r path hindex hinner hassoc ih =>
    obtain ⟨hkey, hpath⟩ := List.forall_mem_cons.1 hpath
    have hne : path ≠ [] := by
      rintro rfl
      cases hinner
    have hagain := ih (index_unshared hbase hindex) (index_wellKeyed hbase hwell hindex) hpath
    rw [assocPath_cons hne hindex, assocPath_cons hne (index_assoc hbase hwell hkey hassoc), hagain]
    simp only [assoc_assoc hbase hkey hassoc]

/-- Assigning what a path leads to changes nothing. -/
theorem assocPath_of_indexPath (hbase : base.Unshared) (h : s.indexPath base path = .ok v) :
    s.assocPath base path v = .ok (base, s) := by
  induction path generalizing base with
  | nil =>
    cases h
    rfl
  | cons key path ih =>
    obtain ⟨inner, hinner, h⟩ := bind_eq_ok h
    by_cases hpath : path = []
    · subst hpath
      cases h
      exact assoc_of_index hbase hinner
    · rw [assocPath_cons hpath hinner, ih (index_unshared hbase hinner) h]
      exact assoc_of_index hbase hinner

/-- A path can be assigned where the last key has a place in the value that the others lead to. -/
theorem assocPath_isOk_iff (hbase : base.Unshared) :
    (∃ r s', s.assocPath base (path ++ [key]) v = .ok (r, s')) ↔
      ∃ c, s.indexPath base path = .ok c ∧ c.HasPlace key := by
  induction path generalizing base with
  | nil =>
    rw [List.nil_append, assocPath, assoc_isOk_iff hbase]
    simp [indexPath]
  | cons k path ih =>
    have hne : path ++ [key] ≠ [] := by simp
    rw [List.cons_append]
    cases hindex : s.index base k with
    | error e =>
      rw [assocPath_cons_error hne hindex, indexPath, hindex]
      constructor
      · rintro ⟨r, s', h⟩
        cases h
      · rintro ⟨c, hc, -⟩
        cases hc
    | ok inner =>
      rw [indexPath_cons hindex, ← ih (index_unshared hbase hindex), assocPath_cons hne hindex]
      constructor
      · rintro ⟨r, s', h⟩
        obtain ⟨⟨inner', s₁⟩, hinner, -⟩ := bind_eq_ok h
        exact ⟨inner', s₁, hinner⟩
      · rintro ⟨inner', s₁, hinner⟩
        rw [hinner]
        exact (assoc_isOk_iff hbase).2 (hasPlace_of_index hbase hindex)

/-! ## The laws -/

/-- What an assignment of `v` at the end of a path has made of a value. -/
structure Assigned (s : Store) (base : Value) (path : List Value) (key v r : Value) : Prop where
  /-- The path leads to what was assigned -/
  reads : s.indexPath r (path ++ [key]) = .ok v
  /-- Every path that parts from it leads where it led -/
  others : ∀ rest : List Value, (∀ k ∈ rest, k.WellKeyed) → Parts s base (path ++ [key]) rest →
    s.indexPath r rest = s.indexPath base rest
  /-- On the way, lists have kept their lengths, and maps their keys in their order, with a new one last -/
  layout : ∀ (p : List Value) (k : Value) (q : List Value), path ++ [key] = p ++ k :: q →
    ∃ c c', s.indexPath base p = .ok c ∧ s.indexPath r p = .ok c' ∧ c.SameLayout k c'
  /-- Another assignment does what it would have done at first -/
  again : ∀ w : Value, s.assocPath r (path ++ [key]) w = s.assocPath base (path ++ [key]) w

/-- What a removal at the end of a path has made of a value. -/
structure Removed (s : Store) (base : Value) (path : List Value) (key r : Value) : Prop where
  /-- The path leads nowhere -/
  absent : s.indexPath r (path ++ [key]) = .error (.noSuchKey key.repr)
  /-- The map the key was in has kept all other entries in their order -/
  entries : ∃ es : Entries, s.indexPath base path = .ok (.map es) ∧ (es.get? key).isSome ∧
    s.indexPath r path = .ok (.map (es.filter fun e ↦ !key.keyEq e.1))
  /-- Every path that parts from it leads where it led -/
  others : ∀ rest : List Value, (∀ k ∈ rest, k.WellKeyed) → Parts s base (path ++ [key]) rest →
    s.indexPath r rest = s.indexPath base rest
  /-- On the way, lists have kept their lengths, and maps their keys in their order -/
  layout : ∀ (p : List Value) (k : Value) (q : List Value), path = p ++ k :: q →
    ∃ c c', s.indexPath base p = .ok c ∧ s.indexPath r p = .ok c' ∧ c.SameLayout k c'

theorem assigned_of_assocPath (hbase : base.Unshared) (hwell : base.WellKeyed)
    (hpath : ∀ k ∈ path ++ [key], k.WellKeyed) (h : s.assocPath base (path ++ [key]) v = .ok (r, s')) :
    s' = s ∧ Assigned s base path key v r := by
  obtain ⟨rfl, hchanged⟩ := assocPath_changedAt hbase (by simp) h
  refine ⟨rfl, ?_, ?_, ?_, fun w ↦ assocPath_assocPath hbase hwell hpath hchanged⟩
  · obtain ⟨c, c', hc, hc', hlast⟩ := hchanged.split hbase hwell fun k hk ↦ hpath k (List.mem_append_left _ hk)
    rw [indexPath_concat hc']
    exact index_assoc (indexPath_unshared hbase hc) (indexPath_wellKeyed hbase hwell hc) (hpath key (by simp))
      hlast.container
  · intro rest hrest hparts
    exact hchanged.indexPath_of_parts index_assoc_of_not_sameElement hbase hwell hpath hrest hparts
  · intro p k q hfull
    have hp : ∀ k ∈ p, k.WellKeyed := fun l hl ↦ hpath l (hfull ▸ List.mem_append_left _ hl)
    rw [hfull] at hchanged
    obtain ⟨c, c', hc, hc', hrest⟩ := hchanged.split hbase hwell hp
    refine ⟨c, c', hc, hc', ?_⟩
    by_cases hq : q = []
    · subst hq
      exact sameLayout_assoc (indexPath_unshared hbase hc) hrest.container
    · exact hrest.sameLayout (indexPath_unshared hbase hc) hq

theorem removed_of_dissocPath (hbase : base.Unshared) (hwell : base.WellKeyed)
    (hpath : ∀ k ∈ path ++ [key], k.WellKeyed) (h : s.dissocPath base (path ++ [key]) = .ok (r, s')) :
    s' = s ∧ Removed s base path key r := by
  obtain ⟨rfl, hchanged⟩ := dissocPath_changedAt hbase (by simp) h
  have hkey := hpath key (by simp)
  have hinit : ∀ k ∈ path, k.WellKeyed := fun k hk ↦ hpath k (List.mem_append_left _ hk)
  obtain ⟨c, c', hc, hc', hlast⟩ := hchanged.split hbase hwell hinit
  have hwellc := indexPath_wellKeyed hbase hwell hc
  obtain ⟨-, es, rfl, hpresent, rfl⟩ := dissoc_cases (indexPath_unshared hbase hc) hlast.container
  refine ⟨rfl, ?_, ⟨es, hc, hpresent, ?_⟩, ?_, ?_⟩
  · rw [indexPath_concat hc', index_map, Entries.get?_erase hkey hkey hwellc, if_pos hkey.keyEq_refl]
  · rw [hc', Entries.erase_eq_filter hkey hwellc]
  · intro rest hrest hparts
    exact hchanged.indexPath_of_parts index_dissoc_of_not_sameElement hbase hwell hpath hrest hparts
  · intro p k q hfull
    have hp : ∀ k ∈ p, k.WellKeyed := fun l hl ↦ hinit l (hfull ▸ List.mem_append_left _ hl)
    rw [hfull, List.append_assoc, List.cons_append] at hchanged
    obtain ⟨c, c', hc, hc', hrest⟩ := hchanged.split hbase hwell hp
    exact ⟨c, c', hc, hc', hrest.sameLayout (indexPath_unshared hbase hc) (by simp)⟩

/-- An assignment fails where the way there fails, or the last key has no place. -/
theorem assocPath_eq_error_iff (hbase : base.Unshared) :
    (∃ e, s.assocPath base (path ++ [key]) v = .error e) ↔
      (∃ p, p <+: path ∧ ∃ e, s.indexPath base p = .error e) ∨
        ∃ c, s.indexPath base path = .ok c ∧ ¬ c.HasPlace key := by
  have hok : (∃ e, s.assocPath base (path ++ [key]) v = .error e) ↔
      ¬ ∃ c, s.indexPath base path = .ok c ∧ c.HasPlace key := by
    rw [← assocPath_isOk_iff hbase]
    rcases s.assocPath base (path ++ [key]) v with e | ⟨r, s'⟩ <;> simp
  rw [hok]
  cases hindex : s.indexPath base path with
  | error e =>
    refine iff_of_true ?_ (.inl ⟨path, List.prefix_rfl, e, hindex⟩)
    rintro ⟨c, hc, -⟩
    cases hc
  | ok c =>
    -- No step on the way has failed, since they all together have not.
    have hway : ¬ ∃ p, p <+: path ∧ ∃ e, s.indexPath base p = .error e := by
      rintro ⟨p, ⟨q, rfl⟩, e, hp⟩
      rw [indexPath_append, hp] at hindex
      cases hindex
    simp [hway]

/-- **Assigning and removing elements obey the laws of places.**  In a value of lists and maps, assigning at the end
of a path changes what that path leads to and nothing else; of two assignments the last counts; assigning what is
there changes nothing; and it fails only where there is no place.  Removing takes away one entry and nothing else. -/
theorem element_laws (hbase : base.Unshared) (hwell : base.WellKeyed) (hpath : ∀ k ∈ path ++ [key], k.WellKeyed) :
    (∀ r s', s.assocPath base (path ++ [key]) v = .ok (r, s') → s' = s ∧ Assigned s base path key v r) ∧
      (s.indexPath base (path ++ [key]) = .ok v → s.assocPath base (path ++ [key]) v = .ok (base, s)) ∧
      ((∃ e, s.assocPath base (path ++ [key]) v = .error e) ↔
        (∃ p, p <+: path ∧ ∃ e, s.indexPath base p = .error e) ∨
          ∃ c, s.indexPath base path = .ok c ∧ ¬ c.HasPlace key) ∧
      ∀ r s', s.dissocPath base (path ++ [key]) = .ok (r, s') → s' = s ∧ Removed s base path key r :=
  ⟨fun _ _ ↦ assigned_of_assocPath hbase hwell hpath, assocPath_of_indexPath hbase, assocPath_eq_error_iff hbase,
    fun _ _ ↦ removed_of_dissocPath hbase hwell hpath⟩

/-- In a list of a map and a text, the map is named by its position from the end in the one path, and by that from the
front in the other: they part at the keys of the map. -/
theorem element_laws_twoPositions :
    let at? : Int → Value := fun i ↦ .num (.int i)
    let base : Value := .list [.map [(.str "a", at? 1), (.str "b", at? 2)], .str "x"]
    let changed : Value := .list [.map [(.str "a", .nil), (.str "b", at? 2)], .str "x"]
    base.Unshared ∧ base.WellKeyed ∧
      empty.assocPath base ([at? (-2)] ++ [.str "a"]) .nil = .ok (changed, empty) ∧
      Assigned empty base [at? (-2)] (.str "a") .nil changed ∧
      empty.indexPath changed [at? 0, .str "b"] = .ok (at? 2) := by
  intro at? base changed
  have hunshared : base.Unshared := by simp [base, at?, Value.Unshared, Value.UnsharedItems, Value.UnsharedEntries]
  have hmap : (Value.map [(.str "a", at? 1), (.str "b", at? 2)]).WellKeyed :=
    Value.wellKeyed_map.2 ⟨List.pairwise_pair.2 (by decide), by simp [at?, Value.WellKeyed]⟩
  have hwell : base.WellKeyed := ⟨hmap, trivial, trivial⟩
  have hassoc : empty.assocPath base ([at? (-2)] ++ [.str "a"]) .nil = .ok (changed, empty) := rfl
  have hassigned := ((element_laws hunshared hwell (by simp [at?, Value.WellKeyed])).1 changed empty hassoc).2
  have hparts : Parts empty base ([at? (-2)] ++ [.str "a"]) [at? 0, .str "b"] :=
    .inside rfl rfl (.here (show ¬ Value.keyEq (.str "a") (.str "b") = true by decide))
  exact ⟨hunshared, hwell, hassoc, hassigned, hassigned.others _ (by simp [at?, Value.WellKeyed]) hparts⟩

end Store

end ValueShell
