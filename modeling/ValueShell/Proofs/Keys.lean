import Mathlib.Data.List.Forall2
import ValueShell.Store.Element

/-!
# Keys

When two values are the same key of a map.  `Value.keyEq` compares maps by asking, for each entry of the one, for
the first entry of the other with the same key, and those lookups use the very relation that is being asked about.
It is an equivalence nevertheless, on values in which no map has a key twice (`Value.WellKeyed`):

* `Value.WellKeyed.keyEq_refl`, `Value.WellKeyed.keyEq_symm` and `Value.WellKeyed.keyEq_trans`.

The induction is on one of the values only, so what it carries along has to speak of that value alone
(`Value.IsKey`).  Symmetry and transitivity at the keys of a map do not suffice for the map itself: that two keys
of the *other* map are the same is only known through a key of this one, which is why `IsKey.eucl` is part of what
is carried.  For the way back from one map to the other the entries are counted (`exists_mem_of_length_eq`).
-/

set_option autoImplicit false

namespace ValueShell

/-! ## Lists with one element of a kind -/

/-- The search stops at the element sought, if there is only one of its kind. -/
theorem find?_eq_some_of_pairwise {α : Type} {p : α → Bool} {l : List α} {a : α}
    (h : l.Pairwise fun b c ↦ ¬ (p b = true ∧ p c = true)) (ha : a ∈ l) (hp : p a = true) : l.find? p = some a := by
  induction l with
  | nil => cases ha
  | cons b l ih =>
    obtain ⟨hb, hl⟩ := List.pairwise_cons.1 h
    rcases List.mem_cons.1 ha with rfl | ha
    · exact List.find?_cons_of_pos hp
    · rw [List.find?_cons_of_neg fun hpb ↦ hb a ha ⟨hpb, hp⟩]
      exact ih hl ha

/-- If each element of a list has a partner in a list of the same length, and no two of them the same, then each
element of the other list is a partner. -/
theorem exists_mem_of_length_eq {α β : Type} {T : α → β → Prop} {xs : List α} {ys : List β}
    (hlen : xs.length = ys.length) (hxs : xs.Pairwise fun x x' ↦ ∀ y ∈ ys, T x y → ¬ T x' y)
    (h : ∀ x ∈ xs, ∃ y ∈ ys, T x y) : ∀ y ∈ ys, ∃ x ∈ xs, T x y := by
  induction xs generalizing ys with
  | nil =>
    intro y hy
    rw [List.length_nil] at hlen
    rw [List.eq_nil_of_length_eq_zero hlen.symm] at hy
    cases hy
  | cons x xs ih =>
    obtain ⟨hx, hxs⟩ := List.pairwise_cons.1 hxs
    obtain ⟨y, hy, hxy⟩ := h x List.mem_cons_self
    -- The partner of `x` is taken out of `ys`; those of the others are in what is left.
    obtain ⟨ys₁, ys₂, rfl⟩ := List.append_of_mem hy
    have hsub : ys₁ ++ ys₂ ⊆ ys₁ ++ y :: ys₂ :=
      ((List.Sublist.refl ys₁).append (List.sublist_cons_self y ys₂)).subset
    have hrest : ∀ x' ∈ xs, ∃ z ∈ ys₁ ++ ys₂, T x' z := by
      intro x' hx'
      obtain ⟨z, hz, hxz⟩ := h x' (List.mem_cons_of_mem x hx')
      have hne : z ≠ y := by
        rintro rfl
        exact hx x' hx' z hz hxy hxz
      simp only [List.mem_append, List.mem_cons, hne, false_or] at hz
      exact ⟨z, List.mem_append.2 hz, hxz⟩
    have hback := ih (by simp at hlen ⊢; omega) (hxs.imp fun h z hz ↦ h z (hsub hz)) hrest
    intro z hz
    by_cases hzy : z = y
    · exact ⟨x, List.mem_cons_self, hzy ▸ hxy⟩
    · simp only [List.mem_append, List.mem_cons, hzy, false_or] at hz
      obtain ⟨x', hx', hxz⟩ := hback z (List.mem_append.2 hz)
      exact ⟨x', List.mem_cons_of_mem x hx', hxz⟩

/-! ## Floats -/

section

open Float.Model

/-- What stands for a float: the two zeros are one. -/
def oneZero : UnpackedFloat → UnpackedFloat
  | .zero _ => .zero .positive
  | u => u

/-- What a float is as a key. -/
def floatKey (x : Float) : UnpackedFloat :=
  oneZero x.toModel.unpack

theorem oneZero_eq_iff {a b : UnpackedFloat} :
    oneZero a = oneZero b ↔ (∃ s t, a = .zero s ∧ b = .zero t) ∨ a = b := by
  constructor
  · intro h
    cases a <;> cases b <;> first | exact .inl ⟨_, _, rfl, rfl⟩ | exact .inr h | cases h
  · rintro (⟨s, t, rfl, rfl⟩ | rfl) <;> rfl

theorem isNaN_iff {x : Float} : x.isNaN = true ↔ x.toModel.unpack = .notANumber := by
  change x.toModel.unpack.isNaN = true ↔ _
  cases x.toModel.unpack <;> constructor <;> intro h <;> first | rfl | cases h

/-- Numbers apart from zero and infinity are compared by exponent and mantissa. -/
theorem compare_parts_eq_iff {e e' : Int} {m m' : Nat} :
    (compare e e').then (compare m m') = .eq ↔ m = m' ∧ e = e' := by
  simp [and_comm]

theorem eq_of_compare {a b : UnpackedFloat} (h : a.compare b = some .eq) :
    (∃ s t, a = .zero s ∧ b = .zero t) ∨ (a = b ∧ a ≠ .notANumber) := by
  rcases a with s | _ | s | ⟨s, m, e, hm⟩ <;> rcases b with t | _ | t | ⟨t, m', e', hm'⟩ <;> try cases s
  all_goals try cases t
  all_goals try cases h
  case zero.zero.negative.negative | zero.zero.negative.positive | zero.zero.positive.negative |
      zero.zero.positive.positive => exact .inl ⟨_, _, rfl, rfl⟩
  case infinity.infinity.negative.negative | infinity.infinity.positive.positive => exact .inr ⟨rfl, nofun⟩
  case finite.finite.negative.negative =>
    have hparts : ((compare e e').then (compare m m')).swap = .eq := Option.some.inj h
    rw [Ordering.swap_eq_eq, compare_parts_eq_iff] at hparts
    obtain ⟨rfl, rfl⟩ := hparts
    exact .inr ⟨rfl, nofun⟩
  case finite.finite.positive.positive =>
    obtain ⟨rfl, rfl⟩ := compare_parts_eq_iff.1 (Option.some.inj h)
    exact .inr ⟨rfl, nofun⟩

theorem compare_eq_some_eq_iff {a b : UnpackedFloat} :
    a.compare b = some .eq ↔ (∃ s t, a = .zero s ∧ b = .zero t) ∨ (a = b ∧ a ≠ .notANumber) := by
  refine ⟨eq_of_compare, ?_⟩
  rintro (⟨s, t, rfl, rfl⟩ | ⟨rfl, hne⟩)
  · rfl
  · rcases a with s | _ | s | ⟨s, m, e, hm⟩
    · cases s <;> rfl
    · exact absurd rfl hne
    · rfl
    · have hparts : (compare e e).then (compare m m) = .eq := compare_parts_eq_iff.2 ⟨rfl, rfl⟩
      cases s
      · exact congrArg (fun o ↦ some o.swap) hparts
      · exact congrArg some hparts

/-- Two floats are one key when they are the same, the sign of zero aside. -/
theorem sameFloatKey_iff {x y : Float} : sameFloatKey x y = true ↔ floatKey x = floatKey y := by
  have hbeq : (x == y) = true ↔ x.toModel.unpack.compare y.toModel.unpack = some .eq := by
    change (x.toModel.unpack.compare y.toModel.unpack == some .eq) = true ↔ _
    rw [beq_iff_eq]
  rw [sameFloatKey, Bool.or_eq_true, Bool.and_eq_true, hbeq, isNaN_iff, isNaN_iff, compare_eq_some_eq_iff, floatKey,
    floatKey, oneZero_eq_iff]
  constructor
  · rintro ((h | ⟨h, -⟩) | ⟨hx, hy⟩)
    · exact .inl h
    · exact .inr h
    · exact .inr (hx.trans hy.symm)
  · rintro (h | h)
    · exact .inl (.inl h)
    · by_cases hx : x.toModel.unpack = .notANumber
      · exact .inr ⟨hx, h.symm.trans hx⟩
      · exact .inl (.inr ⟨h, hx⟩)

end

/-! ## Values without a map that has a key twice -/

/-- No two entries have the same key. -/
def Entries.Distinct (entries : Entries) : Prop :=
  entries.Pairwise fun e f ↦ ¬ e.1.keyEq f.1 = true

mutual

/-- No map in the value has a key twice, at whatever depth. -/
def Value.WellKeyed : Value → Prop
  | .list items => Value.WellKeyedItems items
  | .map entries => Entries.Distinct entries ∧ Value.WellKeyedEntries entries
  | _ => True

/-- No map in the items has a key twice. -/
def Value.WellKeyedItems : List Value → Prop
  | [] => True
  | v :: vs => v.WellKeyed ∧ Value.WellKeyedItems vs

/-- No map in the keys and values of the entries has a key twice. -/
def Value.WellKeyedEntries : List (Value × Value) → Prop
  | [] => True
  | (k, v) :: entries => k.WellKeyed ∧ v.WellKeyed ∧ Value.WellKeyedEntries entries

end

namespace Value

variable {a b c : Value} {xs ys zs : List Value} {es fs gs : Entries}

theorem wellKeyedItems_iff : WellKeyedItems xs ↔ ∀ x ∈ xs, x.WellKeyed := by
  induction xs with
  | nil => simp [WellKeyedItems]
  | cons x xs ih => simp [WellKeyedItems, ih]

theorem wellKeyedEntries_iff : WellKeyedEntries es ↔ ∀ e ∈ es, e.1.WellKeyed ∧ e.2.WellKeyed := by
  induction es with
  | nil => simp [WellKeyedEntries]
  | cons e es ih => simp [WellKeyedEntries, ih, and_assoc]

theorem wellKeyed_list : (list xs).WellKeyed ↔ ∀ x ∈ xs, x.WellKeyed := by
  rw [WellKeyed, wellKeyedItems_iff]

theorem wellKeyed_map : (map es).WellKeyed ↔ es.Distinct ∧ ∀ e ∈ es, e.1.WellKeyed ∧ e.2.WellKeyed := by
  rw [WellKeyed, wellKeyedEntries_iff]

/-! ## What is compared -/

/-- What is compared of a value that is neither a list nor a map. -/
inductive Atom where
  | nil
  | bool (b : Bool)
  | str (s : String)
  | int (i : Int)
  | rat (q : Rational)
  | float (x : Float.Model.UnpackedFloat)
  | ns (id : NsId)
  | closure (id : ClosureId)
  /-- A builtin command goes by its name -/
  | command (name : String)
  | external (program : String)
  /-- An exception goes by its message -/
  | exception (message : String)

/-- What is compared of a value, if it is neither a list nor a map. -/
def atom? : Value → Option Atom
  | .nil => some .nil
  | .bool b => some (.bool b)
  | .str s => some (.str s)
  | .num (.int i) => some (.int i)
  | .num (.rat q) => some (.rat q)
  | .num (.float x) => some (.float (floatKey x))
  | .ns id => some (.ns id)
  | .closure id => some (.closure id)
  | .builtin b => some (.command b.name)
  | .constantly _ => some (.command Builtin.constantly.name)
  | .external program => some (.external program)
  | .exception e => some (.exception e.message)
  | .list _ | .map _ => none

theorem keyEq_of_atom (ha : a.atom?.isSome) : a.keyEq b = true ↔ a.atom? = b.atom? := by
  cases a with
  | list | map => cases ha
  | num n =>
    cases n <;> cases b with
    | num m => cases m <;> simp [keyEq, sameSimple, atom?, Num.same, sameFloatKey_iff]
    | _ => simp [keyEq, sameSimple, atom?, builtinName?]
  | _ =>
    cases b with
    | num m => cases m <;> simp [keyEq, sameSimple, atom?, builtinName?]
    | _ => simp [keyEq, sameSimple, atom?, builtinName?]

theorem keyEq_list : (list xs).keyEq b = true ↔ ∃ ys, b = list ys ∧ keyEqItems xs ys = true := by
  cases b <;> simp [keyEq, sameSimple, builtinName?]

theorem keyEq_map :
    (map es).keyEq b = true ↔ ∃ fs, b = map fs ∧ es.length = fs.length ∧ keyEqWithin es fs = true := by
  cases b <;> simp [keyEq, sameSimple, builtinName?]

theorem keyEqItems_iff : keyEqItems xs ys = true ↔
    xs.length = ys.length ∧ ∀ i (hx : i < xs.length) (hy : i < ys.length), keyEq xs[i] ys[i] = true := by
  have hitems : keyEqItems xs ys = true ↔ List.Forall₂ (fun x y ↦ keyEq x y = true) xs ys := by
    induction xs generalizing ys with
    | nil => cases ys <;> simp [keyEqItems]
    | cons x xs ih => cases ys <;> simp [keyEqItems, ih]
  exact hitems.trans List.forall₂_iff_get

theorem keyEqWithin_cons {e : Value × Value} : keyEqWithin (e :: es) fs = true ↔
    (∃ f, fs.find? (fun f ↦ e.1.keyEq f.1) = some f ∧ e.2.keyEq f.2 = true) ∧ keyEqWithin es fs = true := by
  obtain ⟨k, v⟩ := e
  rw [keyEqWithin, Bool.and_eq_true]
  refine and_congr_left fun _ ↦ ?_
  cases fs.find? fun f ↦ k.keyEq f.1 <;> simp

/-- Each entry has one of the other map as a partner. -/
theorem exists_mem_of_keyEqWithin (h : keyEqWithin es fs = true) :
    ∀ e ∈ es, ∃ f ∈ fs, e.1.keyEq f.1 = true ∧ e.2.keyEq f.2 = true := by
  induction es with
  | nil => exact List.forall_mem_nil _
  | cons e es ih =>
    obtain ⟨⟨f, hf, hvalue⟩, hes⟩ := keyEqWithin_cons.1 h
    have hkey : e.1.keyEq f.1 = true := List.find?_some (p := fun f : Value × Value ↦ e.1.keyEq f.1) hf
    exact List.forall_mem_cons.2 ⟨⟨f, List.mem_of_find?_eq_some hf, hkey, hvalue⟩, ih hes⟩

/-- Partners are found where no other entry has the same key. -/
theorem keyEqWithin_of_forall_exists
    (hone : ∀ e ∈ es, fs.Pairwise fun f g ↦ ¬ (e.1.keyEq f.1 = true ∧ e.1.keyEq g.1 = true))
    (h : ∀ e ∈ es, ∃ f ∈ fs, e.1.keyEq f.1 = true ∧ e.2.keyEq f.2 = true) : keyEqWithin es fs = true := by
  induction es with
  | nil => rfl
  | cons e es ih =>
    obtain ⟨⟨f, hf, hkey, hvalue⟩, hes⟩ := List.forall_mem_cons.1 h
    obtain ⟨hfs, hone⟩ := List.forall_mem_cons.1 hone
    exact keyEqWithin_cons.2 ⟨⟨f, find?_eq_some_of_pairwise hfs hf hkey, hvalue⟩, ih hone hes⟩

/-! ## The induction -/

/-- What the equality of keys is on one side of this value: everything that can be said without assuming the same of the
other values. -/
structure IsKey (a : Value) : Prop where
  refl : a.keyEq a = true
  symm : ∀ {b : Value}, b.WellKeyed → a.keyEq b = true → b.keyEq a = true
  trans : ∀ {b c : Value}, b.WellKeyed → c.WellKeyed → a.keyEq b = true → b.keyEq c = true → a.keyEq c = true
  /-- Two values that are the same key as this one are the same key -/
  eucl : ∀ {b c : Value}, b.WellKeyed → c.WellKeyed → a.keyEq b = true → a.keyEq c = true → b.keyEq c = true

theorem isKey_of_atom (ha : a.atom?.isSome) : a.IsKey where
  refl := (keyEq_of_atom ha).2 rfl
  symm _ hab := by
    have hab := (keyEq_of_atom ha).1 hab
    exact (keyEq_of_atom (hab ▸ ha)).2 hab.symm
  trans _ _ hab hbc := by
    have hab := (keyEq_of_atom ha).1 hab
    exact (keyEq_of_atom ha).2 (hab.trans ((keyEq_of_atom (hab ▸ ha)).1 hbc))
  eucl _ _ hab hac := by
    have hab := (keyEq_of_atom ha).1 hab
    exact (keyEq_of_atom (hab ▸ ha)).2 (hab.symm.trans ((keyEq_of_atom ha).1 hac))

theorem isKey_list (hxs : ∀ x ∈ xs, x.IsKey) : (list xs).IsKey where
  refl := keyEq_list.2 ⟨xs, rfl, keyEqItems_iff.2 ⟨rfl, fun i hi _ ↦ (hxs _ (List.getElem_mem hi)).refl⟩⟩
  symm hb hab := by
    obtain ⟨ys, rfl, hxy⟩ := keyEq_list.1 hab
    obtain ⟨hlen, hxy⟩ := keyEqItems_iff.1 hxy
    have hys := wellKeyed_list.1 hb
    refine keyEq_list.2 ⟨xs, rfl, keyEqItems_iff.2 ⟨hlen.symm, fun i hy hx ↦ ?_⟩⟩
    exact (hxs _ (List.getElem_mem hx)).symm (hys _ (List.getElem_mem hy)) (hxy i hx hy)
  trans hb hc hab hbc := by
    obtain ⟨ys, rfl, hxy⟩ := keyEq_list.1 hab
    obtain ⟨zs, rfl, hyz⟩ := keyEq_list.1 hbc
    obtain ⟨hlen, hxy⟩ := keyEqItems_iff.1 hxy
    obtain ⟨hlen', hyz⟩ := keyEqItems_iff.1 hyz
    refine keyEq_list.2 ⟨zs, rfl, keyEqItems_iff.2 ⟨hlen.trans hlen', fun i hx hz ↦ ?_⟩⟩
    have hy : i < ys.length := hlen ▸ hx
    exact (hxs _ (List.getElem_mem hx)).trans (wellKeyed_list.1 hb _ (List.getElem_mem hy))
      (wellKeyed_list.1 hc _ (List.getElem_mem hz)) (hxy i hx hy) (hyz i hy hz)
  eucl hb hc hab hac := by
    obtain ⟨ys, rfl, hxy⟩ := keyEq_list.1 hab
    obtain ⟨zs, rfl, hxz⟩ := keyEq_list.1 hac
    obtain ⟨hlen, hxy⟩ := keyEqItems_iff.1 hxy
    obtain ⟨hlen', hxz⟩ := keyEqItems_iff.1 hxz
    refine keyEq_list.2 ⟨zs, rfl, keyEqItems_iff.2 ⟨hlen.symm.trans hlen', fun i hy hz ↦ ?_⟩⟩
    have hx : i < xs.length := hlen ▸ hy
    exact (hxs _ (List.getElem_mem hx)).eucl (wellKeyed_list.1 hb _ (List.getElem_mem hy))
      (wellKeyed_list.1 hc _ (List.getElem_mem hz)) (hxy i hx hy) (hxz i hx hz)

/-- In a map at most one entry has a key that is the same as one which is the same as `a`. -/
theorem IsKey.pairwise (ha : a.IsKey) (hb : b.WellKeyed) (hab : a.keyEq b = true) (hes : (map es).WellKeyed) :
    es.Pairwise fun e f ↦ ¬ (b.keyEq e.1 = true ∧ b.keyEq f.1 = true) := by
  obtain ⟨hdistinct, hes⟩ := wellKeyed_map.1 hes
  refine hdistinct.imp_of_mem fun he hf hne hboth ↦ hne ?_
  have hae := ha.trans hb (hes _ he).1 hab hboth.1
  have haf := ha.trans hb (hes _ hf).1 hab hboth.2
  exact ha.eucl (hes _ he).1 (hes _ hf).1 hae haf

/-- If every entry of a map is one of a map of the same length, then each entry of the other map is one of it. -/
theorem exists_mem_of_length_eq_of_keyEqWithin (hes : ∀ e ∈ es, e.1.IsKey) (hwell : (map es).WellKeyed)
    (hfs : (map fs).WellKeyed) (hlen : es.length = fs.length) (h : keyEqWithin es fs = true) :
    ∀ f ∈ fs, ∃ e ∈ es, e.1.keyEq f.1 = true ∧ e.2.keyEq f.2 = true := by
  obtain ⟨hdistinct, hwell⟩ := wellKeyed_map.1 hwell
  refine exists_mem_of_length_eq hlen ?_ (exists_mem_of_keyEqWithin h)
  refine hdistinct.imp_of_mem fun he he' hne f hf hef hef' ↦ hne ?_
  have hwf := ((wellKeyed_map.1 hfs).2 f hf).1
  exact (hes _ he).trans hwf (hwell _ he').1 hef.1 ((hes _ he').symm hwf hef'.1)

theorem isKey_map (hes : ∀ e ∈ es, e.1.IsKey ∧ e.2.IsKey) (hwell : (map es).WellKeyed) : (map es).IsKey where
  refl := by
    refine keyEq_map.2 ⟨es, rfl, rfl, keyEqWithin_of_forall_exists (fun e he ↦ ?_) fun e he ↦ ?_⟩
    · exact (hes e he).1.pairwise ((wellKeyed_map.1 hwell).2 e he).1 (hes e he).1.refl hwell
    · exact ⟨e, he, (hes e he).1.refl, (hes e he).2.refl⟩
  symm hb hab := by
    obtain ⟨fs, rfl, hlen, hwithin⟩ := keyEq_map.1 hab
    have hfs := (wellKeyed_map.1 hb).2
    have hback := exists_mem_of_length_eq_of_keyEqWithin (fun e he ↦ (hes e he).1) hwell hb hlen hwithin
    refine keyEq_map.2 ⟨es, rfl, hlen.symm, keyEqWithin_of_forall_exists (fun f hf ↦ ?_) fun f hf ↦ ?_⟩
    · obtain ⟨e, he, hkey, -⟩ := hback f hf
      exact (hes e he).1.pairwise (hfs f hf).1 hkey hwell
    · obtain ⟨e, he, hkey, hvalue⟩ := hback f hf
      exact ⟨e, he, (hes e he).1.symm (hfs f hf).1 hkey, (hes e he).2.symm (hfs f hf).2 hvalue⟩
  trans hb hc hab hbc := by
    obtain ⟨fs, rfl, hlen, hwithin⟩ := keyEq_map.1 hab
    obtain ⟨gs, rfl, hlen', hwithin'⟩ := keyEq_map.1 hbc
    have hfs := (wellKeyed_map.1 hb).2
    have hgs := (wellKeyed_map.1 hc).2
    refine keyEq_map.2
      ⟨gs, rfl, hlen.trans hlen', keyEqWithin_of_forall_exists (fun e he ↦ ?_) fun e he ↦ ?_⟩
    · exact (hes e he).1.pairwise ((wellKeyed_map.1 hwell).2 e he).1 (hes e he).1.refl hc
    · obtain ⟨f, hf, hkey, hvalue⟩ := exists_mem_of_keyEqWithin hwithin e he
      obtain ⟨g, hg, hkey', hvalue'⟩ := exists_mem_of_keyEqWithin hwithin' f hf
      exact ⟨g, hg, (hes e he).1.trans (hfs f hf).1 (hgs g hg).1 hkey hkey',
        (hes e he).2.trans (hfs f hf).2 (hgs g hg).2 hvalue hvalue'⟩
  eucl hb hc hab hac := by
    obtain ⟨fs, rfl, hlen, hwithin⟩ := keyEq_map.1 hab
    obtain ⟨gs, rfl, hlen', hwithin'⟩ := keyEq_map.1 hac
    have hfs := (wellKeyed_map.1 hb).2
    have hgs := (wellKeyed_map.1 hc).2
    have hback := exists_mem_of_length_eq_of_keyEqWithin (fun e he ↦ (hes e he).1) hwell hb hlen hwithin
    refine keyEq_map.2
      ⟨gs, rfl, hlen.symm.trans hlen', keyEqWithin_of_forall_exists (fun f hf ↦ ?_) fun f hf ↦ ?_⟩
    · obtain ⟨e, he, hkey, -⟩ := hback f hf
      exact (hes e he).1.pairwise (hfs f hf).1 hkey hc
    · obtain ⟨e, he, hkey, hvalue⟩ := hback f hf
      obtain ⟨g, hg, hkey', hvalue'⟩ := exists_mem_of_keyEqWithin hwithin' e he
      exact ⟨g, hg, (hes e he).1.eucl (hfs f hf).1 (hgs g hg).1 hkey hkey',
        (hes e he).2.eucl (hfs f hf).2 (hgs g hg).2 hvalue hvalue'⟩

mutual

theorem WellKeyed.isKey : (a : Value) → a.WellKeyed → a.IsKey
  | .list xs, h => isKey_list (isKey_of_wellKeyedItems xs (by rwa [WellKeyed] at h))
  | .map es, h => isKey_map (isKey_of_wellKeyedEntries es (by rw [WellKeyed] at h; exact h.2)) h
  | .nil, _ | .bool _, _ | .str _, _ | .ns _, _ | .closure _, _ | .builtin _, _ | .constantly _, _
  | .external _, _ | .exception _, _ | .num (.int _), _ | .num (.rat _), _ | .num (.float _), _ => isKey_of_atom rfl

theorem isKey_of_wellKeyedItems : (xs : List Value) → WellKeyedItems xs → ∀ x ∈ xs, x.IsKey
  | [], _ => List.forall_mem_nil _
  | x :: xs, h => by
    rw [WellKeyedItems] at h
    exact List.forall_mem_cons.2 ⟨WellKeyed.isKey x h.1, isKey_of_wellKeyedItems xs h.2⟩

theorem isKey_of_wellKeyedEntries :
    (es : List (Value × Value)) → WellKeyedEntries es → ∀ e ∈ es, e.1.IsKey ∧ e.2.IsKey
  | [], _ => List.forall_mem_nil _
  | (k, v) :: es, h => by
    rw [WellKeyedEntries] at h
    exact List.forall_mem_cons.2
      ⟨⟨WellKeyed.isKey k h.1, WellKeyed.isKey v h.2.1⟩, isKey_of_wellKeyedEntries es h.2.2⟩

end

/-! ## The equivalence -/

namespace WellKeyed

theorem keyEq_refl (ha : a.WellKeyed) : a.keyEq a = true :=
  (isKey a ha).refl

theorem keyEq_symm (ha : a.WellKeyed) (hb : b.WellKeyed) (h : a.keyEq b = true) : b.keyEq a = true :=
  (isKey a ha).symm hb h

theorem keyEq_trans (ha : a.WellKeyed) (hb : b.WellKeyed) (hc : c.WellKeyed) (h : a.keyEq b = true)
    (h' : b.keyEq c = true) : a.keyEq c = true :=
  (isKey a ha).trans hb hc h h'

/-- A key may be replaced by an equal one in front. -/
theorem keyEq_congr_left (ha : a.WellKeyed) (hb : b.WellKeyed) (hc : c.WellKeyed) (h : a.keyEq b = true) :
    a.keyEq c = b.keyEq c :=
  Bool.eq_iff_iff.2 ⟨(isKey a ha).eucl hb hc h, ha.keyEq_trans hb hc h⟩

/-- A key may be replaced by an equal one behind. -/
theorem keyEq_congr_right (ha : a.WellKeyed) (hb : b.WellKeyed) (hc : c.WellKeyed) (h : a.keyEq b = true) :
    c.keyEq a = c.keyEq b :=
  Bool.eq_iff_iff.2 ⟨fun hca ↦ hc.keyEq_trans ha hb hca h, fun hcb ↦ hc.keyEq_trans hb ha hcb (ha.keyEq_symm hb h)⟩

end WellKeyed

end Value

end ValueShell
