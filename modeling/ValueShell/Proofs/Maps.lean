import Mathlib.Data.List.Find
import Mathlib.Data.List.Induction
import ValueShell.Proofs.Keys

/-!
# Maps

A map is made from pairs, and after that it is changed by one entry at a time: an element is assigned, or removed.
Written down in their order, these changes say all there is to know about it (`Value.MadeBy`):

* no key is in it twice, so all of `Value.keyEq` keeps making sense of it;
* its keys stand in the order in which they first came, counted from when they were last removed;
* a key leads to the value last put under any key equal to it.

`Value.keys_sound` says so, together with the fact it rests on, that the equality of keys is an equivalence.  A step
of the induction is one of `Entries.get?_insert`, `Entries.get?_erase` and their companions for the keys.
-/

set_option autoImplicit false

namespace ValueShell

/-! ## First occurrences -/

section

variable {α : Type} {r : α → α → Bool} {p : α → Bool}

theorem eraseDupsBy_loop_concat {l bs : List α} {a : α} :
    List.eraseDupsBy.loop r (l ++ [a]) bs =
      if (List.eraseDupsBy.loop r l bs).any (r a) then List.eraseDupsBy.loop r l bs
      else List.eraseDupsBy.loop r l bs ++ [a] := by
  induction l generalizing bs with
  | nil => cases h : bs.any (r a) <;> simp [List.eraseDupsBy.loop, h]
  | cons b l ih => cases h : bs.any (r b) <;> simp only [List.cons_append, List.eraseDupsBy.loop, h, ih]

/-- What comes last is kept if nothing in front is like it. -/
theorem eraseDupsBy_concat {l : List α} {a : α} :
    (l ++ [a]).eraseDupsBy r =
      if (l.eraseDupsBy r).any (r a) then l.eraseDupsBy r else l.eraseDupsBy r ++ [a] :=
  eraseDupsBy_loop_concat

theorem eraseDupsBy_loop_filter {S : α → Prop} (h : ∀ a b, S a → S b → r a b = true → p a = true → p b = true)
    {l bs : List α} (hl : ∀ a ∈ l, S a) (hbs : ∀ b ∈ bs, S b) :
    List.eraseDupsBy.loop r (l.filter p) (bs.filter p) = (List.eraseDupsBy.loop r l bs).filter p := by
  induction l generalizing bs with
  | nil => simp [List.eraseDupsBy.loop]
  | cons a l ih =>
    obtain ⟨ha, hl⟩ := List.forall_mem_cons.1 hl
    have hkept := ih hl hbs
    have hadded := ih hl (List.forall_mem_cons.2 ⟨ha, hbs⟩)
    cases hp : p a with
    | false =>
      rw [List.filter_cons_of_neg (by simp [hp])] at hadded ⊢
      rw [List.eraseDupsBy.loop]
      cases bs.any (r a) with
      | true => exact hkept
      | false => exact hadded
    | true =>
      have hany : (bs.filter p).any (r a) = bs.any (r a) := by
        rw [Bool.eq_iff_iff]
        simp only [List.any_eq_true, List.mem_filter]
        exact ⟨fun ⟨b, hb, hab⟩ ↦ ⟨b, hb.1, hab⟩, fun ⟨b, hb, hab⟩ ↦ ⟨b, ⟨hb, h a b ha (hbs b hb) hab hp⟩, hab⟩⟩
      rw [List.filter_cons_of_pos hp] at hadded ⊢
      rw [List.eraseDupsBy.loop, List.eraseDupsBy.loop, hany]
      cases bs.any (r a) with
      | true => exact hkept
      | false => exact hadded

/-- Elements that go together with those like them may be removed before or after. -/
theorem eraseDupsBy_filter {S : α → Prop} (h : ∀ a b, S a → S b → r a b = true → p a = true → p b = true)
    {l : List α} (hl : ∀ a ∈ l, S a) : (l.filter p).eraseDupsBy r = (l.eraseDupsBy r).filter p :=
  eraseDupsBy_loop_filter h hl (List.forall_mem_nil S)

end

namespace Entries

/-! ## A history of changes -/

/-- A change of a map. -/
inductive Change where
  | put (key v : Value)
  | remove (key : Value)

namespace Change

/-- The key the change is about. -/
def key : Change → Value
  | put key _ | remove key => key

/-- The value the change leaves under its key. -/
def value? : Change → Option Value
  | put _ v => some v
  | remove _ => none

/-- Does the change remove a key? -/
def removes (k : Value) : Change → Bool
  | put .. => false
  | remove key => key.keyEq k

/-- The entries after the change. -/
def apply (entries : Entries) : Change → Entries
  | put key v => entries.insert key v
  | remove key => entries.erase key

/-- No map in the key or the value has a key twice. -/
def WellKeyed (c : Change) : Prop :=
  c.key.WellKeyed ∧ ∀ v ∈ c.value?, v.WellKeyed

end Change

/-- The entries after changes from the empty map on. -/
def replay (changes : List Change) : Entries :=
  changes.foldl Change.apply []

/-- The keys that are put, in the order in which that happens, without those that are removed later. -/
def remaining : List Change → List Value
  | [] => []
  | .put key _ :: changes => if changes.any (Change.removes key) then remaining changes else key :: remaining changes
  | .remove _ :: changes => remaining changes

/-- The value that the last change of a key leaves there. -/
def lastValue? (changes : List Change) (key : Value) : Option Value :=
  (changes.filter fun c ↦ key.keyEq c.key).getLast?.bind Change.value?

variable {es : Entries} {key other v : Value}

/-! ## Reading after one change -/

/-- The keys in their order. -/
def keys (entries : Entries) : List Value :=
  entries.map (·.1)

theorem distinct_iff : es.Distinct ↔ es.keys.Pairwise fun k l ↦ ¬ k.keyEq l = true := by
  rw [Distinct, keys, List.pairwise_map]

theorem get?_cons {k w : Value} : get? ((k, w) :: es) key = if key.keyEq k then some w else get? es key := by
  cases h : key.keyEq k <;> simp [get?, h]

theorem get?_eq_none_iff : es.get? key = none ↔ ∀ k ∈ es.keys, ¬ key.keyEq k = true := by
  simp [get?, keys]

theorem keys_insert :
    (es.insert key v).keys = if es.keys.any key.keyEq then es.keys else es.keys ++ [key] := by
  induction es with
  | nil => rfl
  | cons e es ih =>
    obtain ⟨k, w⟩ := e
    have hcons : ∀ (u : Value) (fs : Entries), keys ((k, u) :: fs) = k :: keys fs := fun _ _ ↦ rfl
    rw [insert, hcons, List.any_cons]
    cases hk : key.keyEq k with
    | true => rfl
    | false =>
      rw [if_neg Bool.false_ne_true, hcons, ih, Bool.false_or]
      split <;> rfl

theorem erase_eq_filter (hkey : key.WellKeyed) (hes : (Value.map es).WellKeyed) :
    es.erase key = es.filter fun e ↦ !key.keyEq e.1 := by
  induction es with
  | nil => rfl
  | cons e es ih =>
    obtain ⟨k, w⟩ := e
    obtain ⟨hdistinct, hwell⟩ := Value.wellKeyed_map.1 hes
    obtain ⟨hk, hdistinct⟩ := List.pairwise_cons.1 hdistinct
    obtain ⟨hwk, hwell⟩ := List.forall_mem_cons.1 hwell
    rw [erase]
    cases hkk : key.keyEq k with
    | true =>
      -- Nothing behind the entry has the key too, so the filter keeps all of it.
      rw [if_pos rfl, List.filter_cons_of_neg (by simp [hkk]), List.filter_eq_self.2]
      intro f hf
      rw [hkey.keyEq_congr_left hwk.1 (hwell f hf).1 hkk, Bool.not_eq_true', ← Bool.not_eq_true]
      exact hk f hf
    | false =>
      rw [if_neg Bool.false_ne_true, List.filter_cons_of_pos (by simp [hkk]),
        ih (Value.wellKeyed_map.2 ⟨hdistinct, hwell⟩)]

theorem keys_erase (hkey : key.WellKeyed) (hes : (Value.map es).WellKeyed) :
    (es.erase key).keys = es.keys.filter fun k ↦ !key.keyEq k := by
  rw [erase_eq_filter hkey hes, keys, keys, List.filter_map]
  rfl

theorem get?_insert (hkey : key.WellKeyed) (hother : other.WellKeyed) (hes : ∀ e ∈ es, e.1.WellKeyed) :
    (es.insert key v).get? other = if other.keyEq key then some v else es.get? other := by
  induction es with
  | nil => exact get?_cons
  | cons e es ih =>
    obtain ⟨k, w⟩ := e
    obtain ⟨hk, hes⟩ := List.forall_mem_cons.1 hes
    rw [insert]
    cases hkk : key.keyEq k with
    | true =>
      have hok : other.keyEq key = other.keyEq k := hkey.keyEq_congr_right hk hother hkk
      cases ho : other.keyEq k <;> simp [get?_cons, hok, ho]
    | false =>
      rw [if_neg Bool.false_ne_true, get?_cons, ih hes, get?_cons]
      cases ho : other.keyEq key with
      | true =>
        have hok : other.keyEq k = key.keyEq k := hother.keyEq_congr_left hkey hk ho
        simp [hok, hkk]
      | false => simp

theorem get?_erase (hkey : key.WellKeyed) (hother : other.WellKeyed) (hes : (Value.map es).WellKeyed) :
    (es.erase key).get? other = if other.keyEq key then none else es.get? other := by
  have hwell := (Value.wellKeyed_map.1 hes).2
  rw [erase_eq_filter hkey hes]
  cases ho : other.keyEq key with
  | true =>
    rw [if_pos rfl, get?_eq_none_iff]
    intro k hk
    obtain ⟨e, he, rfl⟩ := List.mem_map.1 hk
    rw [List.mem_filter] at he
    rw [hother.keyEq_congr_left hkey (hwell e he.1).1 ho]
    simpa using he.2
  | false =>
    rw [if_neg Bool.false_ne_true, get?, get?, List.find?_filter]
    refine congrArg _ (List.find?_congr fun e he ↦ ?_)
    have hk := (hwell e he).1
    have hkept : other.keyEq e.1 = true → key.keyEq e.1 = false := by
      intro hoe
      rw [← Bool.not_eq_true]
      intro hke
      exact Bool.false_ne_true (ho ▸ hother.keyEq_trans hk hkey hoe (hkey.keyEq_symm hk hke))
    cases hoe : other.keyEq e.1 with
    | false => simp [hoe]
    | true => simp [hoe, hkept hoe]

/-! ## What one change keeps -/

theorem forall_mem_insert (hkey : key.WellKeyed) (hv : v.WellKeyed)
    (hes : ∀ e ∈ es, e.1.WellKeyed ∧ e.2.WellKeyed) :
    ∀ e ∈ es.insert key v, e.1.WellKeyed ∧ e.2.WellKeyed := by
  induction es with
  | nil => exact List.forall_mem_singleton.2 ⟨hkey, hv⟩
  | cons e es ih =>
    obtain ⟨k, w⟩ := e
    obtain ⟨hk, hes⟩ := List.forall_mem_cons.1 hes
    rw [insert]
    split
    · exact List.forall_mem_cons.2 ⟨⟨hk.1, hv⟩, hes⟩
    · exact List.forall_mem_cons.2 ⟨hk, ih hes⟩

theorem wellKeyed_insert (hkey : key.WellKeyed) (hv : v.WellKeyed) (hes : (Value.map es).WellKeyed) :
    (Value.map (es.insert key v)).WellKeyed := by
  obtain ⟨hdistinct, hwell⟩ := Value.wellKeyed_map.1 hes
  refine Value.wellKeyed_map.2 ⟨?_, forall_mem_insert hkey hv hwell⟩
  rw [distinct_iff] at hdistinct ⊢
  rw [keys_insert]
  split
  · exact hdistinct
  · rename_i hany
    refine List.pairwise_append.2 ⟨hdistinct, List.pairwise_singleton _ _, fun k hk l hl hkl ↦ hany ?_⟩
    obtain ⟨e, he, rfl⟩ := List.mem_map.1 hk
    rw [List.mem_singleton.1 hl] at hkl
    exact List.any_eq_true.2 ⟨e.1, hk, (hwell e he).1.keyEq_symm hkey hkl⟩

theorem wellKeyed_erase (hkey : key.WellKeyed) (hes : (Value.map es).WellKeyed) :
    (Value.map (es.erase key)).WellKeyed := by
  obtain ⟨hdistinct, hwell⟩ := Value.wellKeyed_map.1 hes
  rw [erase_eq_filter hkey hes]
  exact Value.wellKeyed_map.2 ⟨hdistinct.filter _, fun e he ↦ hwell e (List.mem_filter.1 he).1⟩

/-! ## The entries after a history -/

variable {changes : List Change} {c : Change}

theorem replay_concat : replay (changes ++ [c]) = c.apply (replay changes) :=
  List.foldl_concat ..

theorem remaining_concat_put : remaining (changes ++ [.put key v]) = remaining changes ++ [key] := by
  induction changes with
  | nil => rfl
  | cons c changes ih =>
    cases c with
    | put k w =>
      have hany : (changes ++ [Change.put key v]).any (Change.removes k) = changes.any (Change.removes k) := by
        simp [Change.removes]
      rw [List.cons_append, remaining, remaining, hany, ih]
      split <;> rfl
    | remove k => exact ih

theorem remaining_concat_remove :
    remaining (changes ++ [.remove key]) = (remaining changes).filter fun k ↦ !key.keyEq k := by
  induction changes with
  | nil => rfl
  | cons c changes ih =>
    cases c with
    | put k w =>
      rw [List.cons_append, remaining, remaining, List.any_append, ih]
      cases changes.any (Change.removes k) with
      | true => rfl
      | false => cases hk : key.keyEq k <;> simp [Change.removes, hk]
    | remove k => exact ih

theorem lastValue?_concat :
    lastValue? (changes ++ [c]) key = if key.keyEq c.key then c.value? else lastValue? changes key := by
  rw [lastValue?, List.filter_append]
  cases h : key.keyEq c.key <;> simp [lastValue?, h]

theorem forall_mem_remaining {P : Value → Prop} (h : ∀ c ∈ changes, P c.key) : ∀ k ∈ remaining changes, P k := by
  induction changes with
  | nil => exact List.forall_mem_nil P
  | cons c changes ih =>
    obtain ⟨hc, hchanges⟩ := List.forall_mem_cons.1 h
    cases c with
    | put key v =>
      rw [remaining]
      split
      · exact ih hchanges
      · exact List.forall_mem_cons.2 ⟨hc, ih hchanges⟩
    | remove key => exact ih hchanges

/-- What a history says of the entries it leads to. -/
structure Follows (entries : Entries) (changes : List Change) : Prop where
  wellKeyed : (Value.map entries).WellKeyed
  keys : entries.keys = (remaining changes).eraseDupsBy Value.keyEq
  get? : ∀ key : Value, key.WellKeyed → entries.get? key = lastValue? changes key

theorem Follows.step (h : es.Follows changes) (hchanges : ∀ c ∈ changes, c.WellKeyed) (hc : c.WellKeyed) :
    (c.apply es).Follows (changes ++ [c]) := by
  have hwell := (Value.wellKeyed_map.1 h.wellKeyed).2
  cases c with
  | put key v =>
    have hkey : key.WellKeyed := hc.1
    refine ⟨wellKeyed_insert hkey (hc.2 v rfl) h.wellKeyed, ?_, fun other hother ↦ ?_⟩
    · rw [Change.apply, keys_insert, h.keys, remaining_concat_put, eraseDupsBy_concat]
    · rw [Change.apply, get?_insert hkey hother fun e he ↦ (hwell e he).1, h.get? other hother, lastValue?_concat]
      rfl
  | remove key =>
    have hkey : key.WellKeyed := hc.1
    refine ⟨wellKeyed_erase hkey h.wellKeyed, ?_, fun other hother ↦ ?_⟩
    · rw [Change.apply, keys_erase hkey h.wellKeyed, h.keys, remaining_concat_remove,
        eraseDupsBy_filter (S := Value.WellKeyed)]
      · intro a b ha hb hab hka
        rw [Bool.not_eq_true', ← Bool.not_eq_true] at hka ⊢
        exact fun hkb ↦ hka (hkey.keyEq_trans hb ha hkb (ha.keyEq_symm hb hab))
      · exact forall_mem_remaining fun c hc ↦ (hchanges c hc).1
    · rw [Change.apply, get?_erase hkey hother h.wellKeyed, h.get? other hother, lastValue?_concat]
      rfl

/-- **A map is what its history says.** -/
theorem follows_replay (h : ∀ c ∈ changes, c.WellKeyed) : (replay changes).Follows changes := by
  induction changes using List.reverseRecOn with
  | nil => exact ⟨by simp [replay, Value.wellKeyed_map, Distinct], rfl, fun _ _ ↦ rfl⟩
  | append_singleton changes c ih =>
    rw [replay_concat]
    have hchanges : ∀ c ∈ changes, c.WellKeyed := fun c' hc' ↦ h c' (List.mem_append_left _ hc')
    exact (ih hchanges).step hchanges (h c (by simp))

end Entries

/-! ## Maps -/

namespace Value

/-- How a map has been made: from pairs, and then by assigning and removing elements. -/
inductive MadeBy : Value → List Entries.Change → Prop where
  | ofPairs (pairs : List (Value × Value)) :
      MadeBy (Value.ofPairs pairs) (pairs.map fun (k, v) ↦ .put k v)
  | assoc {s s' : Store} {base key v base' : Value} {changes : List Entries.Change} (h : MadeBy base changes)
      (happly : s.assoc base key v = .ok (base', s')) : MadeBy base' (changes ++ [.put key v])
  | dissoc {s s' : Store} {base key base' : Value} {changes : List Entries.Change} (h : MadeBy base changes)
      (happly : s.dissoc base key = .ok (base', s')) : MadeBy base' (changes ++ [.remove key])

theorem MadeBy.eq_replay {v : Value} {changes : List Entries.Change} (h : v.MadeBy changes) :
    v = .map (Entries.replay changes) := by
  induction h with
  | ofPairs pairs =>
    rw [Value.ofPairs, Entries.ofPairs, Entries.replay, List.foldl_map]
    rfl
  | assoc _ happly ih =>
    rw [ih, Store.assoc] at happly
    cases happly
    rw [Entries.replay_concat, Entries.Change.apply]
  | dissoc _ happly ih =>
    rw [ih, Store.dissoc] at happly
    split at happly <;> cases happly
    rw [Entries.replay_concat, Entries.Change.apply]

/-- **Keys of maps are sound.**  The equality of keys is an equivalence on values without a map that has a key
twice; and however a map has been made, it has no key twice, its keys stand in the order in which they first came,
and each key leads to the value last put under an equal one. -/
theorem keys_sound {a b c v key : Value} {changes : List Entries.Change} (ha : a.WellKeyed) (hb : b.WellKeyed)
    (hc : c.WellKeyed) (hkey : key.WellKeyed) (hv : v.MadeBy changes) (hchanges : ∀ c ∈ changes, c.WellKeyed) :
    a.keyEq a = true ∧ (a.keyEq b = true → b.keyEq a = true) ∧
      (a.keyEq b = true → b.keyEq c = true → a.keyEq c = true) ∧
      ∃ entries : Entries, v = .map entries ∧ v.WellKeyed ∧
        entries.keys = (Entries.remaining changes).eraseDupsBy keyEq ∧
        entries.get? key = Entries.lastValue? changes key := by
  have hfollows := Entries.follows_replay hchanges
  have hmap := hv.eq_replay
  exact ⟨ha.keyEq_refl, ha.keyEq_symm hb, ha.keyEq_trans hb hc, _, hmap, hmap ▸ hfollows.wellKeyed, hfollows.keys,
    hfollows.get? key hkey⟩

/-- A map whose keys were the two zeros and a text, after the text was removed: one entry is left, with the first
zero and the last value, and the other zero leads to it.  The two zeros make one key of nested maps as well. -/
theorem keys_sound_zeros :
    let plus : Value := .num (.float 0.0)
    let minus : Value := .num (.float (-0.0))
    let a : Value := .map [(plus, .nil), (.str "k", .bool true)]
    let b : Value := .map [(.str "k", .bool true), (minus, .nil)]
    let changes : List Entries.Change :=
      [.put plus (.str "1"), .put (.str "k") (.str "2"), .put minus (.str "3")] ++ [.remove (.str "k")]
    a.keyEq b = true ∧ (a.keyEq b = true → b.keyEq a = true) ∧
      ∃ entries : Entries, Value.map [(plus, .str "3")] = .map entries ∧ entries.get? minus = some (.str "3") ∧
        entries.keys = (Entries.remaining changes).eraseDupsBy keyEq := by
  intro plus minus a b changes
  have hremove : Store.empty.dissoc (ofPairs [(plus, .str "1"), (.str "k", .str "2"), (minus, .str "3")]) (.str "k") =
      .ok (.map [(plus, .str "3")], Store.empty) := rfl
  have hmade : MadeBy (.map [(plus, .str "3")]) changes := .dissoc (.ofPairs _) hremove
  have hwell : ∀ c ∈ changes, c.WellKeyed := by
    simp [changes, plus, minus, Entries.Change.WellKeyed, Entries.Change.key, Entries.Change.value?, WellKeyed]
  have ha : a.WellKeyed := wellKeyed_map.2 ⟨List.pairwise_pair.2 (by decide), by simp [plus, WellKeyed]⟩
  have hb : b.WellKeyed := wellKeyed_map.2 ⟨List.pairwise_pair.2 (by decide), by simp [minus, WellKeyed]⟩
  have hminus : minus.WellKeyed := trivial
  obtain ⟨-, hsymm, -, entries, hmap, -, hkeys, hget⟩ := keys_sound ha hb ha hminus hmade hwell
  exact ⟨by decide, hsymm, entries, hmap, hget, hkeys⟩

end Value

end ValueShell
