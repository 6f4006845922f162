import ValueShell.Proofs.Arguments
import ValueShell.Proofs.Names
import ValueShell.Proofs.Outline
import ValueShell.Proofs.Protocol

/-!
# Watching namespaces

What scripts can do to a namespace depends on how they can get at it.  One that a value refers to can be
changed by whoever has the value.  One that is only the namespace of running frames changes by what the code of
those frames declares and removes, and by nothing else.

A `Watch` makes that a protocol.  What is known (`Watch.State`) is the world and a set of namespaces that are
*seen*: every namespace that anything kept in the world refers to is seen, and a namespace that was there and
not seen stays so.  Seen namespaces may change in any way.  For the others the protocol promises two things:

* a namespace that is `frozen` keeps its bindings;
* the names that are `guarded` do not get lost from a namespace that is not seen, so a frame that runs in one
  still finds them later.

Part of the second is that closures are `Sound`: whatever guarded name the code of a closure refers to, from a
form in a source that is `watched`, is there when it is called.
-/

set_option autoImplicit false

namespace ValueShell

/-- What is watched. -/
structure Watch where
  /-- The code whose references are watched -/
  watched : Source → Prop
  /-- The names that must not get lost -/
  guarded : String → Prop
  plain : ∀ {name : String}, guarded name → Name.isQualified name = false
  /-- The namespaces that keep their bindings -/
  frozen : NsId → Prop

namespace Watch

variable {W : Watch}

/-! ## What is known -/

/-- The closure refers only to namespaces that are seen, and if there is watched code in it, it has every
guarded name around it that the code refers to. -/
structure Sound (W : Watch) (seen : NsId → Prop) (w : World) (c : Closure) : Prop where
  options : Options.Within seen c.signature.options
  body : (∃ site ∈ c.body.outline.sites, W.watched site.source) →
    ∃ visible : List String,
      (∀ x ∈ visible, W.guarded x →
        ∃ bs ∈ c.captured ++ [w.store.bindings w.builtin], x ∈ bs.names) ∧
      c.body.outline.Clear W.guarded (visible ++ c.signature.names)

theorem Sound.mono {c : Closure} {w w' : World} {seen seen' : NsId → Prop}
    (h : W.Sound seen w c) (hseen : ∀ ns, seen ns → seen' ns)
    (hb : ∀ x, W.guarded x → x ∈ (w.store.bindings w.builtin).names →
      x ∈ (w'.store.bindings w'.builtin).names) : W.Sound seen' w' c where
  options o ho := (h.options o ho).mono hseen
  body hw := by
    obtain ⟨visible, hv, hc⟩ := h.body hw
    refine ⟨visible, fun x hx hg ↦ ?_, hc⟩
    obtain ⟨bs, hbs, hxb⟩ := hv x hx hg
    rcases List.mem_append.1 hbs with hbs | hbs
    · exact ⟨bs, List.mem_append_left _ hbs, hxb⟩
    · rw [List.mem_singleton.1 hbs] at hxb
      exact ⟨_, List.mem_append_right _ (List.mem_singleton_self _), hb x hg hxb⟩

/-- The namespaces that are seen are at least those that something in the world refers to. -/
structure Good (W : Watch) (seen : NsId → Prop) (w : World) : Prop where
  cells : ∀ c, (w.store.read c).Within seen
  closures : ∀ id c, w.store.closure? id = some c → W.Sound seen w c
  waiting : ∀ v ∈ w.streams.waiting, v.Within seen
  native : ∀ m ∈ w.native, seen m.2
  loads : ∀ ns ∈ w.loads.spaces, seen ns
  frozen : ∀ ns, W.frozen ns → ns.index < w.store.spaces.size ∧ ¬ seen ns
  builtin : ∀ x, W.guarded x → w.builtin.index < w.store.spaces.size ∧ ¬ seen w.builtin
  bound : ∀ source, W.watched source → ∀ ns, seen ns → ns.index < w.store.spaces.size
  sources : ∀ source, W.watched source → source.id < w.nextSource

/-- A watch can begin with the namespaces that are mentioned, when there is no watched code yet. -/
theorem good_of_mentioned {w : World} {seen : NsId → Prop} (hseen : ∀ ns ∈ w.mentioned, seen ns)
    (hcode : ∀ c ∈ w.store.closures, ∀ site ∈ c.body.outline.sites, ¬ W.watched site.source)
    (hfrozen : ∀ ns, W.frozen ns → ns.index < w.store.spaces.size ∧ ¬ seen ns)
    (hbuiltin : ∀ x, W.guarded x → w.builtin.index < w.store.spaces.size ∧ ¬ seen w.builtin)
    (hbound : ∀ source, W.watched source → ∀ ns, seen ns → ns.index < w.store.spaces.size)
    (hsources : ∀ source, W.watched source → source.id < w.nextSource) : W.Good seen w where
  cells := World.read_within hseen
  closures id c hc :=
    have hmem := Array.mem_of_getElem? hc
    ⟨World.options_within hseen hmem, fun ⟨site, hsite, hw⟩ ↦ absurd hw (hcode c hmem site hsite)⟩
  waiting := World.waiting_within hseen
  native m hm := hseen _ (by
    simp only [World.mentioned, List.mem_append]
    exact .inl (.inl (.inr (List.mem_map_of_mem hm))))
  loads ns hns := hseen _ (by
    simp only [World.mentioned, List.mem_append]
    exact .inl (.inr hns))
  frozen := hfrozen
  builtin := hbuiltin
  bound := hbound
  sources := hsources

/-- A world with the namespaces that are seen. -/
structure State (W : Watch) where
  world : World
  seen : NsId → Prop
  good : W.Good seen world

namespace State

/-- The namespace is there and not seen. -/
def Own (s : W.State) (ns : NsId) : Prop :=
  ¬ s.seen ns ∧ ns.index < s.world.store.spaces.size

/-- The names in a namespace. -/
def names (s : W.State) (ns : NsId) : List String :=
  (s.world.store.bindings ns).names

/-- How what is known may develop. -/
structure Evolves (s s' : W.State) : Prop where
  seen : ∀ ns, s.seen ns → s'.seen ns
  fresh : ∀ ns, s'.seen ns → s.seen ns ∨ s.world.store.spaces.size ≤ ns.index
  size : s.world.store.spaces.size ≤ s'.world.store.spaces.size
  names : ∀ ns x, s.Own ns → W.guarded x → x ∈ s.names ns → x ∈ s'.names ns
  frozen : ∀ ns, W.frozen ns → s'.world.store.bindings ns = s.world.store.bindings ns
  builtin : s'.world.builtin = s.world.builtin

theorem Own.evolves {s s' : W.State} {ns : NsId} (h : s.Own ns) (hs : Evolves s s') : s'.Own ns := by
  refine ⟨fun hn ↦ ?_, Nat.lt_of_lt_of_le h.2 hs.size⟩
  rcases hs.fresh ns hn with hn | hn
  · exact h.1 hn
  · exact absurd h.2 (Nat.not_lt.2 hn)

theorem Evolves.refl (s : W.State) : Evolves s s :=
  ⟨fun _ h ↦ h, fun _ h ↦ .inl h, Nat.le_refl _, fun _ _ _ _ h ↦ h, fun _ _ ↦ rfl, rfl⟩

theorem Evolves.trans {s₁ s₂ s₃ : W.State} (h : Evolves s₁ s₂) (h' : Evolves s₂ s₃) :
    Evolves s₁ s₃ where
  seen ns hn := h'.seen ns (h.seen ns hn)
  fresh ns hn := (h'.fresh ns hn).elim (h.fresh ns) fun hle ↦ .inr (Nat.le_trans h.size hle)
  size := Nat.le_trans h.size h'.size
  names ns x ho hg hx := h'.names ns x (ho.evolves h) hg (h.names ns x ho hg hx)
  frozen ns hn := (h'.frozen ns hn).trans (h.frozen ns hn)
  builtin := h'.builtin.trans h.builtin

instance : Preorder W.State where
  le := Evolves
  le_refl := Evolves.refl
  le_trans _ _ _ := Evolves.trans

variable {s s' : W.State} {ns : NsId} {v : Value} {e : Failure} {x : String}

theorem Own.mono (h : s.Own ns) (hs : s ≤ s') : s'.Own ns :=
  h.evolves hs

theorem within_mono (hs : s ≤ s') (h : v.Within s.seen) : v.Within s'.seen :=
  h.mono hs.seen

theorem options_mono {opts : Options} (hs : s ≤ s') (h : opts.Within s.seen) :
    opts.Within s'.seen :=
  fun o ho ↦ within_mono hs (h o ho)

theorem values_mono {vs : List Value} (hs : s ≤ s') (h : ∀ v ∈ vs, v.Within s.seen) :
    ∀ v ∈ vs, v.Within s'.seen :=
  fun v hv ↦ within_mono hs (h v hv)

/-- The builtin namespace belongs to nobody if anything is guarded. -/
theorem own_builtin (hg : W.guarded x) : s.Own s.world.builtin :=
  ⟨(s.good.builtin x hg).2, (s.good.builtin x hg).1⟩

theorem thawed (h : s.seen ns) : ¬ W.frozen ns :=
  fun hf ↦ (s.good.frozen ns hf).2 h

/-! ## Changes of the world

Everything that acts do to the world is one of two kinds: it leaves the store alone, or it changes nothing but
the store. -/

/-- Something happens beside the store. -/
theorem around (s : W.State) (w : World) (hstore : w.store = s.world.store)
    (hbuiltin : w.builtin = s.world.builtin) (hnative : w.native = s.world.native)
    (hloads : ∀ ns ∈ w.loads.spaces, s.seen ns)
    (hwaiting : ∀ v ∈ w.streams.waiting, v.Within s.seen)
    (hsources : s.world.nextSource ≤ w.nextSource) :
    ∃ s' : W.State, s ≤ s' ∧ s'.world = w ∧ s'.seen = s.seen := by
  have hg := s.good
  refine ⟨⟨w, s.seen, ?_⟩, ⟨fun _ h ↦ h, fun _ h ↦ .inl h, ?_, fun ns x _ _ hx ↦ ?_, fun ns _ ↦ ?_,
    hbuiltin⟩, rfl, rfl⟩
  · refine ⟨?_, ?_, hwaiting, hnative ▸ hg.native, hloads, ?_, ?_, ?_, fun source hw ↦ ?_⟩
    · rw [hstore]
      exact hg.cells
    · intro id c hc
      rw [hstore] at hc
      exact Sound.mono (hg.closures id c hc) (fun _ h ↦ h) fun x _ hx ↦ by rwa [hstore, hbuiltin]
    · rw [hstore]
      exact hg.frozen
    · rw [hstore, hbuiltin]
      exact hg.builtin
    · rw [hstore]
      exact hg.bound
    · exact Nat.lt_of_lt_of_le (hg.sources source hw) hsources
  · exact Nat.le_of_eq (by rw [hstore])
  · simpa only [names, hstore] using hx
  · exact congrArg (Store.bindings · ns) hstore

/-- The store changes.  New namespaces may be seen from the start. -/
theorem restock (s : W.State) (st : Store) (seen : NsId → Prop) (hseen : ∀ ns, s.seen ns → seen ns)
    (hfresh : ∀ ns, seen ns → s.seen ns ∨
      s.world.store.spaces.size ≤ ns.index ∧ ns.index < st.spaces.size)
    (hsize : s.world.store.spaces.size ≤ st.spaces.size)
    (hnames : ∀ ns x, s.Own ns → W.guarded x → x ∈ s.names ns → x ∈ (st.bindings ns).names)
    (hfrozen : ∀ ns, W.frozen ns → st.bindings ns = s.world.store.bindings ns)
    (hcells : ∀ c, (st.read c).Within seen)
    (hclosures : ∀ id c, st.closure? id = some c → s.world.store.closure? id = some c ∨
      W.Sound seen { s.world with store := st } c) :
    ∃ s' : W.State, s ≤ s' ∧ s'.world = { s.world with store := st } ∧ s'.seen = seen := by
  have hg := s.good
  refine ⟨⟨{ s.world with store := st }, seen, ?_⟩,
    ⟨hseen, fun ns h ↦ (hfresh ns h).imp_right And.left, hsize, hnames, hfrozen, rfl⟩, rfl, rfl⟩
  refine ⟨hcells, fun id c hc ↦ ?_, fun v hv ↦ (hg.waiting v hv).mono hseen,
    fun m hm ↦ hseen _ (hg.native m hm), fun ns hn ↦ hseen _ (hg.loads ns hn), fun ns hn ↦ ?_,
    fun x hx ↦ ?_, fun source hw ns h ↦ ?_, hg.sources⟩
  · rcases hclosures id c hc with hc | hc
    · exact Sound.mono (hg.closures id c hc) hseen fun x hgx hx ↦
        hnames _ x (own_builtin hgx) hgx hx
    · exact hc
  · obtain ⟨hlt, hns⟩ := hg.frozen ns hn
    refine ⟨Nat.lt_of_lt_of_le hlt hsize, fun h ↦ ?_⟩
    rcases hfresh ns h with h | ⟨h, -⟩
    · exact hns h
    · exact absurd hlt (Nat.not_lt.2 h)
  · obtain ⟨hlt, hns⟩ := hg.builtin x hx
    refine ⟨Nat.lt_of_lt_of_le hlt hsize, fun h ↦ ?_⟩
    rcases hfresh _ h with h | ⟨h, -⟩
    · exact hns h
    · exact absurd hlt (Nat.not_lt.2 h)
  · rcases hfresh ns h with h | ⟨-, h⟩
    · exact Nat.lt_of_lt_of_le (hg.bound source hw ns h) hsize
    · exact h

/-! ## Changes of the store -/

/-- The world with the store changed. -/
def withStore (s : W.State) (st : Store) : World :=
  { s.world with store := st }

theorem write (s : W.State) (c : CellId) (hv : v.Within s.seen) :
    ∃ s' : W.State, s ≤ s' ∧ s'.world = s.withStore (s.world.store.write c v) ∧ s'.seen = s.seen := by
  refine s.restock _ s.seen (fun _ h ↦ h) (fun _ h ↦ .inl h) (Nat.le_refl _)
    (fun _ _ _ _ h ↦ h) (fun _ _ ↦ rfl) (fun d ↦ ?_) fun _ _ h ↦ .inl h
  rcases Store.read_write_cases with h | h
  · exact h ▸ hv
  · exact h ▸ s.good.cells d

theorem declare (s : W.State) (name : String) (hns : ¬ W.frozen ns) (hv : v.Within s.seen) :
    ∃ s' : W.State, s ≤ s' ∧ s'.world = s.withStore (s.world.store.declare ns name v).2 ∧
      s'.seen = s.seen := by
  refine s.restock _ s.seen (fun _ h ↦ h) (fun _ h ↦ .inl h) (Nat.le_of_eq (by simp))
    (fun _ _ _ _ h ↦ Store.mem_names_declare h) (fun ns' hf ↦ ?_) (fun d ↦ ?_) fun _ _ h ↦ .inl h
  · exact Store.bindings_declare_of_ne fun h ↦ hns (h ▸ hf)
  · rcases Store.read_declare_cases with h | h
    · exact h ▸ hv
    · exact h ▸ s.good.cells d

theorem remove (s : W.State) (hns : ¬ W.frozen ns) (hx : s.Own ns → ¬ W.guarded x) :
    ∃ s' : W.State, s ≤ s' ∧ s'.world = s.withStore (s.world.store.remove ns x).2 ∧
      s'.seen = s.seen := by
  refine s.restock _ s.seen (fun _ h ↦ h) (fun _ h ↦ .inl h) (Nat.le_of_eq (by simp))
    (fun ns' y hown hg h ↦ ?_) (fun ns' hf ↦ ?_) (fun d ↦ s.good.cells d) fun _ _ h ↦ .inl h
  · refine Store.mem_names_remove h ?_
    rintro rfl rfl
    exact hx hown hg
  · exact Store.bindings_remove_of_ne fun h ↦ hns (h ▸ hf)

/-- A new namespace, which is seen from the start if it is `exposed`. -/
theorem newSpace (s : W.State) (bs : Bindings) (exposed : Prop) :
    ∃ s' : W.State, s ≤ s' ∧ s'.world = s.withStore (s.world.store.newSpace bs).2 ∧
      s'.seen = fun ns ↦ s.seen ns ∨ exposed ∧ ns = (s.world.store.newSpace bs).1 := by
  refine s.restock _ _ (fun _ h ↦ .inl h) (fun ns h ↦ ?_) (Nat.le_of_lt (by simp))
    (fun ns y hown _ h ↦ ?_) (fun ns hf ↦ ?_)
    (fun d ↦ (s.good.cells d).mono fun _ h ↦ .inl h) fun _ _ h ↦ .inl h
  · rcases h with h | ⟨-, rfl⟩
    · exact .inl h
    · exact .inr ⟨Nat.le_refl _, by simp [Store.newSpace]⟩
  · rwa [Store.bindings_newSpace_of_lt bs hown.2]
  · exact Store.bindings_newSpace_of_lt bs (s.good.frozen ns hf).1

theorem declareAll (s : W.State) {pairs : List (String × Value)} (hns : ¬ W.frozen ns)
    (hp : Options.Within s.seen pairs) :
    ∃ s' : W.State, s ≤ s' ∧ s'.world = s.withStore (s.world.store.declareAll ns pairs) ∧
      s'.seen = s.seen := by
  induction pairs generalizing s with
  | nil => exact ⟨s, le_rfl, rfl, rfl⟩
  | cons p pairs ih =>
    obtain ⟨s₁, hs₁, hw₁, hseen₁⟩ := s.declare p.1 hns (hp p List.mem_cons_self)
    obtain ⟨s₂, hs₂, hw₂, hseen₂⟩ := ih s₁ fun o ho ↦ by
      rw [hseen₁]
      exact hp o (List.mem_cons_of_mem _ ho)
    refine ⟨s₂, hs₁.trans hs₂, ?_, hseen₂.trans hseen₁⟩
    rw [hw₂, withStore, hw₁]
    rfl

/-- A new namespace cannot be one of the frozen ones. -/
theorem not_frozen_new (s : W.State) (bs : Bindings) : ¬ W.frozen (s.world.store.newSpace bs).1 :=
  fun hf ↦ Nat.lt_irrefl _ (s.good.frozen _ hf).1

theorem spaceOfPairs (s : W.State) {pairs : List (String × Value)} (exposed : Prop)
    (hp : Options.Within s.seen pairs) :
    ∃ s' : W.State, s ≤ s' ∧ s'.world = s.withStore (s.world.store.spaceOfPairs pairs).2 ∧
      s'.seen = fun ns ↦ s.seen ns ∨ exposed ∧ ns = (s.world.store.spaceOfPairs pairs).1 := by
  obtain ⟨s₁, hs₁, hw₁, hseen₁⟩ := s.newSpace [] exposed
  obtain ⟨s₂, hs₂, hw₂, hseen₂⟩ :=
    s₁.declareAll (s.not_frozen_new []) (options_mono hs₁ hp)
  refine ⟨s₂, hs₁.trans hs₂, ?_, hseen₂.trans hseen₁⟩
  rw [hw₂, withStore, hw₁]
  rfl

theorem newClosure (s : W.State) {c : Closure} (hc : W.Sound s.seen s.world c) :
    ∃ s' : W.State, s ≤ s' ∧ s'.world = s.withStore (s.world.store.newClosure c).2 ∧
      s'.seen = s.seen := by
  refine s.restock _ s.seen (fun _ h ↦ h) (fun _ h ↦ .inl h) (Nat.le_refl _)
    (fun _ _ _ _ h ↦ h) (fun _ _ ↦ rfl) s.good.cells fun id c' h ↦ ?_
  rw [Store.closure?, Store.newClosure, Array.getElem?_push] at h
  split at h
  · cases h
    exact .inr (hc.mono (fun _ h ↦ h) fun _ _ h ↦ h)
  · exact .inl h

/-- The stores that can come about from the store of `s` by setting and removing elements of values. -/
def Restocked (s : W.State) (st : Store) : Prop :=
  ∃ s' : W.State, s ≤ s' ∧ s'.world = s.withStore st ∧ s'.seen = s.seen

theorem restocked_self (s : W.State) : s.Restocked s.world.store :=
  ⟨s, le_rfl, rfl, rfl⟩

theorem keptWithin_restocked (s : W.State) : Store.KeptWithin s.seen s.Restocked where
  cells st hst c := by
    obtain ⟨s', -, hw, hseen⟩ := hst
    have hc := s'.good.cells c
    rwa [hw, hseen] at hc
  write st c v hst hv := by
    obtain ⟨s', hs, hw, hseen⟩ := hst
    obtain ⟨s₂, hs₂, hw₂, hseen₂⟩ := s'.write c (hseen ▸ hv)
    exact ⟨s₂, hs.trans hs₂, by rw [hw₂, withStore, hw]; rfl, hseen₂.trans hseen⟩
  declare st ns name v hst hns hv := by
    obtain ⟨s', hs, hw, hseen⟩ := hst
    obtain ⟨s₂, hs₂, hw₂, hseen₂⟩ := s'.declare name (s.thawed hns) (hseen ▸ hv)
    exact ⟨s₂, hs.trans hs₂, by rw [hw₂, withStore, hw]; rfl, hseen₂.trans hseen⟩
  remove st ns name hst hns := by
    obtain ⟨s', hs, hw, hseen⟩ := hst
    obtain ⟨s₂, hs₂, hw₂, hseen₂⟩ :=
      s'.remove (s.thawed hns) fun hown ↦ absurd (hseen ▸ hns) hown.1
    exact ⟨s₂, hs.trans hs₂, by rw [hw₂, withStore, hw]; rfl, hseen₂.trans hseen⟩

end State

/-! ## The protocol -/

/-- The failure refers only to namespaces that are seen, and no reference to a guarded name in watched code
fails. -/
def protocol (W : Watch) : Protocol W.State where
  world := State.world
  allows
    | .raises (some site) (.noSuchVariable name) => W.watched site.source → ¬ W.guarded name
    | _ => True
  mayFail s e := e.Within s.seen
  mayFail_mono hs h := h.mono hs.seen
  wait s now _ := by
    obtain ⟨s', hs, hw, -⟩ := s.around
      { s.world with clock := { s.world.clock with now } } rfl rfl rfl s.good.loads
      s.good.waiting (Nat.le_refl _)
    exact ⟨s', hs, hw⟩

end Watch

end ValueShell
