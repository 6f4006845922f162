import ValueShell.Eval
import ValueShell.Proofs.StoreEffects

/-!
# The namespaces a value refers to

A namespace can be reached in two ways: as the namespace of a running frame, and through a value.  This file
is about the second.  `Value.spaces` lists the namespaces a value refers to, at whatever depth, in lists and
maps, in what `constantly` keeps, and in the reason of a caught exception; `World.mentioned` lists those that
anything kept in the world refers to.

`Value.Within P` says that all of them satisfy `P`.  The lemmas that follow say that everything the evaluator
does with values stays within `P`: what comes out of an operation refers only to what went in, or to what is
in the cells.
-/

set_option autoImplicit false

namespace ValueShell

/-! ## What refers to what -/

mutual

/-- The namespaces a value refers to. -/
def Value.spaces : Value → List NsId
  | .list items => Value.spacesOf items
  | .map entries => Value.spacesOfEntries entries
  | .ns id => [id]
  | .constantly values => Value.spacesOf values
  | .exception e => e.spaces
  | _ => []

/-- The namespaces some values refer to. -/
def Value.spacesOf : List Value → List NsId
  | [] => []
  | v :: vs => v.spaces ++ Value.spacesOf vs

/-- The namespaces the keys and the values of entries refer to. -/
def Value.spacesOfEntries : List (Value × Value) → List NsId
  | [] => []
  | (k, v) :: entries => k.spaces ++ v.spaces ++ Value.spacesOfEntries entries

/-- The namespaces an exception refers to. -/
def Exception.spaces : Exception → List NsId
  | .mk reason _ => reason.spaces

/-- The namespaces a reason refers to. -/
def Reason.spaces : Reason → List NsId
  | .fail v => v.spaces
  | .pipeline errors => Failure.spacesOf errors
  | .withCallback body callback => body.spaces ++ callback.spaces
  | _ => []

/-- The namespaces a failure refers to. -/
def Failure.spaces : Failure → List NsId
  | .exception e => e.spaces
  | _ => []

/-- The namespaces some failures refer to. -/
def Failure.spacesOf : List Failure → List NsId
  | [] => []
  | e :: es => e.spaces ++ Failure.spacesOf es

end

attribute [local simp] Value.spaces Value.spacesOf Value.spacesOfEntries Exception.spaces Reason.spaces
  Failure.spaces Failure.spacesOf

/-- The values that wait in channels and in collected output. -/
def Streams.waiting (s : Streams) : List Value :=
  s.valueChannels.toList.flatMap (·.items) ++ s.captures.toList.flatMap (·.values.toList)

/-- The namespaces of the modules that are loaded. -/
def LoadState.spaces (s : LoadState) : List NsId :=
  s.modules.filterMap fun (_, load) ↦
    match load with
    | .done ns => some ns
    | .loading => none

/-- The namespaces the cells refer to, and the defaults of closures. -/
def Store.mentioned (s : Store) : List NsId :=
  s.cells.toList.flatMap Value.spaces ++
    s.closures.toList.flatMap fun c ↦ c.signature.options.flatMap (·.2.spaces)

/-- The namespaces that anything kept in the world refers to: a value in the store, a module, or a value on
its way through the streams. -/
def World.mentioned (w : World) : List NsId :=
  w.store.mentioned ++ w.native.map (·.2) ++ w.loads.spaces ++ w.streams.waiting.flatMap Value.spaces

/-! ## Staying within -/

variable {P Q : NsId → Prop}

/-- The value refers only to namespaces with a property. -/
def Value.Within (P : NsId → Prop) (v : Value) : Prop :=
  ∀ ns ∈ v.spaces, P ns

/-- The reason refers only to namespaces with a property. -/
def Reason.Within (P : NsId → Prop) (r : Reason) : Prop :=
  ∀ ns ∈ r.spaces, P ns

/-- The reasons that carry no value and do not complain of a variable. -/
def Reason.Simple : Reason → Prop
  | .fail _ | .noSuchVariable _ | .pipeline _ | .withCallback .. => False
  | _ => True

/-- The failure refers only to namespaces with a property. -/
def Failure.Within (P : NsId → Prop) (e : Failure) : Prop :=
  ∀ ns ∈ e.spaces, P ns

/-- Named values that refer only to namespaces with a property. -/
def Options.Within (P : NsId → Prop) (opts : Options) : Prop :=
  ∀ o ∈ opts, o.2.Within P

/-- Entries that refer only to namespaces with a property. -/
def Entries.Within (P : NsId → Prop) (entries : Entries) : Prop :=
  ∀ e ∈ entries, e.1.Within P ∧ e.2.Within P

/-- Arguments that refer only to namespaces with a property. -/
structure Args.Within (P : NsId → Prop) (args : Args) : Prop where
  positional : ∀ v ∈ args.positional, v.Within P
  options : Options.Within P args.options
  extra : Options.Within P args.extra

/-- The failure of an outcome refers only to namespaces with a property. -/
def Outcome.Within (P : NsId → Prop) (o : Outcome) : Prop :=
  ∀ e, o = .error e → e.Within P

namespace Value

variable {v : Value}

theorem Within.mono (h : ∀ ns, P ns → Q ns) (hv : v.Within P) : v.Within Q :=
  fun ns hns ↦ h ns (hv ns hns)

theorem mem_spacesOf {ns : NsId} {vs : List Value} : ns ∈ spacesOf vs ↔ ∃ v ∈ vs, ns ∈ v.spaces := by
  induction vs with
  | nil => simp
  | cons v vs ih => simp [ih]

theorem mem_spacesOfEntries {ns : NsId} {entries : Entries} :
    ns ∈ spacesOfEntries entries ↔ ∃ e ∈ entries, ns ∈ e.1.spaces ∨ ns ∈ e.2.spaces := by
  induction entries with
  | nil => simp
  | cons e entries ih =>
    obtain ⟨k, v⟩ := e
    simp [ih, or_assoc]

@[simp] theorem within_nil : Within P nil := by
  simp [Within]

@[simp] theorem within_bool (b : Bool) : Within P (bool b) := by
  simp [Within]

@[simp] theorem within_str (s : String) : Within P (str s) := by
  simp [Within]

@[simp] theorem within_closure (id : ClosureId) : Within P (closure id) := by
  simp [Within]

@[simp] theorem within_builtin (b : Builtin) : Within P (builtin b) := by
  simp [Within]

@[simp] theorem within_external (program : String) : Within P (external program) := by
  simp [Within]

@[simp] theorem within_ns {id : NsId} : Within P (ns id) ↔ P id := by
  simp [Within]

@[simp] theorem within_list {vs : List Value} : Within P (list vs) ↔ ∀ v ∈ vs, v.Within P := by
  simp only [Within, spaces, mem_spacesOf]
  grind

@[simp] theorem within_map {entries : Entries} : Within P (map entries) ↔ entries.Within P := by
  simp only [Within, spaces, mem_spacesOfEntries, Entries.Within]
  constructor
  · exact fun h e he ↦ ⟨fun ns hns ↦ h ns ⟨e, he, .inl hns⟩, fun ns hns ↦ h ns ⟨e, he, .inr hns⟩⟩
  · rintro h ns ⟨e, he, hns | hns⟩
    · exact (h e he).1 ns hns
    · exact (h e he).2 ns hns

@[simp] theorem within_exception {reason : Reason} {stack : List CallSite} :
    Within P (exception (.mk reason stack)) ↔ reason.Within P := by
  simp [Within, Reason.Within]

end Value

theorem Reason.Simple.within {r : Reason} (h : r.Simple) : r.Within P := by
  cases r <;> first | exact False.elim h | exact fun ns hns ↦ by cases hns

/-! ## Maps and named values -/

namespace Entries

variable {entries : Entries} {key value : Value}

theorem Within.insert (h : entries.Within P) (hk : key.Within P) (hv : value.Within P) :
    (entries.insert key value).Within P := by
  induction entries with
  | nil => simpa [Within, Entries.insert] using ⟨hk, hv⟩
  | cons e entries ih =>
    obtain ⟨k, v⟩ := e
    have hrest : Within P entries := fun e he ↦ h e (List.mem_cons_of_mem _ he)
    have hhead := h (k, v) List.mem_cons_self
    rw [Entries.insert]
    split
    · exact List.forall_mem_cons.2 ⟨⟨hhead.1, hv⟩, hrest⟩
    · exact List.forall_mem_cons.2 ⟨hhead, ih hrest⟩

theorem Within.erase (h : entries.Within P) : (entries.erase key).Within P := by
  induction entries with
  | nil => exact h
  | cons e entries ih =>
    obtain ⟨k, v⟩ := e
    have hrest : Within P entries := fun e he ↦ h e (List.mem_cons_of_mem _ he)
    rw [Entries.erase]
    split
    · exact hrest
    · exact List.forall_mem_cons.2 ⟨h _ List.mem_cons_self, ih hrest⟩

theorem Within.get? (h : entries.Within P) (hg : entries.get? key = some value) : value.Within P := by
  rw [Entries.get?, Option.map_eq_some_iff] at hg
  obtain ⟨e, he, rfl⟩ := hg
  exact (h e (List.mem_of_find?_eq_some he)).2

theorem within_foldl_insert {pairs : List (Value × Value)} (h : entries.Within P)
    (hp : Within P pairs) : Within P (pairs.foldl (fun es (k, v) ↦ Entries.insert k v es) entries) := by
  induction pairs generalizing entries with
  | nil => exact h
  | cons p pairs ih =>
    have hhead := hp p List.mem_cons_self
    exact ih (h.insert hhead.1 hhead.2) fun e he ↦ hp e (List.mem_cons_of_mem _ he)

end Entries

theorem Value.within_ofPairs {pairs : List (Value × Value)} (h : Entries.Within P pairs) :
    (Value.ofPairs pairs).Within P :=
  Value.within_map.2 (Entries.within_foldl_insert (fun e he ↦ by cases he) h)

namespace Options

variable {opts : Options} {name : String} {v : Value}

theorem Within.get? (h : opts.Within P) (hg : opts.get? name = some v) : v.Within P := by
  rw [Options.get?, Option.map_eq_some_iff] at hg
  obtain ⟨o, ho, rfl⟩ := hg
  exact h o (List.mem_of_find?_eq_some ho)

theorem Within.insert (h : opts.Within P) (hv : v.Within P) : (opts.insert name v).Within P := by
  induction opts with
  | nil => simpa [Within, Options.insert] using hv
  | cons o opts ih =>
    obtain ⟨n, w⟩ := o
    have hrest : Within P opts := fun o ho ↦ h o (List.mem_cons_of_mem _ ho)
    rw [Options.insert]
    split
    · exact List.forall_mem_cons.2 ⟨hv, hrest⟩
    · exact List.forall_mem_cons.2 ⟨h _ List.mem_cons_self, ih hrest⟩

theorem within_ofPairs {pairs : List (String × Value)} (h : Within P pairs) :
    (Options.ofPairs pairs).Within P := by
  suffices hs : ∀ acc : Options, acc.Within P →
      Within P (pairs.foldl (fun opts p ↦ opts.insert p.1 p.2) acc) from hs [] (by simp [Within])
  induction pairs with
  | nil => exact fun acc hacc ↦ hacc
  | cons p pairs ih =>
    intro acc hacc
    exact ih (fun o ho ↦ h o (List.mem_cons_of_mem _ ho)) _ (hacc.insert (h p List.mem_cons_self))

end Options

/-! ## Failures -/

namespace Failure

variable {e : Failure} {reason : Reason}

theorem Within.mono (h : ∀ ns, P ns → Q ns) (he : e.Within P) : e.Within Q :=
  fun ns hns ↦ h ns (he ns hns)

@[simp] theorem within_ofReason : (ofReason reason).Within P ↔ reason.Within P := by
  simp [Within, ofReason, Reason.Within]

@[simp] theorem within_exception {ex : Exception} :
    (exception ex).Within P ↔ (Value.exception ex).Within P := by
  simp [Within, Value.Within]

@[simp] theorem within_parse (fault : SyntaxFault) (l : Location) : (parse fault l).Within P := by
  simp [Within]

@[simp] theorem within_compile (fault : CompileFault) (l : Location) :
    (compile fault l).Within P := by
  simp [Within]

@[simp] theorem spaces_through (site : CallSite) : (e.through site).spaces = e.spaces := by
  cases e with
  | exception ex =>
    obtain ⟨reason, stack⟩ := ex
    rw [through, Exception.through]
    split <;> rfl
  | _ => rfl

theorem within_through {site : CallSite} : (e.through site).Within P ↔ e.Within P := by
  rw [Within, spaces_through, Within]

theorem mem_spacesOf {ns : NsId} {es : List Failure} : ns ∈ spacesOf es ↔ ∃ e ∈ es, ns ∈ e.spaces := by
  induction es with
  | nil => simp
  | cons e es ih => simp [ih]

end Failure

namespace Frame

variable {fm : Frame} {reason : Reason} {e : Failure}

theorem within_raise : (fm.raise reason).Within P ↔ reason.Within P := by
  rw [raise]
  split
  · rw [Failure.within_through, Failure.within_ofReason]
  · exact Failure.within_ofReason

end Frame

namespace Outcome

variable {o callback : Outcome} {outcomes : List Outcome}

theorem within_ok : Within P (.ok ()) :=
  fun _ h ↦ by cases h

theorem within_error {e : Failure} (h : e.Within P) : Within P (.error e) :=
  fun _ he ↦ Except.error.inj he ▸ h

theorem Within.withCallback (h : o.Within P) (hc : callback.Within P) :
    (o.withCallback callback).Within P := by
  rw [Outcome.withCallback.eq_def]
  split
  · exact hc
  · exact h
  · exact hc
  · rename_i e e' _
    refine within_error (Failure.within_ofReason.2 fun ns hns ↦ ?_)
    rw [Reason.spaces, List.mem_append] at hns
    exact hns.elim (h _ rfl ns) (hc _ rfl ns)

theorem within_combine (h : ∀ o ∈ outcomes, Within P o) : (combine outcomes).Within P := by
  have hes : ∀ e ∈ outcomes.filterMap failure?, e.Within P := by
    intro e he
    obtain ⟨o, ho, hoe⟩ := List.mem_filterMap.1 he
    cases o with
    | ok => cases hoe
    | error e' =>
      cases hoe
      exact h _ ho _ rfl
  rw [combine]
  split
  · exact within_ok
  · rename_i e he
    exact within_error (hes e (by rw [he]; exact List.mem_singleton_self e))
  · refine within_error (Failure.within_ofReason.2 fun ns hns ↦ ?_)
    rw [Reason.spaces, Failure.mem_spacesOf] at hns
    obtain ⟨e, he, hns⟩ := hns
    exact hes e he ns hns

theorem within_ofStages (h : ∀ o ∈ outcomes, Within P o) : (ofStages outcomes).Within P := by
  refine within_combine fun o ho ↦ ?_
  rw [List.mem_append, List.mem_map, Option.mem_toList] at ho
  rcases ho with ⟨o', ho', rfl⟩ | ho
  · have hw := h o' (List.dropLast_subset _ ho')
    cases o' with
    | ok => exact within_ok
    | error e =>
      rw [withoutReaderGone]
      split
      · exact within_ok
      · exact hw
  · exact h o (List.mem_of_getLast? ho)

end Outcome

/-! ## Elements

Reading an element gives a part of the value, or what is in a cell.  Setting or removing one changes the store
only through namespaces that the value refers to; `KeptWithin` says of a property of
stores that it is kept by the changes that are possible, and then it is kept along any path. -/

namespace Store

variable {s s' : Store} {base key v v' : Value} {reason : Reason}

theorem index_within (cells : ∀ c, (s.read c).Within P) (hb : base.Within P)
    (h : s.index base key = .ok v) : v.Within P := by
  unfold index at h
  split at h
  · split at h
    · rename_i hv
      cases h
      obtain ⟨i, -, hi⟩ := Option.bind_eq_some_iff.1 hv
      exact Value.within_list.1 hb _ (List.mem_of_getElem? hi)
    · cases h
  · split at h
    · rename_i hv
      cases h
      exact (Value.within_map.1 hb).get? hv
    · cases h
  · split at h
    · cases h
      exact cells _
    · cases h
  · cases h

theorem index_reason (h : s.index base key = .error reason) : reason.Simple := by
  unfold index at h
  repeat' split at h
  all_goals cases h <;> trivial

theorem assoc_reason (h : s.assoc base key v = .error reason) : reason.Simple := by
  unfold assoc at h
  repeat' split at h
  all_goals cases h <;> trivial

theorem dissoc_reason (h : s.dissoc base key = .error reason) : reason.Simple := by
  unfold dissoc at h
  repeat' split at h
  all_goals cases h <;> trivial

theorem changePath_reason {change : Store → Value → Value → Except Reason (Value × Store)} {whole : Value → Value}
    {path : List Value} (hchange : ∀ base key reason, change s base key = .error reason → reason.Simple)
    (h : s.changePath change whole base path = .error reason) : reason.Simple := by
  fun_induction changePath s change whole base path with
  | case1 => cases h
  | case2 => exact hchange _ _ _ h
  | case3 base key path _ ih =>
    rcases bind_eq_error h with h | ⟨inner, -, h⟩
    · exact index_reason h
    · rcases bind_eq_error h with h | ⟨⟨inner', s₁⟩, -, h⟩
      · exact ih inner h
      · exact assoc_reason h

theorem assocPath_reason {path : List Value} (h : s.assocPath base path v = .error reason) :
    reason.Simple := by
  rw [assocPath_eq] at h
  exact changePath_reason (fun _ _ _ ↦ assoc_reason) h

theorem dissocPath_reason {path : List Value} (h : s.dissocPath base path = .error reason) :
    reason.Simple := by
  rw [dissocPath_eq] at h
  exact changePath_reason (fun _ _ _ ↦ dissoc_reason) h

/-- A property of stores that setting and removing elements cannot break, as long as all values involved stay
within `P`. -/
structure KeptWithin (P : NsId → Prop) (I : Store → Prop) : Prop where
  cells : ∀ s, I s → ∀ c, (s.read c).Within P
  write : ∀ s c v, I s → v.Within P → I (s.write c v)
  declare : ∀ s ns name v, I s → P ns → v.Within P → I (s.declare ns name v).2
  remove : ∀ s ns name, I s → P ns → I (s.remove ns name).2

variable {I : Store → Prop}

theorem KeptWithin.assoc (kept : KeptWithin P I) (hs : I s) (hb : base.Within P) (hk : key.Within P)
    (hv : v.Within P) (h : s.assoc base key v = .ok (v', s')) : I s' ∧ v'.Within P := by
  unfold Store.assoc at h
  split at h
  · split at h
    · cases h
      refine ⟨hs, Value.within_list.2 fun w hw ↦ ?_⟩
      rcases List.mem_or_eq_of_mem_set hw with hw | rfl
      · exact Value.within_list.1 hb w hw
      · exact hv
    · cases h
  · cases h
    exact ⟨hs, Value.within_map.2 ((Value.within_map.1 hb).insert hk hv)⟩
  · split at h
    · split at h
      · cases h
        exact ⟨kept.write _ _ _ hs hv, hb⟩
      · cases h
        exact ⟨kept.declare _ _ _ _ hs (Value.within_ns.1 hb) hv, hb⟩
    · cases h
  · cases h

theorem KeptWithin.dissoc (kept : KeptWithin P I) (hs : I s) (hb : base.Within P)
    (h : s.dissoc base key = .ok (v', s')) : I s' ∧ v'.Within P := by
  unfold Store.dissoc at h
  split at h
  · split at h
    · cases h
      exact ⟨hs, Value.within_map.2 (Value.within_map.1 hb).erase⟩
    · cases h
  · split at h
    · cases h
      exact ⟨kept.remove _ _ _ hs (Value.within_ns.1 hb), hb⟩
    · cases h
  · cases h

theorem KeptWithin.changePath (kept : KeptWithin P I)
    {change : Store → Value → Value → Except Reason (Value × Store)} {whole : Value → Value} {path : List Value}
    (hchange : ∀ base key r s', base.Within P → key.Within P → change s base key = .ok (r, s') → I s' ∧ r.Within P)
    (hwhole : ∀ base : Value, base.Within P → (whole base).Within P) (hs : I s) (hb : base.Within P)
    (hp : ∀ k ∈ path, k.Within P) (h : s.changePath change whole base path = .ok (v', s')) :
    I s' ∧ v'.Within P := by
  fun_induction Store.changePath s change whole base path generalizing s' v' with
  | case1 base =>
    cases h
    exact ⟨hs, hwhole base hb⟩
  | case2 base key => exact hchange _ _ _ _ hb (hp _ List.mem_cons_self) h
  | case3 base key path _ ih =>
    obtain ⟨inner, hinner, h⟩ := bind_eq_ok h
    obtain ⟨⟨inner', s₁⟩, hi, h⟩ := bind_eq_ok h
    obtain ⟨hs₁, hv₁⟩ := ih inner (index_within (kept.cells _ hs) hb hinner)
      (fun k hk ↦ hp k (List.mem_cons_of_mem _ hk)) hi
    exact kept.assoc hs₁ hb (hp _ List.mem_cons_self) hv₁ h

theorem KeptWithin.assocPath (kept : KeptWithin P I) {path : List Value} (hs : I s)
    (hb : base.Within P) (hp : ∀ k ∈ path, k.Within P) (hv : v.Within P)
    (h : s.assocPath base path v = .ok (v', s')) : I s' ∧ v'.Within P := by
  rw [assocPath_eq] at h
  exact kept.changePath (fun _ _ _ _ hb hk h ↦ kept.assoc hs hb hk hv h) (fun _ _ ↦ hv) hs hb hp h

theorem KeptWithin.dissocPath (kept : KeptWithin P I) {path : List Value} (hs : I s)
    (hb : base.Within P) (hp : ∀ k ∈ path, k.Within P)
    (h : s.dissocPath base path = .ok (v', s')) : I s' ∧ v'.Within P := by
  rw [dissocPath_eq] at h
  exact kept.changePath (fun _ _ _ _ hb _ h ↦ kept.dissoc hs hb h) (fun _ hb ↦ hb) hs hb hp h

end Store

/-! ## Modules -/

namespace LoadState

variable {s : LoadState} {ns : NsId} {path : FilePath} {load : Load}

theorem mem_spaces : ns ∈ s.spaces ↔ ∃ path, (path, Load.done ns) ∈ s.modules := by
  rw [spaces, List.mem_filterMap]
  constructor
  · rintro ⟨⟨path, load⟩, hm, h⟩
    cases load with
    | loading => cases h
    | done ns' =>
      cases h
      exact ⟨path, hm⟩
  · rintro ⟨path, hm⟩
    exact ⟨_, hm, rfl⟩

theorem mem_spaces_of_status? (h : s.status? path = some (.done ns)) : ns ∈ s.spaces := by
  obtain ⟨⟨path', load⟩, hm, hl⟩ := Option.map_eq_some_iff.1 h
  cases hl
  exact mem_spaces.2 ⟨path', List.mem_of_find?_eq_some hm⟩

theorem spaces_setStatus (h : ns ∈ (s.setStatus path load).spaces) :
    ns ∈ s.spaces ∨ load = .done ns := by
  obtain ⟨path', hm⟩ := mem_spaces.1 h
  rcases List.mem_append.1 hm with hm | hm
  · exact .inl (mem_spaces.2 ⟨path', (List.mem_filter.1 hm).1⟩)
  · cases List.mem_singleton.1 hm
    exact .inr rfl

theorem spaces_attempt {chain : List FilePath} (h : ns ∈ (s.attempt path chain).2.spaces) :
    ns ∈ s.spaces := by
  unfold attempt at h
  split at h
  · exact h
  · rcases spaces_setStatus h with h | h
    · exact h
    · cases h
  · split at h
    · exact h
    · exact h

theorem mem_spaces_of_attempt {chain : List FilePath} (h : (s.attempt path chain).1 = .ready ns) :
    ns ∈ s.spaces := by
  unfold attempt at h
  split at h
  · rename_i hs
    cases h
    exact mem_spaces_of_status? hs
  · cases h
  · split at h <;> cases h

theorem spaces_recheck {waiter : Nat} (h : ns ∈ (s.recheck waiter path).2.spaces) :
    ns ∈ s.spaces := by
  unfold recheck at h
  split at h
  · exact h
  · rcases spaces_setStatus h with h | h
    · exact h
    · cases h
  · exact h

theorem mem_spaces_of_recheck {waiter : Nat} (h : (s.recheck waiter path).1 = .ready ns) :
    ns ∈ s.spaces := by
  unfold recheck at h
  split at h
  · rename_i hs
    cases h
    exact mem_spaces_of_status? hs
  · cases h
  · cases h

theorem spaces_abandon (h : ns ∈ (s.abandon path).spaces) : ns ∈ s.spaces := by
  obtain ⟨path', hm⟩ := mem_spaces.1 h
  exact mem_spaces.2 ⟨path', (List.mem_filter.1 hm).1⟩

end LoadState

/-! ## What a world mentions -/

namespace World

variable {w : World}

theorem read_within (h : ∀ ns ∈ w.mentioned, P ns) (c : CellId) : (w.store.read c).Within P := by
  intro ns hns
  rw [Store.read, Array.getD_eq_getD_getElem?] at hns
  cases hc : w.store.cells[c.index]? with
  | none =>
    rw [hc] at hns
    cases hns
  | some v =>
    rw [hc] at hns
    refine h ns ?_
    simp only [mentioned, Store.mentioned, List.mem_append, List.mem_flatMap]
    exact .inl (.inl (.inl (.inl ⟨v, (Array.mem_of_getElem? hc).val, hns⟩)))

theorem options_within (h : ∀ ns ∈ w.mentioned, P ns) {c : Closure} (hc : c ∈ w.store.closures) :
    Options.Within P c.signature.options := by
  intro o ho ns hns
  refine h ns ?_
  simp only [mentioned, Store.mentioned, List.mem_append, List.mem_flatMap]
  exact .inl (.inl (.inl (.inr ⟨c, hc.val, o, ho, hns⟩)))

theorem waiting_within (h : ∀ ns ∈ w.mentioned, P ns) : ∀ v ∈ w.streams.waiting, v.Within P := by
  intro v hv ns hns
  refine h ns ?_
  simp only [mentioned, List.mem_append, List.mem_flatMap]
  exact .inr ⟨v, hv, hns⟩

end World

end ValueShell
