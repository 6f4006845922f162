import ValueShell.World.Act

/-!
# What the operations of the store change

One lemma for each operation of the store and each of its tables, so that nobody else has to open the
operations again.  The closures are simplest: nothing but `newClosure` touches them.  Cells and bindings
are changed one at a time, and the lemmas say which.

The last section is about what acts leave alone: of the store, the streams and the table of modules an act
changes at most one (`Act.perform_sameBut`).
-/

set_option autoImplicit false

namespace ValueShell

/-- What has to have happened for two steps to succeed. -/
theorem bind_eq_ok {ε α β : Type} {m : Except ε α} {f : α → Except ε β} {b : β}
    (h : m >>= f = .ok b) : ∃ a, m = .ok a ∧ f a = .ok b := by
  cases m with
  | error e => cases h
  | ok a => exact ⟨a, rfl, h⟩

/-- Which of two steps has failed. -/
theorem bind_eq_error {ε α β : Type} {m : Except ε α} {f : α → Except ε β} {e : ε}
    (h : m >>= f = .error e) : m = .error e ∨ ∃ a, m = .ok a ∧ f a = .error e := by
  cases m with
  | error e' =>
    cases h
    exact .inl rfl
  | ok a => exact .inr ⟨a, rfl, h⟩

/-- What is left of a result when its error is forgotten. -/
theorem eq_ok_of_toOption {ε α : Type} {r : Except ε α} {a : α} (h : r.toOption = some a) : r = .ok a := by
  cases r with
  | error e => cases h
  | ok b => rw [Option.some.inj h]

/-! ## Names of bindings -/

namespace Bindings

variable {bs : Bindings} {chain : List Bindings} {name x : String} {c : CellId}

theorem find?_isSome_iff : (bs.find? name).isSome ↔ name ∈ bs.names := by
  simp [find?, names]

theorem mem_names_insert : x ∈ (bs.insert name c).names ↔ x = name ∨ x ∈ bs.names := by
  induction bs with
  | nil => simp [insert, names]
  | cons b bs ih =>
    obtain ⟨n, d⟩ := b
    simp only [names, insert, List.map_cons, List.mem_cons] at ih ⊢
    split
    next h =>
      subst h
      simp
    next => simp only [List.map_cons, List.mem_cons, ih, or_left_comm]

theorem mem_names_erase (h : x ∈ bs.names) (hx : x ≠ name) : x ∈ (bs.erase name).names := by
  induction bs with
  | nil => exact h
  | cons b bs ih =>
    obtain ⟨n, d⟩ := b
    rw [names, List.map_cons, List.mem_cons] at h
    rw [erase]
    split
    next hn =>
      subst hn
      exact h.resolve_left hx
    next =>
      rw [names, List.map_cons, List.mem_cons]
      exact h.imp_right ih

theorem findIn?_isSome_iff : (findIn? chain name).isSome ↔ ∃ bs ∈ chain, name ∈ bs.names := by
  induction chain with
  | nil => simp [findIn?]
  | cons bs chain ih =>
    have hbs : (bs.find? name).isSome ↔ name ∈ bs.names := find?_isSome_iff
    rw [findIn?]
    simp only [List.mem_cons, exists_eq_or_imp, ← hbs]
    cases bs.find? name <;> simp [ih]

end Bindings

namespace Store

variable {s s' : Store} {c d : CellId} {ns ns' : NsId} {v v' base key : Value} {name : String}

/-! ## Changes along a path

Setting and removing go the same way: what they do to the container of the last key differs, and each container around
it has the changed one assigned.  So what goes on along the path is shown once, for `changePath`. -/

/-- The value with `change` made of the container at the end of a path; with no path, what `whole` makes of the value
itself. -/
def changePath (s : Store) (change : Store → Value → Value → Except Reason (Value × Store)) (whole : Value → Value)
    (base : Value) : List Value → Except Reason (Value × Store)
  | [] => .ok (whole base, s)
  | [key] => change s base key
  | key :: path => do
    let inner ← s.index base key
    let (inner, s) ← s.changePath change whole inner path
    s.assoc base key inner

theorem assocPath_eq {path : List Value} :
    s.assocPath base path v = s.changePath (fun s base key ↦ s.assoc base key v) (fun _ ↦ v) base path := by
  fun_induction assocPath s base path v with
  | case1 => rfl
  | case2 => rfl
  | case3 base v key path hne ih =>
    rw [changePath]
    · simp only [ih]
    · exact hne

theorem dissocPath_eq {path : List Value} : s.dissocPath base path = s.changePath dissoc id base path := by
  fun_induction dissocPath s base path with
  | case1 => rfl
  | case2 => rfl
  | case3 base key path hne ih =>
    rw [changePath]
    · simp only [ih]
    · exact hne

/-! ## Closures -/

@[simp] theorem write_closures : (s.write c v).closures = s.closures := rfl

@[simp] theorem newCell_closures : (s.newCell v).2.closures = s.closures := rfl

@[simp] theorem declare_closures : (s.declare ns name v).2.closures = s.closures := rfl

@[simp] theorem remove_closures : (s.remove ns name).2.closures = s.closures := rfl

@[simp] theorem newSpace_closures (bs : Bindings) : (s.newSpace bs).2.closures = s.closures := rfl

@[simp] theorem declareAll_closures (pairs : List (String × Value)) :
    (s.declareAll ns pairs).closures = s.closures := by
  induction pairs generalizing s with
  | nil => rfl
  | cons p pairs ih => exact ih.trans declare_closures

@[simp] theorem spaceOfPairs_closures (pairs : List (String × Value)) :
    (s.spaceOfPairs pairs).2.closures = s.closures :=
  declareAll_closures pairs

theorem assoc_closures (h : s.assoc base key v = .ok (v', s')) : s'.closures = s.closures := by
  unfold assoc at h
  split at h
  next =>
    split at h <;> cases h
    rfl
  next => cases h; rfl
  next =>
    split at h
    next => split at h <;> cases h <;> rfl
    next => cases h
  next => cases h

theorem dissoc_closures (h : s.dissoc base key = .ok (v', s')) : s'.closures = s.closures := by
  unfold dissoc at h
  split at h
  next => split at h <;> cases h; rfl
  next => split at h <;> cases h; rfl
  next => cases h

theorem changePath_closures {change : Store → Value → Value → Except Reason (Value × Store)} {whole : Value → Value}
    {path : List Value}
    (hchange : ∀ base key r s', change s base key = .ok (r, s') → s'.closures = s.closures)
    (h : s.changePath change whole base path = .ok (v', s')) : s'.closures = s.closures := by
  fun_induction changePath s change whole base path generalizing s' v' with
  | case1 => cases h; rfl
  | case2 => exact hchange _ _ _ _ h
  | case3 base key path _ ih =>
    obtain ⟨inner, -, h⟩ := bind_eq_ok h
    obtain ⟨⟨inner', s₁⟩, hinner, h⟩ := bind_eq_ok h
    exact (assoc_closures h).trans (ih inner hinner)

theorem assocPath_closures {path : List Value} (h : s.assocPath base path v = .ok (v', s')) :
    s'.closures = s.closures := by
  rw [assocPath_eq] at h
  exact changePath_closures (fun _ _ _ _ ↦ assoc_closures) h

theorem dissocPath_closures {path : List Value} (h : s.dissocPath base path = .ok (v', s')) :
    s'.closures = s.closures := by
  rw [dissocPath_eq] at h
  exact changePath_closures (fun _ _ _ _ ↦ dissoc_closures) h

/-! ## Cells -/

theorem read_write_cases : (s.write c v).read d = v ∨ (s.write c v).read d = s.read d := by
  simp only [read, write, Array.getD_eq_getD_getElem?, Array.getElem?_setIfInBounds]
  split
  · split
    · exact .inl rfl
    · right
      rw [Array.getElem?_eq_none (by omega)]
  · exact .inr rfl

theorem read_newCell_cases : (s.newCell v).2.read d = v ∨ (s.newCell v).2.read d = s.read d := by
  simp only [read, newCell, Array.getD_eq_getD_getElem?, Array.getElem?_push]
  split
  · exact .inl rfl
  · exact .inr rfl

theorem read_declare_cases :
    (s.declare ns name v).2.read d = v ∨ (s.declare ns name v).2.read d = s.read d :=
  read_newCell_cases

/-! ## Namespaces -/

@[simp] theorem modifySpace_spaces_size (f : Bindings → Bindings) :
    (s.modifySpace ns f).spaces.size = s.spaces.size := by
  simp [modifySpace]

@[simp] theorem declare_spaces_size : (s.declare ns name v).2.spaces.size = s.spaces.size :=
  modifySpace_spaces_size _

@[simp] theorem remove_spaces_size : (s.remove ns name).2.spaces.size = s.spaces.size :=
  modifySpace_spaces_size _

@[simp] theorem newSpace_spaces_size (bs : Bindings) :
    (s.newSpace bs).2.spaces.size = s.spaces.size + 1 := by
  simp [newSpace]

theorem bindings_modifySpace_of_ne (f : Bindings → Bindings) (h : ns' ≠ ns) :
    (s.modifySpace ns f).bindings ns' = s.bindings ns' := by
  have hi : ns.index ≠ ns'.index := fun hi ↦ h (by cases ns; cases ns'; exact congrArg _ hi.symm)
  simp [bindings, modifySpace, Array.getD_eq_getD_getElem?, Array.getElem?_modify, hi]

theorem bindings_modifySpace_self (f : Bindings → Bindings) (h : ns.index < s.spaces.size) :
    (s.modifySpace ns f).bindings ns = f (s.bindings ns) := by
  simp only [bindings, modifySpace, Array.getD_eq_getD_getElem?, Array.getElem?_modify]
  simp [h]

theorem bindings_newSpace_of_lt (bs : Bindings) (h : ns.index < s.spaces.size) :
    (s.newSpace bs).2.bindings ns = s.bindings ns := by
  simp only [bindings, newSpace, Array.getD_eq_getD_getElem?, Array.getElem?_push_lt h,
    Array.getElem?_eq_getElem h]

theorem bindings_newSpace_new (bs : Bindings) :
    (s.newSpace bs).2.bindings (s.newSpace bs).1 = bs := by
  simp [bindings, newSpace, Array.getD_eq_getD_getElem?]

theorem bindings_newSpace_of_ne {bs : Bindings} (h : ns ≠ (s.newSpace bs).1) :
    (s.newSpace bs).2.bindings ns = s.bindings ns := by
  have hindex : ns.index ≠ s.spaces.size := by
    intro heq
    exact h (by rw [newSpace, ← heq])
  simp [bindings, newSpace, Array.getD_eq_getD_getElem?, Array.getElem?_push, hindex]

theorem bindings_declare_of_ne (h : ns' ≠ ns) :
    (s.declare ns name v).2.bindings ns' = s.bindings ns' :=
  bindings_modifySpace_of_ne _ h

theorem bindings_declare_self (h : ns.index < s.spaces.size) :
    (s.declare ns name v).2.bindings ns = (s.bindings ns).insert name (s.declare ns name v).1 :=
  bindings_modifySpace_self _ h

theorem bindings_remove_of_ne (h : ns' ≠ ns) :
    (s.remove ns name).2.bindings ns' = s.bindings ns' :=
  bindings_modifySpace_of_ne _ h

/-- Declaring a name takes none away. -/
theorem mem_names_declare {x : String} (h : x ∈ (s.bindings ns').names) :
    x ∈ ((s.declare ns name v).2.bindings ns').names := by
  by_cases hn : ns' = ns
  · subst hn
    by_cases hi : ns'.index < s.spaces.size
    · rw [bindings_declare_self hi]
      exact Bindings.mem_names_insert.2 (.inr h)
    · rw [bindings, Array.getD_eq_getD_getElem?, Array.getElem?_eq_none (by omega)] at h
      cases h
  · rwa [bindings_declare_of_ne hn]

theorem mem_names_declare_self (h : ns.index < s.spaces.size) :
    name ∈ ((s.declare ns name v).2.bindings ns).names := by
  rw [bindings_declare_self h]
  exact Bindings.mem_names_insert.2 (.inl rfl)

/-- Removing a name takes no other away. -/
theorem mem_names_remove {x : String} (h : x ∈ (s.bindings ns').names) (hx : ns' = ns → x ≠ name) :
    x ∈ ((s.remove ns name).2.bindings ns').names := by
  by_cases hn : ns' = ns
  · subst hn
    by_cases hi : ns'.index < s.spaces.size
    · rw [remove, bindings_modifySpace_self _ hi]
      exact Bindings.mem_names_erase h (hx rfl)
    · rw [bindings, Array.getD_eq_getD_getElem?, Array.getElem?_eq_none (by omega)] at h
      cases h
  · rwa [bindings_remove_of_ne hn]

@[simp] theorem declareAll_spaces_size (pairs : List (String × Value)) :
    (s.declareAll ns pairs).spaces.size = s.spaces.size := by
  induction pairs generalizing s with
  | nil => rfl
  | cons p pairs ih => exact ih.trans declare_spaces_size

theorem declareAll_cons (s : Store) (ns : NsId) (p : String × Value) (pairs : List (String × Value)) :
    s.declareAll ns (p :: pairs) = (s.declare ns p.1 p.2).2.declareAll ns pairs :=
  rfl

end Store

/-! ## Acts -/

namespace World

theorem writeBytes_eq (w : World) (sink : ByteSink) (bytes : Bytes) :
    ∃ streams files handles,
      (w.writeBytes sink bytes).2 = { w with streams, files, handles } := by
  unfold writeBytes
  repeat' split
  all_goals exact ⟨_, _, _, rfl⟩

theorem put_eq (w : World) (sink : ValueSink) (v : Value) :
    ∃ streams files handles, (w.put sink v).2 = { w with streams, files, handles } := by
  unfold put
  repeat' split
  all_goals first | exact writeBytes_eq w _ _ | exact ⟨_, _, _, rfl⟩

theorem consume_eq (w : World) (lanes : Inlet) (e : InputEvent) :
    ∃ streams, w.consume lanes e = { w with streams } := by
  unfold consume
  repeat' split
  all_goals exact ⟨_, rfl⟩

theorem firstWarning_eq (w : World) (site : CallSite) :
    ∃ warned, (w.firstWarning site).2 = { w with warned } := by
  unfold firstWarning
  split <;> exact ⟨_, rfl⟩

theorem startTimer_eq (w : World) (nanos : Nat) :
    ∃ interrupt clock, (w.startTimer nanos).2 = { w with interrupt, clock } := by
  unfold startTimer
  dsimp only
  split <;> exact ⟨_, _, rfl⟩

end World

/-- The parts of the world of which it matters what changes them. -/
inductive World.Part where
  | store
  | streams
  | loads
  | others

/-- The part of the world that an act may change. -/
def Act.part : Act → World.Part
  | write .. | declare .. | remove .. | newSpace _ | newSpaceOf _ | newClosure .. | assoc .. | dissoc .. => .store
  | put .. | writeBytes .. | receive .. | newCapture | takeCapture _ | newPipe _ | endStage .. => .streams
  | attemptLoad .. | awaitLoad .. | finishLoad .. | abandonLoad _ => .loads
  | _ => .others

/-- Of the parts that matter only one has changed. -/
structure World.SameBut (part : World.Part) (w w' : World) : Prop where
  store : part ≠ .store → w'.store = w.store
  streams : part ≠ .streams → w'.streams = w.streams
  loads : part ≠ .loads → w'.loads = w.loads

namespace World.SameBut

variable {w w' : World}

theorem ofStore (hstreams : w'.streams = w.streams) (hloads : w'.loads = w.loads) : SameBut .store w w' :=
  ⟨fun h ↦ absurd rfl h, fun _ ↦ hstreams, fun _ ↦ hloads⟩

theorem ofStreams (hstore : w'.store = w.store) (hloads : w'.loads = w.loads) : SameBut .streams w w' :=
  ⟨fun _ ↦ hstore, fun h ↦ absurd rfl h, fun _ ↦ hloads⟩

theorem ofLoads (hstore : w'.store = w.store) (hstreams : w'.streams = w.streams) : SameBut .loads w w' :=
  ⟨fun _ ↦ hstore, fun _ ↦ hstreams, fun h ↦ absurd rfl h⟩

theorem ofOthers (hstore : w'.store = w.store) (hstreams : w'.streams = w.streams) (hloads : w'.loads = w.loads) :
    SameBut .others w w' :=
  ⟨fun _ ↦ hstore, fun _ ↦ hstreams, fun _ ↦ hloads⟩

end World.SameBut

/-- **An act changes no part of the world but its own.** -/
theorem Act.perform_sameBut (a : Act) (w : World) : w.SameBut a.part (a.perform w).2 := by
  cases a with
  | assoc base path v =>
    rw [perform, inStore.eq_def]
    split <;> exact .ofStore rfl rfl
  | dissoc base path =>
    rw [perform, inStore.eq_def]
    split <;> exact .ofStore rfl rfl
  | write | declare | remove | newSpace | newSpaceOf | newClosure => exact .ofStore rfl rfl
  | put sink v =>
    obtain ⟨_, _, _, hput⟩ := w.put_eq sink v
    rw [perform, hput]
    exact .ofStreams rfl rfl
  | writeBytes sink bytes =>
    obtain ⟨_, _, _, hwrite⟩ := w.writeBytes_eq sink bytes
    rw [perform, hwrite]
    exact .ofStreams rfl rfl
  | receive lanes line =>
    rw [perform]
    split
    next e _ =>
      obtain ⟨_, hconsume⟩ := w.consume_eq lanes e
      rw [hconsume]
      exact .ofStreams rfl rfl
    next => exact .ofStreams rfl rfl
  | newCapture | takeCapture | newPipe | endStage => exact .ofStreams rfl rfl
  | attemptLoad | awaitLoad | finishLoad | abandonLoad => exact .ofLoads rfl rfl
  | openFile path append =>
    rw [perform]
    split <;> exact .ofOthers rfl rfl rfl
  | firstWarning site =>
    obtain ⟨_, hwarn⟩ := w.firstWarning_eq site
    rw [perform, hwarn]
    exact .ofOthers rfl rfl rfl
  | startTimer nanos =>
    obtain ⟨_, _, hstart⟩ := w.startTimer_eq nanos
    rw [perform, hstart]
    exact .ofOthers rfl rfl rfl
  | _ => exact .ofOthers rfl rfl rfl

end ValueShell
