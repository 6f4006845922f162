import ValueShell.Eval.Exec
import ValueShell.Proofs.Arguments
import ValueShell.Proofs.Derived
import ValueShell.Proofs.Keys
import ValueShell.Proofs.ReadBack.Lowering

/-!
# Binding arguments

`Signature.bind` deals the arguments of a call out, and a body indexes what it gives without looking.  What it may
rely on is `Signature.Bound`: one value for each parameter, which spread out again are the arguments; each declared
option once; and the other options as they were given.

`Signature.binding_exact` says when arguments are accepted, that what is given then is `Bound`, and where it goes: a
call of a closure makes each of the names a variable of its own (`Signature.Locals`), and `distribute`, which deals
values out to the targets of an assignment, accepts the same numbers of values and gives the same list.

The two places with an argument in them are `Signature.fill_eq`, which turns the loop over the declared options into
a filter, and `Store.holds_declareAll`: a variable stays what it was when others are declared behind it.
-/

set_option autoImplicit false

namespace ValueShell

/-! ## Positions -/

/-- The values with the list at the rest position replaced by its items. -/
def spread (rest : Option Nat) (vs : List Value) : Option (List Value) :=
  match rest with
  | none => some vs
  | some i => (vs[i]?.bind Value.list?).map fun items ↦ vs.take i ++ items ++ vs.drop (i + 1)

theorem spread_gather {i count : Nat} {vs : List Value} (h : i ≤ vs.length) :
    spread (some i) (gather i count vs) = some vs := by
  have hlength : (vs.take i).length = i := List.length_take_of_le h
  have hitems : (gather i count vs)[i]? = some (.list ((vs.drop i).take count)) := by
    rw [gather, List.getElem?_append_right (Nat.le_of_eq hlength), hlength, Nat.sub_self]
    rfl
  have hfront : (gather i count vs).take i = vs.take i := List.take_left' hlength
  have hback : (gather i count vs).drop (i + 1) = vs.drop (i + count) := by
    rw [gather, ← hlength, List.drop_append, hlength]
    simp [hlength]
  have hall : vs.take i ++ (vs.drop i).take count ++ vs.drop (i + count) = vs := by
    rw [List.append_assoc, ← List.drop_drop, List.take_append_drop, List.take_append_drop]
  rw [spread, hitems, hfront, hback]
  exact congrArg some hall

namespace Signature

variable {s : Signature} {args : List Value} {opts : Options} {bound : Args}

/-- The number of arguments is right: one for each parameter, or any number in place of the one for the rest. -/
def Fits (s : Signature) (count : Nat) : Prop :=
  match s.rest with
  | none => count = s.params.length
  | some _ => s.params.length - 1 ≤ count

/-- Every option is declared, unless the signature takes all others too. -/
def Takes (s : Signature) (opts : Options) : Prop :=
  (∀ o ∈ opts, o.1 ∈ s.options.map (·.1)) ∨ s.restOptions.isSome

theorem accepts_iff {count : Nat} : s.accepts count = true ↔ s.Fits count := by
  cases h : s.rest <;> simp [accepts, arity, Fits, h]
  omega

theorem declares_iff {name : String} : s.declares name = true ↔ name ∈ s.options.map (·.1) := by
  simp [declares, List.mem_map]

theorem not_declares (name : String) : (!s.declares name) = decide (name ∉ s.options.map (·.1)) := by
  rw [Bool.eq_iff_iff, Bool.not_eq_true', decide_eq_true_eq, ← declares_iff, Bool.not_eq_true]

theorem spread_place (hrest : ∀ i, s.rest = some i → i < s.params.length) (h : s.Fits args.length) :
    spread s.rest (s.place args) = some args := by
  rw [place]
  cases hr : s.rest with
  | none => rfl
  | some i =>
    have hi := hrest i hr
    rw [Fits, hr] at h
    exact spread_gather (by omega)

theorem length_place (hrest : ∀ i, s.rest = some i → i < s.params.length) (h : s.Fits args.length) :
    (s.place args).length = s.params.length := by
  rw [place]
  cases hr : s.rest with
  | none =>
    rw [Fits, hr] at h
    exact h
  | some i =>
    have hi := hrest i hr
    rw [Fits, hr] at h
    have hmin : s.arity.1 = s.params.length - 1 := by rw [arity, hr]
    rw [length_gather, hmin]
    omega

end Signature

/-! ## Options -/

namespace Options

variable {opts others : Options} {name : String}

theorem get?_append : (opts ++ others).get? name = (opts.get? name).or (others.get? name) := by
  simp only [get?, List.find?_append]
  cases List.find? (fun o : String × Value ↦ decide (o.1 = name)) opts <;> rfl

theorem isSome_get? : (opts.get? name).isSome ↔ name ∈ opts.map (·.1) := by
  simp [get?, List.mem_map]

theorem mem_of_get? {v : Value} (h : opts.get? name = some v) : (name, v) ∈ opts := by
  obtain ⟨o, ho, rfl⟩ := Option.map_eq_some_iff.1 h
  have hname := List.find?_some ho
  rw [decide_eq_true_eq] at hname
  rw [← hname]
  exact List.mem_of_find?_eq_some ho

theorem get?_of_mem {v : Value} (hnames : (opts.map (·.1)).Nodup) (h : (name, v) ∈ opts) :
    opts.get? name = some v := by
  have honce : opts.Pairwise fun o o' ↦ ¬ (decide (o.1 = name) = true ∧ decide (o'.1 = name) = true) :=
    (List.pairwise_map.1 hnames).imp fun hne hboth ↦
      hne ((of_decide_eq_true hboth.1).trans (of_decide_eq_true hboth.2).symm)
  rw [get?, find?_eq_some_of_pairwise honce h (decide_eq_true rfl)]
  rfl

/-- Among the options of which a name passes a test there is what was there before. -/
theorem get?_filter (opts : Options) (p : String → Bool) (h : p name = true) :
    get? (opts.filter fun o ↦ p o.1) name = opts.get? name := by
  rw [get?, get?, List.find?_filter]
  congr 2
  funext o
  by_cases ho : o.1 = name
  · simp [ho, h]
  · simp [ho]

end Options

namespace Signature

variable {s : Signature} {args : List Value} {opts given : Options} {bound : Args}

/-- The declared options are those given and behind them the others. -/
theorem fill_eq (hoptions : (s.options.map (·.1)).Nodup) :
    s.fill given = given ++ s.options.filter fun o ↦ o.1 ∉ given.map (·.1) := by
  rw [fill]
  generalize s.options = options at hoptions
  induction options generalizing given with
  | nil => simp
  | cons o options ih =>
    obtain ⟨hnew, hoptions⟩ := List.nodup_cons.1 hoptions
    rw [List.foldl_cons]
    dsimp only
    by_cases ho : o.1 ∈ given.map (·.1)
    · rw [if_pos (Options.isSome_get?.2 ho), ih hoptions, List.filter_cons_of_neg (by simpa using ho)]
    · have hsame : (options.filter fun o' ↦ o'.1 ∉ (given ++ [o]).map (·.1)) =
          options.filter fun o' ↦ o'.1 ∉ given.map (·.1) := by
        refine List.filter_congr fun o' ho' ↦ ?_
        have hne : o'.1 ≠ o.1 := fun h ↦ hnew (List.mem_map.2 ⟨o', ho', h⟩)
        simp [hne]
      rw [if_neg (mt Options.isSome_get?.1 ho), ih hoptions, hsame,
        List.filter_cons_of_pos (by simpa using ho), List.append_assoc, List.singleton_append]

theorem names_fill (hoptions : (s.options.map (·.1)).Nodup) (hgiven : (given.map (·.1)).Nodup)
    (hdeclared : ∀ o ∈ given, o.1 ∈ s.options.map (·.1)) :
    ((s.fill given).map (·.1)).Perm (s.options.map (·.1)) := by
  have hothers : ((s.options.filter fun o ↦ o.1 ∉ given.map (·.1)).map (·.1)).Nodup :=
    hoptions.sublist (List.filter_sublist.map _)
  have hnodup : ((s.fill given).map (·.1)).Nodup := by
    rw [fill_eq hoptions, List.map_append]
    refine List.nodup_append.2 ⟨hgiven, hothers, ?_⟩
    rintro name hname _ hother rfl
    obtain ⟨o, ho, rfl⟩ := List.mem_map.1 hother
    simpa [hname] using (List.mem_filter.1 ho).2
  refine (List.perm_ext_iff_of_nodup hnodup hoptions).2 fun name ↦ ⟨fun hname ↦ ?_, mem_fill_names⟩
  rw [fill_eq hoptions, List.map_append, List.mem_append] at hname
  rcases hname with hname | hname
  · obtain ⟨o, ho, rfl⟩ := List.mem_map.1 hname
    exact hdeclared o ho
  · exact (List.filter_sublist.map _).subset hname

theorem get?_fill (hoptions : (s.options.map (·.1)).Nodup) {name : String} {default : Value}
    (h : (name, default) ∈ s.options) : (s.fill given).get? name = some ((given.get? name).getD default) := by
  rw [fill_eq hoptions, Options.get?_append]
  cases hg : given.get? name with
  | some v => rfl
  | none =>
    have hname : name ∉ given.map (·.1) := by
      rw [← Options.isSome_get?, hg]
      simp
    have hkeep := Options.get?_filter s.options (fun n ↦ n ∉ given.map (·.1)) (decide_eq_true hname)
    exact hkeep.trans (Options.get?_of_mem hoptions h)

/-! ## What is bound -/

/-- What a body may rely on. -/
structure Bound (s : Signature) (args : List Value) (opts : Options) (bound : Args) : Prop where
  /-- There is one value for each parameter. -/
  positional : bound.positional.length = s.params.length
  /-- With the rest spread out, the values are the arguments in their order. -/
  spread : spread s.rest bound.positional = some args
  /-- Each declared option is there once. -/
  options : (bound.options.map (·.1)).Perm (s.options.map (·.1))
  /-- It has the value given, or its default. -/
  value : ∀ name default, (name, default) ∈ s.options →
    bound.options.get? name = some ((opts.get? name).getD default)
  /-- The others are there in the order of the call. -/
  extra : bound.extra = opts.filter fun o ↦ o.1 ∉ s.options.map (·.1)

/-- What `bind` gives when it succeeds. -/
def dealt (s : Signature) (args : List Value) (opts : Options) : Args :=
  { positional := s.place args
    options := s.fill (opts.filter fun o ↦ s.declares o.1)
    extra := opts.filter fun o ↦ !s.declares o.1 }

theorem bound_dealt (hrest : ∀ i, s.rest = some i → i < s.params.length)
    (hoptions : (s.options.map (·.1)).Nodup) (hopts : (opts.map (·.1)).Nodup) (h : s.Fits args.length) :
    s.Bound args opts (s.dealt args opts) where
  positional := length_place hrest h
  spread := spread_place hrest h
  options := by
    refine names_fill hoptions (hopts.sublist (List.filter_sublist.map _)) fun o ho ↦ ?_
    exact declares_iff.1 (List.mem_filter.1 ho).2
  value name default hname := by
    have hdeclared : s.declares name = true := declares_iff.2 (List.mem_map_of_mem hname)
    rw [dealt, get?_fill hoptions hname, Options.get?_filter opts s.declares hdeclared]
  extra := List.filter_congr fun o _ ↦ not_declares o.1

/-- A wrong number of arguments is reported whatever the options are. -/
theorem bind_of_not_fits (h : ¬ s.Fits args.length) :
    s.bind args opts = .error (.arityMismatch "arguments" s.arityText args.length) := by
  rw [bind, if_neg (mt accepts_iff.1 h)]

theorem bind_of_takes (h : s.Fits args.length) (ht : s.Takes opts) : s.bind args opts = .ok (s.dealt args opts) := by
  rw [bind, if_pos (accepts_iff.2 h)]
  rcases ht with ht | ht
  · have hnone : (opts.find? fun o ↦ !s.declares o.1) = none :=
      List.find?_eq_none.2 fun o ho ↦ by simpa using declares_iff.2 (ht o ho)
    rw [hnone]
    cases s.restOptions <;> rfl
  · obtain ⟨name, hname⟩ := Option.isSome_iff_exists.1 ht
    rw [hname]
    rfl

/-- The first option that is not taken is reported. -/
theorem bind_of_not_takes (h : s.Fits args.length) (ht : ¬ s.Takes opts) :
    ∃ o, (opts.find? fun o ↦ o.1 ∉ s.options.map (·.1)) = some o ∧
      s.bind args opts = .error (.unsupportedOption o.1) := by
  obtain ⟨hall, hnone⟩ := not_or.1 ht
  rw [Option.not_isSome_iff_eq_none] at hnone
  obtain ⟨o, ho, hnew⟩ : ∃ o ∈ opts, o.1 ∉ s.options.map (·.1) := by simpa using hall
  have hsame : (fun o : String × Value ↦ !s.declares o.1) = fun o ↦ decide (o.1 ∉ s.options.map (·.1)) :=
    funext fun o ↦ not_declares o.1
  obtain ⟨first, hfirst⟩ : ∃ first, (opts.find? fun o ↦ o.1 ∉ s.options.map (·.1)) = some first :=
    Option.isSome_iff_exists.1 (List.find?_isSome.2 ⟨o, ho, decide_eq_true hnew⟩)
  refine ⟨first, hfirst, ?_⟩
  rw [bind, if_pos (accepts_iff.2 h), hnone, hsame, hfirst]

theorem bind_ok_iff : (∃ bound, s.bind args opts = .ok bound) ↔ s.Fits args.length ∧ s.Takes opts := by
  refine ⟨?_, fun ⟨h, ht⟩ ↦ ⟨_, bind_of_takes h ht⟩⟩
  rintro ⟨bound, hbound⟩
  by_cases h : s.Fits args.length
  · by_cases ht : s.Takes opts
    · exact ⟨h, ht⟩
    · obtain ⟨o, -, ho⟩ := bind_of_not_takes h ht
      rw [ho] at hbound
      cases hbound
  · rw [bind_of_not_fits h] at hbound
    cases hbound

theorem eq_dealt (hbound : s.bind args opts = .ok bound) : s.Fits args.length ∧ bound = s.dealt args opts := by
  obtain ⟨h, ht⟩ := bind_ok_iff.1 ⟨bound, hbound⟩
  rw [bind_of_takes h ht] at hbound
  exact ⟨h, (Except.ok.inj hbound).symm⟩

end Signature

/-! ## Destructuring -/

/-- Values are dealt out to targets as arguments are to parameters. -/
theorem distribute_eq {s : Signature} {vs : List Value} (h : s.Fits vs.length) :
    distribute s.params.length s.rest vs = .ok (s.place vs) := by
  rw [distribute.eq_def, Signature.place]
  cases hr : s.rest with
  | none =>
    rw [Signature.Fits, hr] at h
    exact if_pos h
  | some i =>
    rw [Signature.Fits, hr] at h
    rw [Signature.arity, hr]
    exact if_pos h

theorem distribute_ok_iff {s : Signature} {vs : List Value} :
    (∃ out, distribute s.params.length s.rest vs = .ok out) ↔ s.Fits vs.length := by
  refine ⟨?_, fun h ↦ ⟨_, distribute_eq h⟩⟩
  rintro ⟨out, hout⟩
  rw [distribute.eq_def] at hout
  rw [Signature.Fits]
  cases hr : s.rest <;> rw [hr] at hout <;> dsimp only at hout ⊢ <;> split at hout
  · assumption
  · cases hout
  · assumption
  · cases hout

/-! ## Variables of a call -/

namespace Store

variable {s : Store} {ns : NsId} {name : String} {v : Value} {pairs : List (String × Value)}

/-- A name is bound to a cell with the value in it. -/
def Holds (s : Store) (ns : NsId) (name : String) (v : Value) : Prop :=
  ∃ c, (s.bindings ns).find? name = some c ∧ s.cells[c.index]? = some v

theorem Holds.declare {other : String} {v' : Value} (h : s.Holds ns name v) (hns : ns.index < s.spaces.size)
    (hne : other ≠ name) : (s.declare ns other v').2.Holds ns name v := by
  obtain ⟨c, hc, hv⟩ := h
  refine ⟨c, ?_, ?_⟩
  · rw [bindings_declare_self hns, Bindings.find?_insert, if_neg hne, hc]
  · have hlt : c.index < s.cells.size := (Array.getElem?_eq_some_iff.1 hv).1
    have hpush : (s.cells.push v')[c.index]? = s.cells[c.index]? := by
      rw [Array.getElem?_push, if_neg (Nat.ne_of_lt hlt)]
    exact hpush.trans hv

theorem holds_declare (hns : ns.index < s.spaces.size) : (s.declare ns name v).2.Holds ns name v := by
  refine ⟨⟨s.cells.size⟩, ?_, Array.getElem?_push_size⟩
  rw [bindings_declare_self hns, Bindings.find?_insert, if_pos rfl]
  rfl

/-- Variables with other names leave one as it is. -/
theorem Holds.declareAll (h : s.Holds ns name v) (hns : ns.index < s.spaces.size)
    (hnew : name ∉ pairs.map (·.1)) : (s.declareAll ns pairs).Holds ns name v := by
  induction pairs generalizing s with
  | nil => exact h
  | cons p pairs ih =>
    rw [List.map_cons, List.mem_cons, not_or] at hnew
    rw [declareAll_cons]
    exact ih (h.declare hns (Ne.symm hnew.1)) (by rwa [declare_spaces_size]) hnew.2

theorem holds_declareAll (hns : ns.index < s.spaces.size) (hnames : (pairs.map (·.1)).Nodup)
    (h : (name, v) ∈ pairs) : (s.declareAll ns pairs).Holds ns name v := by
  induction pairs generalizing s with
  | nil => cases h
  | cons p pairs ih =>
    obtain ⟨hnew, hnames⟩ := List.nodup_cons.1 hnames
    have hns' : ns.index < (s.declare ns p.1 p.2).2.spaces.size := by rwa [declare_spaces_size]
    rw [declareAll_cons]
    rcases List.mem_cons.1 h with rfl | h
    · exact (holds_declare hns).declareAll hns' hnew
    · exact ih hns' hnames h

theorem names_declareAll (hns : ns.index < s.spaces.size)
    (hnames : ((s.bindings ns).names ++ pairs.map (·.1)).Nodup) :
    ((s.declareAll ns pairs).bindings ns).names = (s.bindings ns).names ++ pairs.map (·.1) := by
  induction pairs generalizing s with
  | nil => simp [declareAll]
  | cons p pairs ih =>
    have hnew : p.1 ∉ (s.bindings ns).names := fun hp ↦
      (List.nodup_append.1 hnames).2.2 p.1 hp p.1 List.mem_cons_self rfl
    have hdeclared : ((s.declare ns p.1 p.2).2.bindings ns).names = (s.bindings ns).names ++ [p.1] := by
      rw [bindings_declare_self hns, Bindings.names_insert, if_neg hnew]
    have hsplit : (s.bindings ns).names ++ (p :: pairs).map (·.1) =
        (s.bindings ns).names ++ [p.1] ++ pairs.map (·.1) := by simp
    rw [declareAll_cons, ih (by rwa [declare_spaces_size]) (by rwa [hdeclared, ← hsplit]), hdeclared, hsplit]

theorem holds_spaceOfPairs (hnames : (pairs.map (·.1)).Nodup) (h : (name, v) ∈ pairs) :
    (s.spaceOfPairs pairs).2.Holds (s.spaceOfPairs pairs).1 name v :=
  holds_declareAll (by simp) hnames h

theorem names_spaceOfPairs (hnames : (pairs.map (·.1)).Nodup) :
    ((s.spaceOfPairs pairs).2.bindings (s.spaceOfPairs pairs).1).names = pairs.map (·.1) := by
  have hempty : (s.newSpace []).2.bindings (s.newSpace []).1 = [] := bindings_newSpace_new []
  have hnew : (s.newSpace []).1.index < (s.newSpace []).2.spaces.size := by simp [newSpace]
  have hall := names_declareAll hnew (by rwa [hempty])
  rw [hempty] at hall
  exact hall

end Store

namespace Signature

variable {s : Signature} {args : List Value} {opts : Options} {bound : Args}

/-- The namespace of a call: every name of the signature is a variable in it, with the value bound to it, and there
are no others. -/
structure Locals (s : Signature) (bound : Args) (store : Store) (ns : NsId) : Prop where
  names : (store.bindings ns).names.Perm s.names
  param : ∀ (i : Nat) name v, s.params[i]? = some name → bound.positional[i]? = some v → store.Holds ns name v
  option : ∀ name v, bound.options.get? name = some v → store.Holds ns name v
  /-- The other options are the entries of a map. -/
  restOptions : ∀ name, s.restOptions = some name →
    store.Holds ns name (.map (bound.extra.map fun o ↦ (.str o.1, o.2)))

theorem names_callVariables (h : s.Bound args opts bound) :
    ((Engine.callVariables s bound).map (·.1)).Perm s.names := by
  rw [Engine.callVariables, names, List.map_append, List.map_append,
    List.map_fst_zip (Nat.le_of_eq h.positional.symm)]
  refine (h.options.append_left _).append (.of_eq ?_)
  cases s.restOptions <;> rfl

/-- Options of different names are the entries of the map made of them. -/
theorem ofPairs_options (h : (opts.map (·.1)).Nodup) :
    Value.ofPairs (opts.map fun o ↦ (.str o.1, o.2)) = .map (opts.map fun o ↦ (.str o.1, o.2)) := by
  have hkeys : (opts.map fun o ↦ (Value.str o.1, o.2)).Pairwise fun old new ↦ new.1.keyEq old.1 = false := by
    rw [List.pairwise_map]
    refine (List.pairwise_map.1 h).imp fun hne ↦ ?_
    rw [Value.keyEq, Value.sameSimple, beq_eq_false_iff_ne]
    · exact hne.symm
    all_goals simp
  rw [Value.ofPairs, Entries.ofPairs_eq hkeys]

theorem locals_spaceOfPairs (h : s.Bound args opts bound) (hopts : (opts.map (·.1)).Nodup)
    (hnames : s.names.Nodup) (store : Store) :
    s.Locals bound (store.spaceOfPairs (Engine.callVariables s bound)).2
      (store.spaceOfPairs (Engine.callVariables s bound)).1 := by
  have hperm := names_callVariables h
  have hnodup := hperm.nodup_iff.2 hnames
  refine ⟨?_, ?_, ?_, ?_⟩
  · rw [Store.names_spaceOfPairs hnodup]
    exact hperm
  · intro i name v hname hv
    refine Store.holds_spaceOfPairs hnodup (List.mem_append_left _ (List.mem_append_left _ ?_))
    exact List.mem_of_getElem? (List.getElem?_zip_eq_some.2 ⟨hname, hv⟩)
  · intro name v hv
    exact Store.holds_spaceOfPairs hnodup
      (List.mem_append_left _ (List.mem_append_right _ (Options.mem_of_get? hv)))
  · intro name hname
    refine Store.holds_spaceOfPairs hnodup (List.mem_append_right _ ?_)
    have hextra : (bound.extra.map (·.1)).Nodup := by
      rw [h.extra]
      exact hopts.sublist (List.filter_sublist.map _)
    rw [hname, ← ofPairs_options hextra]
    exact List.mem_singleton_self _

/-- The first thing a call of a closure does is to make the variables; then it runs the body. -/
theorem callClosure_goes {eng : Engine} {fm inside : Frame} {c : Closure} {k : Outcome → Prog} {w : World}
    (hbound : c.signature.bind args opts = .ok bound)
    (hinside : fm.inner (w.store.spaceOfPairs (Engine.callVariables c.signature bound)).1 c.captured c.source =
      .ok inside) :
    Prog.Goes 1 (eng.callClosure fm c args opts k) w (eng.run c.body inside k)
      { w with store := (w.store.spaceOfPairs (Engine.callVariables c.signature bound)).2 } := by
  have hcall : eng.callClosure fm c args opts k = .act (.newSpaceOf (Engine.callVariables c.signature bound))
      fun space ↦ (fm.enter space c.captured c.source >>= eng.run c.body) k := by
    rw [Engine.callClosure, hbound]
    rfl
  have henter : (fm.enter (w.store.spaceOfPairs (Engine.callVariables c.signature bound)).1 c.captured c.source >>=
      eng.run c.body) k = eng.run c.body inside k := by
    rw [Frame.enter, hinside]
    rfl
  rw [hcall, ← henter]
  exact .act rfl .refl

/-- **Binding is exact, and destructuring agrees with it.**  Arguments are accepted if and only if their number fits
and every option is taken, and a wrong number is reported before an option that is not.  What is accepted is dealt out
as `Bound` says.  If the names of a signature are pairwise different, a call of a closure comes to its body with
each of them a variable of the body's own namespace, holding what was bound to it.  Values are dealt out to as many
targets, with the rest at the same position, for the same numbers of values and to the same result. -/
theorem binding_exact (hrest : ∀ i, s.rest = some i → i < s.params.length)
    (hoptions : (s.options.map (·.1)).Nodup) (hopts : (opts.map (·.1)).Nodup) :
    ((∃ bound, s.bind args opts = .ok bound) ↔ s.Fits args.length ∧ s.Takes opts) ∧
      (¬ s.Fits args.length → s.bind args opts = .error (.arityMismatch "arguments" s.arityText args.length)) ∧
      (s.Fits args.length → ¬ s.Takes opts →
        ∃ o, (opts.find? fun o ↦ o.1 ∉ s.options.map (·.1)) = some o ∧
          s.bind args opts = .error (.unsupportedOption o.1)) ∧
      ((∃ vs, distribute s.params.length s.rest args = .ok vs) ↔ s.Fits args.length) ∧
      ∀ bound, s.bind args opts = .ok bound →
        s.Bound args opts bound ∧
          distribute s.params.length s.rest args = .ok bound.positional ∧
          (s.names.Nodup → ∀ (eng : Engine) (fm : Frame) (c : Closure) (w : World), c.signature = s →
            ∃ (space : NsId) (w' : World), s.Locals bound w'.store space ∧
              ∀ inside, fm.inner space c.captured c.source = .ok inside →
                inside.space = space ∧
                  ∀ k, Prog.Goes 1 (eng.callClosure fm c args opts k) w (eng.run c.body inside k) w') := by
  refine ⟨bind_ok_iff, bind_of_not_fits, bind_of_not_takes, distribute_ok_iff, fun bound hbound ↦ ?_⟩
  obtain ⟨hfits, hdealt⟩ := eq_dealt hbound
  have hexact : s.Bound args opts bound := by
    rw [hdealt]
    exact bound_dealt hrest hoptions hopts hfits
  refine ⟨hexact, ?_, ?_⟩
  · rw [hdealt]
    exact distribute_eq hfits
  · rintro hnames eng fm c w rfl
    refine ⟨_, { w with store := (w.store.spaceOfPairs (Engine.callVariables c.signature bound)).2 },
      locals_spaceOfPairs hexact hopts hnames w.store, fun inside hinside ↦ ⟨?_, fun k ↦ ?_⟩⟩
    · rw [Frame.inner] at hinside
      split at hinside <;> cases hinside
      rfl
    · exact callClosure_goes hbound hinside

/-- Two parameters around one for the rest, an option, and a parameter for all other options. -/
def restBetween : Signature :=
  ((((empty.param "first").restParam "middle").param "last").option "sep" (.str " ")).withRestOptions "others"

/-- Four arguments and two options of which one is declared. -/
theorem binding_exact_restBetween :
    let args : List Value := [.str "a", .str "b", .str "c", .str "d"]
    let opts : Options := [("x", .str "1"), ("sep", .str ",")]
    (∀ i, restBetween.rest = some i → i < restBetween.params.length) ∧
      (restBetween.options.map (·.1)).Nodup ∧ (opts.map (·.1)).Nodup ∧ restBetween.names.Nodup ∧
      ∃ bound, restBetween.bind args opts = .ok bound ∧
        bound.positional = [.str "a", .list [.str "b", .str "c"], .str "d"] ∧ bound.extra = [("x", .str "1")] ∧
        restBetween.Bound args opts bound ∧ distribute 3 (some 1) args = .ok bound.positional := by
  intro args opts
  have hrest : ∀ i, restBetween.rest = some i → i < restBetween.params.length := by
    rintro i hi
    cases hi
    decide
  have hoptions : (restBetween.options.map (·.1)).Nodup := by decide
  have hopts : (opts.map (·.1)).Nodup := by decide
  have hbind : restBetween.bind args opts = .ok (restBetween.dealt args opts) := rfl
  obtain ⟨-, -, -, -, hall⟩ := binding_exact hrest hoptions hopts
  obtain ⟨hbound, hdistribute, -⟩ := hall _ hbind
  exact ⟨hrest, hoptions, hopts, by decide, _, rfl, rfl, rfl, hbound, hdistribute⟩

end Signature

end ValueShell
