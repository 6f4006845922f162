import ValueShell.Proofs.Maps
import ValueShell.Proofs.ReadBack.Lowering

/-!
# Functions as keys

A closure is a key of its own, but a builtin function goes by its name.  For the commands that are there from the
start the name is enough: no two have the same one (`Builtin.name_injective`).  It is not enough for the functions
that are made while a script runs.  Each of them goes by the name of `constantly`, which made it, whatever the
values are that it puts.

`Value.functions_told_apart` says how far names go: two builtin functions that are one key do the same, unless they
are different ones that go by that name; and a map written with functions that do different things keeps all of them
as keys exactly if at most one of them goes by it.  `Value.functions_confused` has two that are not told apart.

To do the same (`Engine.CallsAlike`) is to be the same computation, so it is known without any world to run in.  That
two functions do different things is read off the first action in which they differ (`Frame.putAll_inj`).
-/

set_option autoImplicit false

namespace ValueShell

/-! ## Maps of different keys -/

namespace Entries

variable {es pairs : Entries} {key v : Value}

theorem length_insert_le : (es.insert key v).length ≤ es.length + 1 := by
  have hkeys : ∀ fs : Entries, fs.keys.length = fs.length := fun _ ↦ List.length_map _
  rw [← hkeys, keys_insert, ← hkeys es]
  split <;> simp

theorem ofPairs_concat : ofPairs (pairs ++ [(key, v)]) = (ofPairs pairs).insert key v :=
  List.foldl_concat ..

theorem length_ofPairs_le : (ofPairs pairs).length ≤ pairs.length := by
  induction pairs using List.reverseRecOn with
  | nil => exact Nat.le_refl 0
  | append_singleton pairs e ih =>
    obtain ⟨key, v⟩ := e
    rw [ofPairs_concat, List.length_append]
    exact length_insert_le.trans (Nat.add_le_add_right ih 1)

/-- Pairs are the entries of the map they make only if their keys are different. -/
theorem distinct_of_ofPairs_eq (hkeys : ∀ e ∈ pairs, e.1.WellKeyed) (h : ofPairs pairs = pairs) : pairs.Distinct := by
  induction pairs using List.reverseRecOn with
  | nil => exact .nil
  | append_singleton pairs e ih =>
    obtain ⟨key, v⟩ := e
    rw [List.forall_mem_append, List.forall_mem_singleton] at hkeys
    rw [ofPairs_concat] at h
    have hlen : ((ofPairs pairs).insert key v).keys.length = pairs.length + 1 := by
      rw [h, keys, List.length_map, List.length_append, List.length_singleton]
    rw [keys_insert] at hlen
    cases hany : (ofPairs pairs).keys.any key.keyEq with
    | true =>
      have hle : (ofPairs pairs).length ≤ pairs.length := length_ofPairs_le
      rw [hany, if_pos rfl, keys, List.length_map] at hlen
      omega
    | false =>
      have hnew : ∀ old ∈ ofPairs pairs, key.keyEq old.1 = false := by
        simpa [keys] using hany
      rw [insert_new hnew] at h
      have hpairs : ofPairs pairs = pairs := List.append_cancel_right h
      rw [hpairs] at hnew
      refine List.pairwise_append.2 ⟨ih hkeys.1 hpairs, List.pairwise_singleton _ _, ?_⟩
      rintro old hold _ hlast hsame
      rw [List.mem_singleton.1 hlast] at hsame
      exact Bool.false_ne_true ((hnew old hold).symm.trans ((hkeys.1 old hold).keyEq_symm hkeys.2 hsame))

theorem ofPairs_eq_iff (hkeys : ∀ e ∈ pairs, e.1.WellKeyed) : ofPairs pairs = pairs ↔ pairs.Distinct := by
  refine ⟨distinct_of_ofPairs_eq hkeys, fun h ↦ ofPairs_eq ?_⟩
  refine h.imp_of_mem fun {e e'} he he' hne ↦ ?_
  rw [← Bool.not_eq_true]
  exact fun hsame ↦ hne ((hkeys e' he').keyEq_symm (hkeys e he) hsame)

/-- In a map of different keys each of them leads to its value. -/
theorem get?_of_mem {e : Value × Value} (hkeys : ∀ e ∈ es, e.1.WellKeyed) (h : es.Distinct) (he : e ∈ es) :
    es.get? e.1 = some e.2 := by
  have hwell := hkeys e he
  have hone : es.Pairwise fun b c ↦ ¬ (e.1.keyEq b.1 = true ∧ e.1.keyEq c.1 = true) := by
    refine h.imp_of_mem fun {b c} hb hc hne ⟨hbe, hce⟩ ↦ hne ?_
    exact (hkeys b hb).keyEq_trans hwell (hkeys c hc) (hwell.keyEq_symm (hkeys b hb) hbe) hce
  rw [get?, find?_eq_some_of_pairwise hone he hwell.keyEq_refl]
  rfl

end Entries

/-! ## What is put -/

/-- Which values are put can be told from the computation, in whatever frame that is. -/
theorem Frame.putAll_inj {fm : Frame} {vs ws : List Value} (h : fm.putAll vs = fm.putAll ws) : vs = ws := by
  suffices hspent : ∀ ws, fm.putAll vs (fun _ ↦ .spent) = fm.putAll ws (fun _ ↦ .spent) → vs = ws from
    hspent ws (congrFun h _)
  clear h ws
  induction vs with
  | nil =>
    rintro (_ | ⟨w, ws⟩) h
    · rfl
    · cases h
  | cons v vs ih =>
    rintro (_ | ⟨w, ws⟩) h
    · cases h
    · -- Both sides put a value, and then go on with the others if it is taken.
      obtain ⟨hput, hnext⟩ := Prog.act.inj h
      cases hput
      rw [ih ws (congrFun (eq_of_heq hnext) (.ok ()))]

/-! ## Names of commands -/

theorem Builtin.ofName?_name (b : Builtin) : Builtin.ofName? b.name = some b := by
  cases b <;> rfl

/-- A command is known by its name. -/
theorem Builtin.name_injective : Function.Injective Builtin.name := by
  intro a b h
  have hfound := congrArg Builtin.ofName? h
  rw [ofName?_name, ofName?_name] at hfound
  exact Option.some.inj hfound

/-- In the frame, the two values do the same as commands, whatever they are called with. -/
def Engine.CallsAlike (eng : Engine) (fm : Frame) (f g : Value) : Prop :=
  ∀ (args : List Value) (opts : Options), eng.callValue fm f args opts = eng.callValue fm g args opts

theorem Engine.CallsAlike.of_eq {eng : Engine} {fm : Frame} {f g : Value} (h : f = g) : eng.CallsAlike fm f g := by
  rw [h]
  exact fun _ _ ↦ rfl

namespace Value

/-- The value is a function that the evaluator itself runs: a command, or what `constantly` makes. -/
def IsBuiltin (f : Value) : Prop :=
  f.builtinName?.isSome

/-- The value is a function that goes by the name of `constantly`: that command, or one that it made. -/
def IsConstantly (f : Value) : Prop :=
  f.builtinName? = some Builtin.constantly.name

variable {eng : Engine} {fm : Frame} {f g : Value}

theorem isBuiltin_cases (h : f.IsBuiltin) : (∃ b, f = .builtin b) ∨ ∃ vs, f = .constantly vs := by
  cases f with
  | builtin b => exact .inl ⟨b, rfl⟩
  | constantly vs => exact .inr ⟨vs, rfl⟩
  | _ => cases h

theorem isConstantly_cases (h : f.IsConstantly) :
    f = .builtin .constantly ∨ ∃ vs, f = .constantly vs := by
  have hbuiltin : f.IsBuiltin := by
    rw [IsBuiltin, h]
    rfl
  obtain ⟨b, rfl⟩ | hmade := isBuiltin_cases hbuiltin
  · exact .inl (congrArg _ (Builtin.name_injective (Option.some.inj h)))
  · exact .inr hmade

theorem IsBuiltin.atom? (h : f.IsBuiltin) : f.atom?.isSome ∧ f.atom? = f.builtinName?.map .command := by
  obtain ⟨b, rfl⟩ | ⟨vs, rfl⟩ := isBuiltin_cases h <;> exact ⟨rfl, rfl⟩

theorem IsBuiltin.wellKeyed (h : f.IsBuiltin) : f.WellKeyed := by
  obtain ⟨b, rfl⟩ | ⟨vs, rfl⟩ := isBuiltin_cases h <;> trivial

/-- Builtin functions are keys by their names. -/
theorem IsBuiltin.keyEq_iff (hf : f.IsBuiltin) (hg : g.IsBuiltin) :
    f.keyEq g = true ↔ f.builtinName? = g.builtinName? := by
  rw [keyEq_of_atom hf.atom?.1, hf.atom?.2, hg.atom?.2]
  exact (Option.map_injective fun _ _ ↦ Atom.command.inj).eq_iff

/-- Names that are not that of `constantly` stand for one function each. -/
theorem IsBuiltin.eq_of_keyEq (hf : f.IsBuiltin) (hg : g.IsBuiltin) (h : f.keyEq g = true)
    (hone : ¬ (f.IsConstantly ∧ g.IsConstantly)) : f = g := by
  have hname := (hf.keyEq_iff hg).1 h
  have hnot : ¬ f.IsConstantly := fun hfc ↦ hone ⟨hfc, hname.symm.trans hfc⟩
  obtain ⟨b, rfl⟩ | ⟨vs, rfl⟩ := isBuiltin_cases hf
  · obtain ⟨b', rfl⟩ | ⟨ws, rfl⟩ := isBuiltin_cases hg
    · exact congrArg _ (Builtin.name_injective (Option.some.inj hname))
    · exact absurd hname hnot
  · exact absurd rfl hnot

/-- No two functions that go by the name of `constantly` do the same, in whatever frame. -/
theorem IsConstantly.eq_of_callsAlike (hf : f.IsConstantly) (hg : g.IsConstantly) (h : eng.CallsAlike fm f g) :
    f = g := by
  -- The command takes any arguments, and what it makes takes none.
  have hmaker : ∀ vs, eng.callValue fm (.builtin .constantly) [.nil] [] ≠
      eng.callValue fm (.constantly vs) [.nil] [] := by
    intro vs hsame
    cases congrFun hsame fun _ ↦ .spent
  obtain rfl | ⟨vs, rfl⟩ := isConstantly_cases hf <;> obtain rfl | ⟨ws, rfl⟩ := isConstantly_cases hg
  · rfl
  · exact absurd (h [.nil] []) (hmaker ws)
  · exact absurd (h [.nil] []).symm (hmaker vs)
  · have hputs : fm.putAll vs = fm.putAll ws := h [] []
    rw [Frame.putAll_inj hputs]

/-- **Functions with different names are told apart as keys.**  Two builtin functions that are one key do the same,
unless they are two that go by the name of `constantly`, and then they do not.  A map written with builtin functions
that do different things is made of all the pairs, in their order, exactly if no two of the functions go by that name;
and then each of them leads to its own value. -/
theorem functions_told_apart {pairs : Entries} (hf : f.IsBuiltin) (hg : g.IsBuiltin)
    (hpairs : ∀ e ∈ pairs, e.1.IsBuiltin) (hdiffer : pairs.Pairwise fun e e' ↦ ¬ eng.CallsAlike fm e.1 e'.1) :
    (f.keyEq g = true → (eng.CallsAlike fm f g ↔ (f.IsConstantly → g.IsConstantly → f = g))) ∧
      (Value.ofPairs pairs = .map pairs ↔
        pairs.Pairwise fun e e' ↦ ¬ (e.1.IsConstantly ∧ e'.1.IsConstantly)) ∧
      (Value.ofPairs pairs = .map pairs → ∀ e ∈ pairs, pairs.get? e.1 = some e.2) := by
  have hwell : ∀ e ∈ pairs, e.1.WellKeyed := fun e he ↦ (hpairs e he).wellKeyed
  have hdistinct : Value.ofPairs pairs = .map pairs ↔ pairs.Distinct := by
    rw [Value.ofPairs, Value.map.injEq, Entries.ofPairs_eq_iff hwell]
  refine ⟨fun hsame ↦ ⟨fun h hfc hgc ↦ hfc.eq_of_callsAlike hgc h, fun h ↦ ?_⟩,
    hdistinct.trans ⟨fun h ↦ ?_, fun h ↦ ?_⟩, fun h e he ↦ Entries.get?_of_mem hwell (hdistinct.1 h) he⟩
  · by_cases hone : f.IsConstantly ∧ g.IsConstantly
    · exact .of_eq (h hone.1 hone.2)
    · exact .of_eq (hf.eq_of_keyEq hg hsame hone)
  · refine h.imp_of_mem fun {e e'} he he' hne ⟨hc, hc'⟩ ↦ hne ?_
    exact ((hpairs e he).keyEq_iff (hpairs e' he')).2 (hc.trans hc'.symm)
  · refine (h.and hdiffer).imp_of_mem fun {e e'} he he' ⟨hone, hne⟩ hsame ↦ hne ?_
    exact .of_eq ((hpairs e he).eq_of_keyEq (hpairs e' he') hsame hone)

/-- Two commands and one function made by `constantly` are three keys. -/
theorem functions_told_apart_atMostOne :
    let nowhere : Outlet := ⟨.discard, .discard⟩
    let fm : Frame := .top .default (World.fresh .default).global ⟨⟨none, none⟩, nowhere, nowhere⟩ default
    let made : Value := .constantly [.str "a"]
    let pairs : Entries := [(.builtin .put, .str "1"), (.builtin .nop, .str "2"), (made, .str "3")]
    made.IsBuiltin ∧ (∀ e ∈ pairs, e.1.IsBuiltin) ∧
      (pairs.Pairwise fun e e' ↦ ¬ (engine 0).CallsAlike fm e.1 e'.1) ∧
      ¬ (engine 0).CallsAlike fm made (.builtin .constantly) ∧ Value.ofPairs pairs = .map pairs ∧
      pairs.get? made = some (.str "3") := by
  intro nowhere fm made pairs
  have hmade : made.IsBuiltin := rfl
  have hpairs : ∀ e ∈ pairs, e.1.IsBuiltin := by
    simp [pairs, made, IsBuiltin, builtinName?]
  have hputNop : ¬ (engine 0).CallsAlike fm (.builtin .put) (.builtin .nop) := by
    intro h
    cases congrFun (h [.nil] []) fun _ ↦ .spent
  have hputMade : ¬ (engine 0).CallsAlike fm (.builtin .put) made := by
    intro h
    cases congrFun (h [] []) fun _ ↦ .spent
  have hnopMade : ¬ (engine 0).CallsAlike fm (.builtin .nop) made := by
    intro h
    cases congrFun (h [] []) fun _ ↦ .spent
  have hdiffer : pairs.Pairwise fun e e' ↦ ¬ (engine 0).CallsAlike fm e.1 e'.1 := by
    simp [pairs, hputNop, hputMade, hnopMade]
  obtain ⟨hsame, hkept, hreads⟩ := functions_told_apart (g := .builtin .constantly) hmade rfl hpairs hdiffer
  have hall : Value.ofPairs pairs = .map pairs := hkept.2 (by
    simp [pairs, made, IsConstantly, builtinName?, Builtin.name])
  refine ⟨hmade, hpairs, hdiffer, fun h ↦ ?_, hall, hreads hall (made, .str "3") (by simp [pairs])⟩
  have hequal : made = .builtin .constantly := (hsame (by decide)).1 h rfl rfl
  simp [made] at hequal

end Value

/-! ## Functions that are taken for one -/

/-- What `constantly` makes of a value is a function that comes to it. -/
theorem Builtin.puts_constantly (v : Value) : Builtin.constantly.Puts v (.constantly [v]) := by
  intro n fm w
  rw [Engine.callValue]
  exact .bind (.pure _ _) Frame.offers_put

theorem Value.offers_constantly (v : Value) (n : Nat) (fm : Frame) (w : World) :
    ((engine n).callValue fm (.constantly [v]) [] []).Offers w fm.wiring.output.values v w := by
  rw [Engine.callValue]
  exact .bind (.pure () _) Frame.offers_putAll

/-- **Functions that put different values can be one key.**  Two are made by `constantly`, for two texts; they do
different things in every frame, and of a map with both as keys one entry is left, where the first leads to what was
meant for the second. -/
theorem Value.functions_confused :
    let f : Value := .constantly [.str "a"]
    let g : Value := .constantly [.str "b"]
    Builtin.constantly.Puts (.str "a") f ∧ Builtin.constantly.Puts (.str "b") g ∧
      (∀ n fm w, ((engine n).callValue fm f [] []).Offers w fm.wiring.output.values (.str "a") w) ∧
      (∀ n fm w, ((engine n).callValue fm g [] []).Offers w fm.wiring.output.values (.str "b") w) ∧
      (∀ eng fm, ¬ Engine.CallsAlike eng fm f g) ∧ f.keyEq g = true ∧
      Value.ofPairs [(f, .str "1"), (g, .str "2")] = .map [(f, .str "2")] := by
  intro f g
  refine ⟨Builtin.puts_constantly _, Builtin.puts_constantly _, offers_constantly _, offers_constantly _, ?_, ?_, rfl⟩
  · intro eng fm h
    have hf : f.IsConstantly := rfl
    have hg : g.IsConstantly := rfl
    have hsame : f = g := hf.eq_of_callsAlike hg h
    simp [f, g] at hsame
  · decide

end ValueShell
