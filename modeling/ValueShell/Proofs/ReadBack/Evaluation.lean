import Mathlib.Data.List.Forall2
import ValueShell.Proofs.Alone

/-!
# Evaluating written values

Written values use five names: the three constants, `num` for numbers, and `put` by whoever wants to see the
value.  A frame that understands these (`Frame.Understands`) evaluates the words of written values alone and
in any world, and all that is left behind are empty collections, one for each number (`World.spare`).

`Expr.Yields` says that of a word and its value, and there is a rule for each kind of word.  A command with one
argument comes to the value it puts (`Op.exec_command`), be it `num` inside a word or `put` around it.
-/

set_option autoImplicit false

namespace ValueShell

/-! ## The world between two words -/

/-- The world with more collections, all of them empty. -/
def World.spare (w : World) (k : Nat) : World :=
  { w with
    streams := { w.streams with captures := w.streams.captures ++ Array.replicate k Capture.empty } }

namespace World

variable (w : World) (j k : Nat) (v : Value)

@[simp] theorem spare_zero : w.spare 0 = w := by
  simp [spare]

@[simp] theorem spare_spare : (w.spare j).spare k = w.spare (j + k) := by
  simp [spare, Array.append_assoc, Array.replicate_append_replicate]

@[simp] theorem spare_find? (space : NsId) (outer : List Bindings) (name : String) :
    (w.spare k).find? space outer name = w.find? space outer name :=
  rfl

@[simp] theorem spare_store : (w.spare k).store = w.store :=
  rfl

@[simp] theorem spare_interrupt : (w.spare k).interrupt = w.interrupt :=
  rfl

theorem newCapture_spare :
    Act.newCapture.perform w = (⟨w.streams.captures.size⟩, w.spare 1) := by
  have hpush : w.streams.captures.push Capture.empty =
      w.streams.captures ++ Array.replicate 1 Capture.empty := by
    simp
  rw [Act.perform, Streams.addCapture, hpush, spare]

/-- What is put into one of the spare collections can be taken out again. -/
theorem take_spare :
    (Act.takeCapture ⟨w.streams.captures.size⟩).perform
      ((w.spare (k + 1)).put (.capture ⟨w.streams.captures.size⟩) v).2 = ([v], w.spare (k + 1)) := by
  have hcaptures : ((w.streams.captures ++ Array.replicate (k + 1) Capture.empty).modify
      w.streams.captures.size (·.put v)).setIfInBounds w.streams.captures.size Capture.empty =
        w.streams.captures ++ Array.replicate (k + 1) Capture.empty := by
    refine Array.ext_getElem? fun i ↦ ?_
    by_cases h : w.streams.captures.size = i
    · simp [← h]
    · rw [Array.getElem?_setIfInBounds_ne h, Array.getElem?_modify, if_neg h]
  have htaken : ((w.streams.captures ++ Array.replicate (k + 1) Capture.empty).modify
      w.streams.captures.size (·.put v)).getD w.streams.captures.size Capture.empty =
        Capture.empty.put v := by
    simp [Array.getD, Array.getElem_modify]
  rw [put, Act.perform, Streams.takeCapture, spare]
  dsimp only
  rw [hcaptures, htaken]
  rfl

end World

/-! ## Frames that understand written values -/

/-- In the world, the variable has the value in the frame. -/
def Frame.Means (fm : Frame) (w : World) (name : String) (v : Value) : Prop :=
  ∃ c, w.find? fm.space fm.outer name = some c ∧ w.store.read c = v

/-- The variables that written values use, and what they are meant to be. -/
def vocabulary : List (String × Value) :=
  [("nil", .nil), ("true", .bool true), ("false", .bool false),
    (Name.function "num", .builtin .num), (Name.function "put", .builtin .put)]

/-- The frame has the vocabulary of written values, and nobody interrupts. -/
structure Frame.Understands (fm : Frame) (w : World) : Prop where
  means : ∀ entry ∈ vocabulary, fm.Means w entry.1 entry.2
  calm : w.interrupt.flag = false

namespace Frame

variable {fm : Frame} {w : World} {name : String} {v : Value} {k : Nat}

theorem Understands.spare (h : fm.Understands w) (k : Nat) : fm.Understands (w.spare k) :=
  ⟨h.means, h.calm⟩

/-- What a frame understands does not depend on its wiring. -/
theorem Understands.wired (h : fm.Understands w) (wiring : Wiring) :
    (fm.withWiring wiring).Understands w :=
  ⟨h.means, h.calm⟩

theorem gives_value (h : fm.Means w name v) : (fm.value name).Gives w v w := by
  obtain ⟨c, hfind, hread⟩ := h
  have hcell : (fm.find? name).Gives w (some c) w := by
    have hact := Comp.Gives.act (w := w) (a := .find fm.space fm.outer name) rfl
    rwa [Act.perform, hfind] at hact
  have hvalue : (fm.value? name).Gives w (some v) w := by
    refine hcell.bind (.bind (.act rfl) ?_)
    rw [← hread]
    exact .pure _ _
  exact hvalue.bind (.pure _ _)

theorem gives_checkInterrupt (h : w.interrupt.flag = false) : fm.checkInterrupt.Gives w () w := by
  refine .bind (.act rfl) ?_
  rw [Act.perform, h]
  exact .pure _ _

theorem offers_put : (fm.put v).Offers w fm.wiring.output.values v w :=
  ⟨0, fun _ ↦ ⟨_, .refl, rfl⟩⟩

theorem offers_putAll : (fm.putAll [v]).Offers w fm.wiring.output.values v w :=
  offers_put.bind_last rfl

/-- A value that comes out between parentheses is what is collected. -/
theorem gives_captured {f : Frame → Comp Unit}
    (h : (f (fm.withWiring { fm.wiring with output := .capture ⟨w.streams.captures.size⟩ })).Delivers
      (w.spare 1) (.capture ⟨w.streams.captures.size⟩) v (w.spare (k + 1))) :
    (fm.captured f).Gives w [v] (w.spare (k + 1)) := by
  refine .bind (.act rfl) ?_
  rw [World.newCapture_spare]
  refine .bind (h.gives rfl rfl) ?_
  have htake := Comp.Gives.act (w := ((w.spare (k + 1)).put (.capture ⟨w.streams.captures.size⟩) v).2)
    (a := .takeCapture ⟨w.streams.captures.size⟩) rfl
  rwa [World.take_spare] at htake

end Frame

/-! ## Words -/

/-- In every frame that understands written values, the word gives the value. -/
def Expr.Yields (e : Expr) (v : Value) : Prop :=
  ∀ (n : Nat) (fm : Frame) (w : World), fm.Understands w →
    ∃ k, (e.eval (engine (n + 1)) fm).Gives w [v] (w.spare k)

namespace Expr

variable {v : Value} {es : List Expr} {vs : List Value} {pairs : List (Expr × Expr)}
  {entries : List (Value × Value)}

theorem yields_literal (text : String) : (Expr.literal text).Yields (.str text) :=
  fun _ _ w _ ↦ ⟨0, by rw [Expr.eval, w.spare_zero]; exact .pure _ _⟩

theorem yields_variable {name : String} (h : (name, v) ∈ vocabulary) :
    (Expr.variable name false).Yields v := by
  intro n fm w hfm
  refine ⟨0, ?_⟩
  rw [Expr.eval, w.spare_zero]
  exact (Frame.gives_value (hfm.means _ h)).bind (.pure _ _)

/-- Every word yields its own value, in order. -/
abbrev YieldAll : List Expr → List Value → Prop :=
  List.Forall₂ Expr.Yields

/-- Every key and every value of a map yields its own value, in order. -/
abbrev YieldPairs : List (Expr × Expr) → List (Value × Value) → Prop :=
  List.Forall₂ fun e entry ↦ e.1.Yields entry.1 ∧ e.2.Yields entry.2

theorem gives_evalAll (h : YieldAll es vs) (n : Nat) (fm : Frame) (w : World) (hfm : fm.Understands w) :
    ∃ k, (evalAll (engine (n + 1)) fm es).Gives w vs (w.spare k) := by
  induction h generalizing w with
  | nil =>
    refine ⟨0, ?_⟩
    rw [evalAll, w.spare_zero]
    exact .pure _ _
  | cons he _ ih =>
    obtain ⟨j, hj⟩ := he n fm w hfm
    obtain ⟨k, hk⟩ := ih _ (hfm.spare j)
    rw [World.spare_spare] at hk
    rw [evalAll]
    exact ⟨j + k, hj.bind (hk.bind (.pure _ _))⟩

theorem gives_evalPairs (h : YieldPairs pairs entries) (n : Nat) (fm : Frame) (w : World)
    (hfm : fm.Understands w) :
    ∃ k, (evalPairs (engine (n + 1)) fm pairs).Gives w entries (w.spare k) := by
  induction h generalizing w with
  | nil =>
    refine ⟨0, ?_⟩
    rw [evalPairs, w.spare_zero]
    exact .pure _ _
  | cons he _ ih =>
    obtain ⟨i, hi⟩ := he.1 n fm w hfm
    obtain ⟨j, hj⟩ := he.2 n fm (w.spare i) (hfm.spare i)
    obtain ⟨k, hk⟩ := ih _ ((hfm.spare i).spare j)
    rw [World.spare_spare] at hj hk
    rw [World.spare_spare] at hk
    rw [evalPairs]
    refine ⟨i + (j + k), .bind hi (.bind (.pure _ _) (.bind hj (.bind (.pure _ _) (.bind ?_ (.pure _ _)))))⟩
    rwa [← Nat.add_assoc]

theorem yields_list (h : YieldAll es vs) : (Expr.list es).Yields (.list vs) := by
  intro n fm w hfm
  obtain ⟨k, hk⟩ := gives_evalAll h n fm w hfm
  refine ⟨k, ?_⟩
  rw [Expr.eval]
  exact hk.bind (.pure _ _)

theorem yields_map (h : YieldPairs pairs entries) :
    (Expr.map pairs).Yields (Value.ofPairs entries) := by
  intro n fm w hfm
  obtain ⟨k, hk⟩ := gives_evalPairs h n fm w hfm
  refine ⟨k, ?_⟩
  rw [Expr.eval]
  exact hk.bind (.pure _ _)

end Expr

/-! ## Commands with one argument -/

/-- A builtin command that puts one value for its argument. -/
def Builtin.Puts (b : Builtin) (arg v : Value) : Prop :=
  ∀ (n : Nat) (fm : Frame) (w : World),
    ((engine n).callValue fm (.builtin b) [arg] []).Offers w fm.wiring.output.values v w

theorem Builtin.puts_put (v : Value) : Builtin.put.Puts v v := by
  intro n fm w
  rw [Engine.callValue]
  exact .bind (.pure _ _) Frame.offers_putAll

theorem Builtin.puts_num {text : String} {x : Num} (h : Num.read? text = some x) :
    Builtin.num.Puts (.str text) (.num x) := by
  intro n fm w
  have harg : (fm.numArg (.str text)).Gives w x w := by
    rw [Frame.numArg, Value.toNum?, h]
    exact .pure _ _
  rw [Engine.callValue]
  exact .bind (.pure _ _) (.bind harg Frame.offers_put)

/-- A chunk of one command with one argument. -/
def Op.command (site : CallSite) (var : String) (e : Expr) : Op :=
  .chunk [.form site (.function var) [e] [] []]

variable (site : CallSite) {var : String} {e : Expr} {b : Builtin} {arg v : Value}

/-- A command with one argument comes to the value the builtin puts. -/
theorem Op.exec_command (hvar : (var, .builtin b) ∈ vocabulary) (he : e.Yields arg) (hb : b.Puts arg v)
    (n : Nat) {fm : Frame} {w : World} (hfm : fm.Understands w) :
    ∃ k, ((Op.command site var e).exec (engine (n + 1)) fm).Delivers w fm.wiring.output.values v
      (w.spare k) := by
  obtain ⟨k, hk⟩ := Expr.gives_evalAll (.cons he .nil) n { fm with site := some site } w
    ⟨hfm.means, hfm.calm⟩
  have hhead : (Head.eval (engine (n + 1)) { fm with site := some site } (.function var)).Gives w
      (.builtin b) w := by
    rw [Head.eval]
    exact Frame.gives_value (hfm.means _ hvar)
  have hform : ((Op.form site (.function var) [e] [] []).exec (engine (n + 1)) fm).Delivers w
      fm.wiring.output.values v (w.spare k) := by
    rw [Op.exec]
    refine .bind (.note _ w) (.noting (.mapFailure (.bind (Frame.gives_checkInterrupt hfm.calm) ?_) _) _)
    refine .bind hhead (.bind hk ?_)
    rw [evalOptions, redirected]
    exact .bind (.pure _ _) (.bind (.pure _ _) (.of_offers (hb n _ _)))
  refine ⟨k, ?_⟩
  rw [Op.command, Op.exec, execChunk]
  refine .bind (.note _ w) (.bind (Frame.gives_checkInterrupt hfm.calm) (hform.bind_last ?_))
  rw [execChunk]

/-- A number between parentheses. -/
theorem Expr.yields_number {text : String} {x : Num} (h : Num.read? text = some x) :
    (Expr.capture (.command site (Name.function "num") (.literal text))).Yields (.num x) := by
  intro n fm w hfm
  have hinner := (hfm.spare 1).wired
    { fm.wiring with output := .capture ⟨w.streams.captures.size⟩ }
  have hnum : (Name.function "num", Value.builtin .num) ∈ vocabulary := by
    simp [vocabulary]
  obtain ⟨k, hk⟩ := Op.exec_command site hnum (yields_literal text) (Builtin.puts_num h) n hinner
  rw [World.spare_spare, Nat.add_comm 1 k] at hk
  refine ⟨k + 1, ?_⟩
  rw [Expr.eval]
  exact Frame.gives_captured hk

end ValueShell
