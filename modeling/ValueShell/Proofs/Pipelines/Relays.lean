import ValueShell.Proofs.ReadBack.Evaluation

/-!
# Stages that pass values on

A stage of a pipeline can be one that puts given values on its output, or one that puts there whatever it reads.
`Prog.Relays` says that a program is such a stage, in the middle of its work: what it still has to put, and how many
more values it is able to read.  It is a statement about one stage alone, with nothing said of when its acts are done.

`Comp.Forwards` says of a computation that it puts given values, and has a rule for each way to put computations
together.  A `put` whose words can be looked up is such a stage (`Op.relays_put`), and so is `all`
(`Op.relays_all`), which reads in rounds (`Comp.Copies`).
-/

set_option autoImplicit false

namespace ValueShell

/-! ## What does not change meanwhile -/

/-- Names lead to the same values, and there is no news of an interrupt. -/
structure World.Alike (w w' : World) : Prop where
  store : w'.store = w.store
  builtin : w'.builtin = w.builtin
  interrupt : w'.interrupt = w.interrupt

namespace World.Alike

variable {w w' w'' : World}

theorem refl (w : World) : w.Alike w :=
  ⟨rfl, rfl, rfl⟩

theorem trans (h : w.Alike w') (h' : w'.Alike w'') : w.Alike w'' :=
  ⟨h'.store.trans h.store, h'.builtin.trans h.builtin, h'.interrupt.trans h.interrupt⟩

end World.Alike

namespace Act

/-- Does the act only look at what names lead to, and at the interrupt? -/
def isLook : Act → Bool
  | find .. | read _ | interrupted | interruptLine => true
  | _ => false

variable {a : Act} {w w' : World}

theorem perform_of_isLook (h : a.isLook = true) (hw : w.Alike w') : a.perform w' = ((a.perform w).1, w') := by
  cases a with
  | find space outer name => simp only [perform, World.find?, World.chain, hw.store, hw.builtin]
  | read c => simp only [perform, hw.store]
  | interrupted => simp only [perform, hw.interrupt]
  | interruptLine => simp only [perform, hw.interrupt]
  | _ => cases h

end Act

/-! ## Programs -/

/-- Where a stage stands: the pipes it reads and writes, and the sink its values go to. -/
structure Post where
  reads : Option Pipe
  writes : Option Pipe
  sink : ValueSink

/-- At its post, in worlds like this one, the program puts the values it has, in their order, and reads on as far as
it is able to, `toRead` more values at most; each value it reads it puts before it reads the next.  When it has been
told that no more will come, or if it reads nothing anyway, it ends the stage, and ends well. -/
inductive Prog.Relays (w : World) (post : Post) : (held : List Value) → (toRead : Option Nat) → Prog → Prop
  | note {held : List Value} {toRead : Option Nat} {n : Note} {p : Prog} (h : Relays w post held toRead p) :
      Relays w post held toRead (.note n p)
  | look {held : List Value} {toRead : Option Nat} {a : Act} {next : a.Reply → Prog} (hlook : a.isLook = true)
      (h : Relays w post held toRead (next (a.perform w).1)) : Relays w post held toRead (.act a next)
  | put {v : Value} {held : List Value} {toRead : Option Nat} {next : Except Reason Unit → Prog}
      (h : Relays w post held toRead (next (.ok ()))) :
      Relays w post (v :: held) toRead (.act (.put post.sink v) next)
  | receive {pipe : Pipe} {line n : Nat} {next : World.InputEvent → Prog} (hreads : post.reads = some pipe)
      (hline : w.interrupt.dead line = false)
      (hvalue : ∀ v m, n = m + 1 → Relays w post [v] (some m) (next (.value v)))
      (hdone : Relays w post [] none (next .valuesDone)) :
      Relays w post [] (some n) (.act (.receive ⟨some pipe.values, some pipe.bytes⟩ line) next)
  | drain {pipe : Pipe} {line : Nat} {next : World.InputEvent → Prog} (hreads : post.reads = some pipe)
      (h : Relays w post [] none (next .bytesDone)) :
      Relays w post [] none (.act (.receive ⟨none, some pipe.bytes⟩ line) next)
  | close {next : Unit → Prog} (h : next () = .done (.ok ())) :
      Relays w post [] none (.act (.endStage post.reads post.writes) next)

/-! ## Computations -/

/-- The computation puts the values and then gives `a`, with anything behind it. -/
def Comp.Forwards {α : Type} (w : World) (post : Post) (m : Comp α) (vs : List Value) (a : α) : Prop :=
  ∀ k held toRead, Prog.Relays w post held toRead (k (.ok a)) → Prog.Relays w post (vs ++ held) toRead (m k)

/-- The computation puts whatever it reads, up to `n` values. -/
def Comp.Copies (w : World) (post : Post) (m : Comp Unit) (n : Nat) : Prop :=
  ∀ k, Prog.Relays w post [] none (k (.ok ())) → Prog.Relays w post [] (some n) (m k)

variable {α β : Type} {w : World} {post : Post}

namespace Comp.Forwards

variable {m : Comp α} {f : α → Comp β} {a : α} {b : β} {vs vs' : List Value}

theorem pure (a : α) : Forwards w post (Pure.pure a) [] a :=
  fun _ _ _ h ↦ h

theorem bind (h : m.Forwards w post vs a) (hf : (f a).Forwards w post vs' b) :
    (m >>= f).Forwards w post (vs ++ vs') b := by
  intro k held toRead hk
  rw [List.append_assoc]
  exact h _ _ _ (hf k held toRead hk)

/-- What comes behind a computation that puts nothing. -/
theorem silent (h : m.Forwards w post [] a) (hf : (f a).Forwards w post vs b) :
    (m >>= f).Forwards w post vs b :=
  h.bind hf

theorem look {a : Act} (h : a.isLook = true) : (Comp.act a).Forwards w post [] (a.perform w).1 :=
  fun _ _ _ hk ↦ .look h hk

theorem note (n : Note) : (Comp.note n).Forwards w post [] () :=
  fun _ _ _ hk ↦ .note hk

theorem mapFailure (h : m.Forwards w post vs a) (g : Failure → Failure) : (m.mapFailure g).Forwards w post vs a :=
  fun _ held toRead hk ↦ h _ held toRead hk

theorem noting (h : m.Forwards w post vs a) (n : Outcome → Note) : (m.noting n).Forwards w post vs a :=
  fun _ held toRead hk ↦ h _ held toRead (.note hk)

end Comp.Forwards

namespace Comp.Copies

variable {m : Comp α} {f : α → Comp Unit} {m₁ : Comp Unit} {a : α} {n : Nat}

/-- What comes behind a computation that puts nothing. -/
theorem silent (h : m.Forwards w post [] a) (hf : (f a).Copies w post n) : (m >>= f).Copies w post n :=
  fun k hk ↦ h _ _ _ (hf k hk)

theorem mapFailure (h : m₁.Copies w post n) (g : Failure → Failure) : (m₁.mapFailure g).Copies w post n :=
  fun _ hk ↦ h _ hk

theorem noting (h : m₁.Copies w post n) (g : Outcome → Note) : (m₁.noting g).Copies w post n :=
  fun _ hk ↦ h _ (.note hk)

end Comp.Copies

/-! ## Frames -/

namespace Frame

variable {fm : Frame} {name : String} {v : Value}

theorem forwards_checkInterrupt (h : w.interrupt.flag = false) : fm.checkInterrupt.Forwards w post [] () := by
  refine .silent (.look rfl) ?_
  rw [Act.perform, h]
  exact .pure _

theorem forwards_atSite {f : Frame → Comp α} {site : CallSite} {vs : List Value} {a : α}
    (h : (f { fm with site := some site }).Forwards w post vs a) : (fm.atSite site f).Forwards w post vs a := by
  refine Comp.Forwards.silent (.note _) ?_
  exact (h.mapFailure _).noting _

theorem copies_atSite {f : Frame → Comp Unit} {site : CallSite} {n : Nat}
    (h : (f { fm with site := some site }).Copies w post n) : (fm.atSite site f).Copies w post n := by
  refine Comp.Copies.silent (.note _) ?_
  exact (h.mapFailure _).noting _

theorem forwards_value (h : fm.Means w name v) : (fm.value name).Forwards w post [] v := by
  obtain ⟨c, hfind, hread⟩ := h
  have hcell : (fm.find? name).Forwards w post [] (some c) := by
    have hlook : (fm.find? name).Forwards w post [] (w.find? fm.space fm.outer name) := .look rfl
    rwa [hfind] at hlook
  have hvalue : (fm.value? name).Forwards w post [] (some v) := by
    refine hcell.silent (.silent (.look rfl) ?_)
    rw [← hread]
    exact .pure _
  exact hvalue.silent (.pure _)

theorem forwards_put (h : fm.wiring.output.values = post.sink) (v : Value) :
    (fm.put v).Forwards w post [v] () := by
  intro k held toRead hk
  have hput : Prog.Relays w post ([v] ++ held) toRead
      (.act (.put post.sink v) fun r ↦ fm.check r k) := .put hk
  rw [← h] at hput
  exact hput

theorem forwards_putAll (h : fm.wiring.output.values = post.sink) (vs : List Value) :
    (fm.putAll vs).Forwards w post vs () := by
  induction vs with
  | nil => exact .pure _
  | cons v vs ih => exact (forwards_put h v).bind ih

/-- Reading takes a round for each value, one each for the ends of the two lanes, and one that finds them at their
ends. -/
theorem copies_iterate (h : fm.wiring.output.values = post.sink) {pipe : Pipe} (hreads : post.reads = some pipe)
    {line : Nat} (hline : w.interrupt.dead line = false) (n : Nat) :
    (Inlet.iterate line fm.put (n + 3) ⟨⟨some pipe.values, some pipe.bytes⟩, []⟩).Copies w post n := by
  induction n with
  | zero =>
    intro k hk
    exact .receive hreads hline (fun _ _ hn ↦ by cases hn) (.drain hreads hk)
  | succ n ih =>
    intro k hk
    refine .receive hreads hline (fun v m hn ↦ ?_) (.drain hreads hk)
    obtain rfl := Nat.succ.inj hn
    exact forwards_put h v _ _ _ (ih k hk)

theorem copies_iterateInput (h : fm.wiring.output.values = post.sink) {pipe : Pipe} (hreads : post.reads = some pipe)
    (hinput : fm.wiring.input = ⟨some pipe.values, some pipe.bytes⟩) (hline : w.interrupt.live = true) (n : Nat) :
    (fm.iterateInput (n + 3) fm.put).Copies w post n := by
  refine .silent (.look rfl) (.mapFailure ?_ _)
  rw [hinput]
  refine copies_iterate h hreads ?_ n
  simp [Act.perform, Interrupt.dead, hline]

end Frame

/-! ## Words that are looked up -/

/-- The values of a word that only has to be looked up: a text, or a variable. -/
inductive Expr.Plain (fm : Frame) (w : World) : Expr → List Value → Prop
  | literal (text : String) : Plain fm w (.literal text) [.str text]
  | single {name : String} {v : Value} (h : fm.Means w name v) : Plain fm w (.variable name false) [v]
  | exploded {name : String} {vs : List Value} (h : fm.Means w name (.list vs)) :
      Plain fm w (.variable name true) vs

/-- It does not matter where the frame reads and writes, nor which form is being run. -/
theorem Expr.Plain.moved {fm : Frame} {e : Expr} {vs : List Value} (h : e.Plain fm w vs) (wiring : Wiring)
    (site : Option CallSite) : e.Plain { fm with wiring, site } w vs := by
  cases h with
  | literal text => exact .literal text
  | single h => exact .single h
  | exploded h => exact .exploded h

theorem Expr.Plain.forwards {fm : Frame} {e : Expr} {vs : List Value} (h : e.Plain fm w vs) (eng : Engine) :
    (e.eval eng fm).Forwards w post [] vs := by
  cases h with
  | literal text =>
    rw [Expr.eval]
    exact .pure _
  | single h | exploded h =>
    rw [Expr.eval]
    exact (Frame.forwards_value h).silent (.pure _)

theorem forwards_evalAll {fm : Frame} {es : List Expr} {vss : List (List Value)}
    (h : List.Forall₂ (Expr.Plain fm w) es vss) (eng : Engine) :
    (evalAll eng fm es).Forwards w post [] vss.flatten := by
  induction h with
  | nil =>
    rw [evalAll]
    exact .pure _
  | cons he _ ih =>
    rw [evalAll, List.flatten_cons]
    exact (he.forwards eng).silent (ih.silent (.pure _))

/-! ## Stages -/

/-- Where a stage of a pipeline stands that runs in the frame. -/
def Frame.standing (fm : Frame) (reads writes : Option Pipe) : Post :=
  ⟨reads, writes, (fm.between reads writes).wiring.output.values⟩

/-- A form without options and redirections calls its command with its arguments. -/
theorem Op.exec_form (eng : Engine) (site : CallSite) (var : String) (es : List Expr) (fm : Frame) :
    (Op.form site (.function var) es [] []).exec eng fm = (fm.atSite site fun fm ↦ do
      fm.checkInterrupt
      let f ← fm.value var
      let args ← evalAll eng fm es
      eng.call fm f args []) := by
  rw [Op.exec]
  rfl

theorem Engine.forwards_put {fm : Frame} (h : fm.wiring.output.values = post.sink) (eng : Engine)
    (vs : List Value) : (eng.callValue fm (.builtin .put) vs []).Forwards w post vs () := by
  have hbound : Builtin.put.signature.bind vs [] = .ok ⟨[.list vs], [], []⟩ := by
    simp [Signature.bind, Builtin.signature, Signature.empty, Signature.restParam, Signature.accepts, Signature.arity,
      Signature.place, Signature.fill, gather]
  rw [callValue, hbound]
  exact .silent (.pure _) (Frame.forwards_putAll h vs)

theorem Engine.copies_all {fm : Frame} (h : fm.wiring.output.values = post.sink) {pipe : Pipe}
    (hreads : post.reads = some pipe) (hinput : fm.wiring.input = ⟨some pipe.values, some pipe.bytes⟩)
    (hline : w.interrupt.live = true) {eng : Engine} {n : Nat} (hturns : eng.turns = n + 3) :
    (eng.callValue fm (.builtin .all) [] []).Copies w post n := by
  have hiterate := Frame.copies_iterateInput h hreads hinput hline n
  rw [← hturns] at hiterate
  exact .silent (.pure _) hiterate

/-- When it has put its values, the stage is closed. -/
theorem Comp.Forwards.stage {m : Comp Unit} {vs : List Value} (h : m.Forwards w post vs ()) :
    (stageProgram post.reads post.writes m).Relays w post vs none := by
  have hclose := h (fun o ↦ .act (.endStage post.reads post.writes) fun _ ↦ .done o) [] none (.close rfl)
  rwa [List.append_nil] at hclose

theorem Comp.Copies.stage {m : Comp Unit} {n : Nat} (h : m.Copies w post n) :
    (stageProgram post.reads post.writes m).Relays w post [] (some n) :=
  h _ (.close rfl)

variable {fm : Frame} (site : CallSite) (writes : Option Pipe)

/-- **A stage that puts given values** has them all at first, and reads nothing. -/
theorem Op.relays_put (reads : Option Pipe) {es : List Expr} {vss : List (List Value)}
    (hput : fm.Means w (Name.function "put") (.builtin .put)) (hargs : List.Forall₂ (Expr.Plain fm w) es vss)
    (hcalm : w.interrupt.flag = false) (n : Nat) :
    (stageProgram reads writes ((Op.form site (.function (Name.function "put")) es [] []).exec (engine (n + 1))
      (fm.between reads writes))).Relays w (fm.standing reads writes) vss.flatten none := by
  refine Comp.Forwards.stage ?_
  rw [Op.exec_form]
  refine Frame.forwards_atSite ?_
  refine .silent (Frame.forwards_checkInterrupt hcalm) (.silent (Frame.forwards_value hput) ?_)
  have hmoved := hargs.imp fun _ _ h ↦ h.moved (fm.between reads writes).wiring (some site)
  exact .silent (forwards_evalAll hmoved _) (Engine.forwards_put rfl _ _)

/-- **A stage that passes on what it reads** has nothing at first. -/
theorem Op.relays_all (pipe : Pipe) (hall : fm.Means w (Name.function "all") (.builtin .all))
    (hcalm : w.interrupt.flag = false) (hline : w.interrupt.live = true) (n : Nat) :
    (stageProgram (some pipe) writes ((Op.form site (.function (Name.function "all")) [] [] []).exec (engine (n + 5))
      (fm.between (some pipe) writes))).Relays w (fm.standing (some pipe) writes) [] (some n) := by
  refine Comp.Copies.stage ?_
  rw [Op.exec_form]
  refine Frame.copies_atSite ?_
  refine .silent (Frame.forwards_checkInterrupt hcalm) (.silent (Frame.forwards_value hall) ?_)
  exact .silent (forwards_evalAll .nil _) (Engine.copies_all rfl rfl rfl hline rfl)

end ValueShell
