import ValueShell.Proofs.Pipelines.Line

/-!
# Pipelines that pass values on

In the pipeline `put ... | all | ... | all` nothing is lost, doubled or brought out of order, and it never gets stuck:
whatever the values and their number, however many stages there are, however little room there is in the pipes, and in
whatever order the stages run (`Op.relay_reaches`).

A run of such a pipeline makes its pipes (`Relaying.opening`), then its stages run side by side (`Relaying.flowing`),
and then it ends.  `Relaying.step` says that each step stays within this course, by `Line.Holds.stage_step` while the
stages run.
-/

set_option autoImplicit false

namespace ValueShell

/-! ## The pipeline -/

/-- A stage that puts what the words say, and for each of the sites a stage that passes on what it reads. -/
def Op.relays (first : CallSite) (es : List Expr) (sites : List CallSite) : List Op :=
  .form first (.function (Name.function "put")) es [] [] ::
    sites.map fun site ↦ .form site (.function (Name.function "all")) [] [] []

/-- In the world, the frame has the two commands, the words say what the values are, nobody interrupts, and the output
does not lead to another stage. -/
structure Frame.CanRelay (fm : Frame) (w : World) (es : List Expr) (vs : List Value) : Prop where
  put : fm.Means w (Name.function "put") (.builtin .put)
  all : fm.Means w (Name.function "all") (.builtin .all)
  words : ∃ vss, List.Forall₂ (Expr.Plain fm w) es vss ∧ vss.flatten = vs
  flag : w.interrupt.flag = false
  line : w.interrupt.live = true
  output : fm.wiring.output.values.isOpen = true

/-- How a form ends that is all there is. -/
def Op.finish (site : CallSite) (o : Outcome) : Prog :=
  ((Comp.ofExcept o).mapFailure (·.through site)).noting (.ends site) .done

theorem Op.finish_ok (site : CallSite) : Op.finish site (.ok ()) = .note (.ends site (.ok ())) (.done (.ok ())) :=
  rfl

/-- What follows when the pipes have been made: the stages side by side, and the end of the pipeline. -/
def Op.forked (n : Nat) (fm : Frame) (site : CallSite) (ops : List Op) (pipes : List Pipe) : Prog :=
  .fork (execStages (engine n) { fm with site := some site } none pipes ops) fun os ↦
    Op.finish site (Outcome.ofStages os)

theorem Op.program_pipeline (n : Nat) (fm : Frame) (site : CallSite) (ops : List Op) :
    ∃ k, (∀ pipes, k (.ok pipes) = Op.forked n fm site ops pipes) ∧
      ((Op.pipeline site ops).exec (engine n) fm).program = .note (.starts (some site) fm.source fm.loading)
        (newPipes (max fm.config.valueBuffer 1) (ops.length - 1) k) := by
  rw [Op.exec]
  exact ⟨_, fun _ ↦ rfl, rfl⟩

/-- Each stage reads the pipe before it and writes the one behind it. -/
theorem execStages_getElem? (eng : Engine) (fm : Frame) (reads : Option Pipe) (pipes : List Pipe) (ops : List Op)
    (i : Nat) : (execStages eng fm reads pipes ops)[i]? = (ops[i]?).map fun op ↦
      let reads := if i = 0 then reads else pipes[i - 1]?
      stageProgram reads pipes[i]? (op.exec eng (fm.between reads pipes[i]?)) := by
  induction ops generalizing reads pipes i with
  | nil => simp [execStages]
  | cons op ops ih =>
    rw [execStages]
    cases i with
    | zero => simp [List.head?_eq_getElem?]
    | succ i =>
      rw [List.getElem?_cons_succ, List.getElem?_cons_succ, ih]
      cases i <;> simp [List.head?_eq_getElem?]

theorem length_execStages (eng : Engine) (fm : Frame) (reads : Option Pipe) (pipes : List Pipe) (ops : List Op) :
    (execStages eng fm reads pipes ops).length = ops.length := by
  induction ops generalizing reads pipes with
  | nil => rw [execStages]; rfl
  | cons op ops ih => rw [execStages, List.length_cons, List.length_cons, ih]

/-! ## Making the pipes -/

/-- A channel is added for one more pipe. -/
theorem ChannelsAre.push {α : Type} {pipes : List Pipe} {index : Pipe → Nat} {xs : Array (Channel α)} {c : Channel α}
    {p : Pipe} (h : ChannelsAre pipes index xs fun _ ↦ c) (hnodup : (pipes.map index).Nodup) (hp : index p = xs.size) :
    ChannelsAre (pipes ++ [p]) index (xs.push c) (fun _ ↦ c) ∧ ((pipes ++ [p]).map index).Nodup := by
  have hlt (i : Nat) (q : Pipe) (hq : pipes[i]? = some q) : index q < xs.size :=
    (Array.getElem?_eq_some_iff.1 (h i q hq)).1
  constructor
  · intro i q hq
    rw [List.getElem?_append] at hq
    split at hq
    next hi =>
      rw [Array.getElem?_push_lt (hlt i q hq), ← Array.getElem?_eq_getElem]
      exact h i q hq
    next hi =>
      obtain rfl := List.mem_singleton.1 (List.mem_of_getElem? hq)
      rw [hp, Array.getElem?_push_size]
  · rw [List.map_append, List.nodup_append]
    refine ⟨hnodup, by simp, fun a ha b hb ↦ ?_⟩
    obtain ⟨q, hq, rfl⟩ := List.mem_map.1 ha
    obtain ⟨i, hi⟩ := List.mem_iff_getElem?.1 hq
    obtain rfl := List.mem_singleton.1 hb
    rw [hp]
    exact Nat.ne_of_lt (hlt i q hi)

/-- Since the world `w₀` some pipes have been made, and nothing else has happened. -/
structure Opened (w₀ : World) (capacity : Nat) (pipes : List Pipe) (w : World) : Prop where
  alike : w₀.Alike w
  output : w₀.SameOutput w
  values : ChannelsAre pipes (·.values.index) w.streams.valueChannels fun _ ↦ .empty (some capacity)
  bytes : ChannelsAre pipes (·.bytes.index) w.streams.byteChannels fun _ ↦ .empty (some capacity)
  values_nodup : (pipes.map (·.values.index)).Nodup
  bytes_nodup : (pipes.map (·.bytes.index)).Nodup

namespace Opened

variable {w₀ w : World} {capacity : Nat} {pipes : List Pipe}

theorem refl (w : World) (capacity : Nat) : Opened w capacity [] w :=
  ⟨.refl w, .refl w, nofun, nofun, .nil, .nil⟩

theorem wait (h : Opened w₀ capacity pipes w) (now : Nat) :
    Opened w₀ capacity pipes { w with clock := { w.clock with now } } :=
  ⟨h.alike.trans ⟨rfl, rfl, rfl⟩, h.output.trans ⟨rfl, rfl, rfl, rfl, rfl⟩, h.values, h.bytes, h.values_nodup,
    h.bytes_nodup⟩

/-- One more pipe is made. -/
theorem newPipe (h : Opened w₀ capacity pipes w) :
    Opened w₀ capacity (pipes ++ [((Act.newPipe capacity).perform w).1]) ((Act.newPipe capacity).perform w).2 := by
  obtain ⟨hvalues, hvalues_nodup⟩ := h.values.push (p := ((Act.newPipe capacity).perform w).1) h.values_nodup rfl
  obtain ⟨hbytes, hbytes_nodup⟩ := h.bytes.push (p := ((Act.newPipe capacity).perform w).1) h.bytes_nodup rfl
  exact ⟨h.alike.trans ⟨rfl, rfl, rfl⟩, h.output.trans ⟨rfl, rfl, rfl, rfl, rfl⟩, hvalues, hbytes, hvalues_nodup,
    hbytes_nodup⟩

end Opened

/-! ## The course of the pipeline -/

/-- The moments of a run of the pipeline. -/
inductive Relaying (w₀ : World) (fm : Frame) (vs : List Value) (n : Nat) (site : CallSite) (ops : List Op) :
    Moment → Prop
  | starting {w : World} {note : Note} {k : Except Failure (List Pipe) → Prog}
      (hk : ∀ pipes, k (.ok pipes) = Op.forked n fm site ops pipes)
      (h : Opened w₀ (max fm.config.valueBuffer 1) [] w) :
      Relaying w₀ fm vs n site ops
        ⟨.running (.note note (newPipes (max fm.config.valueBuffer 1) (ops.length - 1) k)), w⟩
  | opening {w : World} {pipes : List Pipe} {missing : Nat} {k : Except Failure (List Pipe) → Prog}
      (hk : ∀ others, k (.ok others) = Op.forked n fm site ops (pipes ++ others))
      (hlength : pipes.length + missing = ops.length - 1) (h : Opened w₀ (max fm.config.valueBuffer 1) pipes w) :
      Relaying w₀ fm vs n site ops ⟨.running (newPipes (max fm.config.valueBuffer 1) missing k), w⟩
  | flowing {w : World} {L : Line} {station : Nat → Station} {queue : Nat → List Value} {stages : List Task}
      (hsink : L.sink = fm.wiring.output.values) (h : L.Holds w₀ vs station queue stages w) :
      Relaying w₀ fm vs n site ops ⟨.forked stages fun os ↦ Op.finish site (Outcome.ofStages os), w⟩
  | ending {w : World} (h : (w₀.putAll fm.wiring.output.values vs).SameOutput w) :
      Relaying w₀ fm vs n site ops ⟨.running (.note (.ends site (.ok ())) (.done (.ok ()))), w⟩
  | ended {w : World} (h : (w₀.putAll fm.wiring.output.values vs).SameOutput w) :
      Relaying w₀ fm vs n site ops ⟨.running (.done (.ok ())), w⟩

/-- Stages that have not begun: the first has been given the values, and each of the others is able to read `n`. -/
def Station.start (vs : List Value) (n : Nat) : Nat → Station
  | 0 => ⟨[], vs, none, true⟩
  | _ + 1 => ⟨[], [], some n, true⟩

@[simp] theorem Station.start_sent (vs : List Value) (n i : Nat) : (start vs n i).sent = [] := by
  cases i <;> rfl

@[simp] theorem Station.start_live (vs : List Value) (n i : Nat) : (start vs n i).live = true := by
  cases i <;> rfl

theorem Link.start {vs : List Value} {n : Nat} (hn : vs.length ≤ n) (i : Nat) :
    Link vs (Station.start vs n i) [] (Station.start vs n (i + 1)) where
  sent := Station.start_sent vs n i
  atEnd := nofun
  enough m hm := by
    obtain rfl := Option.some.inj hm
    simpa [Station.start] using hn

/-- With all its pipes made, the stages stand in a line, and the first has all the values. -/
theorem Opened.holds {w₀ w : World} {fm : Frame} {es : List Expr} {vs : List Value} {pipes : List Pipe} {n : Nat}
    {site first : CallSite} {sites : List CallSite} (hfm : fm.CanRelay w₀ es vs) (hn : vs.length ≤ n)
    (h : Opened w₀ (max fm.config.valueBuffer 1) pipes w) (hlength : pipes.length = sites.length) :
    ∃ L : Line, L.sink = fm.wiring.output.values ∧
      L.Holds w₀ vs (Station.start vs n) (fun _ ↦ [])
        ((execStages (engine (n + 5)) { fm with site := some site } none pipes (Op.relays first es sites)).map .running)
        w := by
  let L : Line :=
    { pipes
      capacity := max fm.config.valueBuffer 1
      sink := fm.wiring.output.values
      values_nodup := h.values_nodup
      bytes_nodup := h.bytes_nodup
      room := Nat.lt_of_lt_of_le Nat.zero_lt_one (Nat.le_max_right _ _)
      isOpen := hfm.output }
  have hpost (i : Nat) : L.post i = ({ fm with site := some site } : Frame).standing (L.reads i) pipes[i]? := by
    rw [Line.post, Frame.standing]
    cases pipes[i]? <;> cases L.reads i <;> simp [L, Frame.between, Frame.withWiring]
  obtain ⟨vss, hwords, rfl⟩ := hfm.words
  refine ⟨L, rfl, ?_⟩
  constructor
  case alike => exact h.alike
  case length => simp [L, length_execStages, Op.relays, hlength]
  case runs =>
    intro i t hi
    rw [List.getElem?_map, execStages_getElem?, Op.relays] at hi
    cases i with
    | zero =>
      cases hi
      refine ⟨_, rfl, .working ?_⟩
      rw [hpost]
      exact Op.relays_put first _ none hfm.put (hwords.imp fun _ _ h ↦ h.moved _ _) hfm.flag _
    | succ i =>
      rw [List.getElem?_cons_succ, List.getElem?_map, Option.map_map, Option.map_map] at hi
      obtain ⟨s, hs, rfl⟩ := Option.map_eq_some_iff.1 hi
      have hlt : i < pipes.length := by
        rw [hlength]
        exact (List.getElem?_eq_some_iff.1 hs).1
      refine ⟨_, rfl, .working ?_⟩
      rw [hpost]
      simp only [Line.reads, L, Nat.succ_ne_zero, if_false, Nat.add_sub_cancel, List.getElem?_eq_getElem hlt]
      exact Op.relays_all s _ _ hfm.all hfm.flag hfm.line n
  case source => rfl
  case readsNothing => rfl
  case links => exact fun i _ ↦ .start hn i
  case wired =>
    simp only [Station.start_live]
    exact ⟨h.values, h.bytes⟩
  case output =>
    rw [Station.start_sent]
    exact h.output

namespace Relaying

variable {w₀ : World} {fm : Frame} {es : List Expr} {vs : List Value} {n : Nat} {site first : CallSite}
  {sites : List CallSite} {m m' : Moment} {e : Event}

theorem wait {ops : List Op} {t : Task} {w : World} (h : Relaying w₀ fm vs n site ops ⟨t, w⟩) (now : Nat) :
    Relaying w₀ fm vs n site ops ⟨t, { w with clock := { w.clock with now } }⟩ := by
  cases h with
  | starting hk h => exact .starting hk (h.wait now)
  | opening hk hlength h => exact .opening hk hlength (h.wait now)
  | flowing hsink h => exact .flowing hsink (h.wait now)
  | ending h => exact .ending (h.trans ⟨rfl, rfl, rfl, rfl, rfl⟩)
  | ended h => exact .ended (h.trans ⟨rfl, rfl, rfl, rfl, rfl⟩)

/-- With pipes missing the next one is made, and with none missing the stages begin. -/
theorem opening_step {ops : List Op} {w : World} {pipes : List Pipe} {missing : Nat}
    {k : Except Failure (List Pipe) → Prog} (hfm : fm.CanRelay w₀ es vs) (hn : vs.length ≤ n)
    (hops : Op.relays first es sites = ops)
    (hk : ∀ others, k (.ok others) = Op.forked (n + 5) fm site ops (pipes ++ others))
    (hlength : pipes.length + missing = ops.length - 1) (h : Opened w₀ (max fm.config.valueBuffer 1) pipes w)
    (hs : Moment.Step ⟨.running (newPipes (max fm.config.valueBuffer 1) missing k), w⟩ e m') :
    Relaying w₀ fm vs (n + 5) site ops m' := by
  have hopening : Relaying w₀ fm vs (n + 5) site ops
      ⟨.running (newPipes (max fm.config.valueBuffer 1) missing k), w⟩ := .opening hk hlength h
  cases missing with
  | zero =>
    have hstages : pipes.length = sites.length := by
      rw [← hops] at hlength
      simpa [Op.relays] using hlength
    have hfork := hk []
    rw [List.append_nil] at hfork
    change Moment.Step ⟨.running (k (.ok [])), w⟩ e m' at hs
    rw [hfork] at hs
    cases hs with
    | fork =>
      obtain ⟨L, hsink, hholds⟩ := h.holds hfm hn hstages
      rw [← hops]
      exact .flowing hsink hholds
    | wait =>
      rw [← hfork]
      exact hopening.wait _
  | succ missing =>
    cases hs with
    | act hready =>
      refine .opening (fun others ↦ ?_) ?_ h.newPipe
      · change k (.ok (_ :: others)) = _
        rw [hk, List.append_assoc]
        rfl
      · rw [List.length_append, List.length_singleton]
        omega
    | wait => exact hopening.wait _

/-- A stage goes on, or all have ended and so does the pipeline. -/
theorem flowing_step {ops : List Op} {w : World} {L : Line} {station : Nat → Station} {queue : Nat → List Value}
    {stages : List Task} (hsink : L.sink = fm.wiring.output.values) (h : L.Holds w₀ vs station queue stages w)
    (hs : Moment.Step ⟨.forked stages fun os ↦ Op.finish site (Outcome.ofStages os), w⟩ e m') :
    Relaying w₀ fm vs n site ops m' := by
  cases hs with
  | @stage before after t t' _ _ _ _ hs =>
    have hi : (before ++ t :: after)[before.length]? = some t := by simp
    obtain ⟨station', queue', hholds⟩ := h.stage_step hi hs
    have hset : (before ++ t :: after).set before.length t' = before ++ t' :: after := by simp
    rw [hset] at hholds
    exact .flowing hsink hholds
  | @join _ _ os _ hos =>
    obtain ⟨hok, houtput⟩ := h.allEnded hos
    change Relaying w₀ fm vs n site ops ⟨.running (Op.finish site (Outcome.ofStages os)), w⟩
    rw [hok, Op.finish_ok]
    rw [hsink] at houtput
    exact .ending houtput
  | giveUp hspent => cases hspent.symm.trans h.not_isSpent
  | wait => exact (Relaying.flowing hsink h).wait _

/-- **A step of the pipeline stays within its course.** -/
theorem step (hfm : fm.CanRelay w₀ es vs) (hn : vs.length ≤ n)
    (h : Relaying w₀ fm vs (n + 5) site (Op.relays first es sites) m) (hs : m.Step e m') :
    Relaying w₀ fm vs (n + 5) site (Op.relays first es sites) m' := by
  obtain ⟨ops, hops⟩ : ∃ ops, Op.relays first es sites = ops := ⟨_, rfl⟩
  rw [hops] at h ⊢
  cases h with
  | starting hk h =>
    cases hs with
    | note =>
      refine .opening (fun others ↦ ?_) (Nat.zero_add _) h
      rw [List.nil_append]
      exact hk others
    | wait => exact (Relaying.starting hk h).wait _
  | opening hk hlength h => exact opening_step hfm hn hops hk hlength h hs
  | flowing hsink h => exact flowing_step hsink h hs
  | ending h =>
    cases hs with
    | note => exact .ended h
    | wait => exact (Relaying.ending h).wait _
  | ended h =>
    cases hs with
    | wait => exact (Relaying.ended h).wait _

/-- **A run of the pipeline stays within its course.** -/
theorem reaches (hfm : fm.CanRelay w₀ es vs) (hn : vs.length ≤ n)
    (h : Moment.Reaches ⟨.running ((Op.pipeline site (Op.relays first es sites)).exec (engine (n + 5)) fm).program, w₀⟩
      m) : Relaying w₀ fm vs (n + 5) site (Op.relays first es sites) m := by
  induction h with
  | refl =>
    obtain ⟨k, hk, hprogram⟩ := Op.program_pipeline (n + 5) fm site (Op.relays first es sites)
    rw [hprogram]
    exact .starting hk (.refl w₀ _)
  | tail _ hstep ih =>
    obtain ⟨e, hs⟩ := hstep
    exact ih.step hfm hn hs

theorem allEnded {ops : List Op} {stages : List Task} {next : List Outcome → Prog} {os : List Outcome}
    (h : Relaying w₀ fm vs n site ops m) (hm : m.task = .forked stages next)
    (hos : stages.mapM Task.outcome? = some os) :
    Outcome.ofStages os = .ok () ∧ (w₀.putAll fm.wiring.output.values vs).SameOutput m.world := by
  cases h with
  | flowing hsink h =>
    cases hm
    rw [← hsink]
    exact h.allEnded hos
  | starting | opening | ending | ended => cases hm

theorem output {ops : List Op} {o : Outcome} (h : Relaying w₀ fm vs n site ops m) (hm : m.task = .running (.done o)) :
    o = .ok () ∧ (w₀.putAll fm.wiring.output.values vs).SameOutput m.world := by
  cases h with
  | @opening w pipes missing k hk hlength h =>
    cases missing with
    | zero =>
      change Task.running (k (.ok [])) = _ at hm
      rw [hk] at hm
      cases hm
    | succ missing => cases hm
  | ended h =>
    cases hm
    exact ⟨rfl, h⟩
  | starting | flowing | ending => cases hm

end Relaying

/-- Has a run ended well? -/
def Task.Halt.isOk : Task.Halt → Bool
  | .ended (.ok ()) => true
  | _ => false

/-- A fresh world with a buffer, in which pipes have the least room there can be. -/
def tightWorld : World :=
  (World.fresh { Config.default with valueBuffer := 0 }).record.2

/-- A frame at the top of this world that puts into the buffer. -/
def tightFrame : Frame :=
  .top tightWorld.config tightWorld.global ⟨.empty, ⟨.buffer ⟨0⟩, .discard⟩, .discard⟩ default

/-- The pipeline `put a b c | all | all`. -/
def threeThroughTwo : Op :=
  .pipeline default (Op.relays default [.literal "a", .literal "b", .literal "c"] [default, default])

end ValueShell
