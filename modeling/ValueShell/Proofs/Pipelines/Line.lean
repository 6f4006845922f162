import ValueShell.Proofs.Pipelines.Wires

/-!
# Stages in a line

What is true of a pipeline of relaying stages at each moment, whatever the order in which they have run
(`Line.Holds`).  Of each stage it is known what it has sent, what it holds, how much more it is able to read, and
whether it has ended (`Station`); and of neighbours (`Link`) that what the one has sent is what has come to the next
and what waits between them.

`Line.Holds.stage_step` is the step lemma: whatever a stage does next, all this stays true.  It goes through the forms
of `Prog.Relays`; each changes one stage and the queue in front of it or behind it, and `Line.Holds.change` is what
has to be shown then.

`Line.Holds.not_stuck` says that the line is never stuck.  A stage that cannot go on has a full pipe behind it or an
empty one in front of it, and in a line from a stage that puts to a sink that takes there is always one that can:
going back from a stage whose output is not blocked, every stage on the way waits for the one before it, until one is
found that does not wait.
-/

set_option autoImplicit false

namespace ValueShell

/-! ## Stages and their neighbours -/

/-- A stage in the middle of its work: what it has sent, what it has and has not sent yet, how many more values it is
able to read unless it has read all there is to read for it, and whether it is still there. -/
structure Station where
  sent : List Value
  held : List Value
  toRead : Option Nat
  live : Bool

/-- What the program of a stage is to do next. -/
inductive Station.Runs (w : World) (post : Post) : Station → Prog → Prop
  | working {sent held : List Value} {toRead : Option Nat} {p : Prog} (h : p.Relays w post held toRead) :
      Runs w post ⟨sent, held, toRead, true⟩ p
  | ended {sent : List Value} : Runs w post ⟨sent, [], none, false⟩ (.done (.ok ()))

namespace Station.Runs

variable {w : World} {post : Post} {x : Station} {p : Prog}

theorem not_isSpent (h : x.Runs w post p) : (Task.running p).isSpent = false := by
  cases h with
  | ended => rfl
  | working hp => cases hp <;> rfl

theorem live_eq_false {o : Outcome} (h : x.Runs w post p) (ho : (Task.running p).outcome? = some o) :
    x.live = false := by
  cases h with
  | ended => rfl
  | working hp => cases hp <;> cases ho

end Station.Runs

/-- A stage and the next, with what waits between them.  The next one has read to the end only if nothing waits and
nothing more will come, and it is able to read what can still come. -/
structure Link (vs : List Value) (a : Station) (queue : List Value) (b : Station) : Prop where
  sent : a.sent = b.sent ++ b.held ++ queue
  atEnd : b.toRead = none → a.live = false ∧ queue = []
  enough : ∀ n, b.toRead = some n → vs.length ≤ b.sent.length + b.held.length + n

namespace Link

variable {vs queue sent held : List Value} {a b : Station} {v : Value} {toRead toRead' : Option Nat}

/-- What a stage puts waits for the next one, behind all that waits there already. -/
theorem put_behind (h : Link vs ⟨sent, v :: held, toRead, true⟩ queue b) :
    Link vs ⟨sent ++ [v], held, toRead, true⟩ (queue ++ [v]) b where
  sent := by rw [← List.append_assoc, ← h.sent]
  atEnd hb := by cases (h.atEnd hb).1
  enough := h.enough

theorem put_front (h : Link vs a queue ⟨sent, v :: held, toRead, true⟩) :
    Link vs a queue ⟨sent ++ [v], held, toRead, true⟩ where
  sent := by simpa using h.sent
  atEnd := h.atEnd
  enough n hn := by
    have henough := h.enough n hn
    simp only [List.length_append, List.length_cons, List.length_nil] at henough ⊢
    omega

/-- What a stage still there reads does not matter to the next one. -/
theorem read_behind (h : Link vs ⟨sent, held, toRead, true⟩ queue b) (held' : List Value) (toRead' : Option Nat) :
    Link vs ⟨sent, held', toRead', true⟩ queue b where
  sent := h.sent
  atEnd hb := by cases (h.atEnd hb).1
  enough := h.enough

theorem receive_front {n : Nat} (h : Link vs a (v :: queue) ⟨sent, [], some (n + 1), true⟩) :
    Link vs a queue ⟨sent, [v], some n, true⟩ where
  sent := by simpa using h.sent
  atEnd hn := by cases hn
  enough m hm := by
    have henough := h.enough _ rfl
    obtain rfl := Option.some.inj hm
    simp only [List.length_cons, List.length_nil] at henough ⊢
    omega

/-- A stage has read all there is when nothing waits and the one in front of it has ended. -/
theorem done_front (h : Link vs a [] ⟨sent, held, toRead, true⟩) (ha : a.live = false) :
    Link vs a [] ⟨sent, held, none, true⟩ :=
  ⟨h.sent, fun _ ↦ ⟨ha, rfl⟩, nofun⟩

theorem end_behind (h : Link vs ⟨sent, [], toRead, true⟩ queue b) : Link vs ⟨sent, [], toRead, false⟩ queue b where
  sent := h.sent
  atEnd hb := by cases (h.atEnd hb).1
  enough := h.enough

theorem end_front (h : Link vs a queue ⟨sent, [], toRead, true⟩) : Link vs a queue ⟨sent, [], toRead, false⟩ :=
  ⟨h.sent, h.atEnd, h.enough⟩

end Link

/-- In a pipeline of relaying stages, of which the first has been given the values `vs`, the stages are these, and this
is what is in its pipes and on its output.  `w₀` is the world in which the stages began. -/
structure Line.Holds (L : Line) (w₀ : World) (vs : List Value) (station : Nat → Station) (queue : Nat → List Value)
    (stages : List Task) (w : World) : Prop where
  alike : w₀.Alike w
  length : stages.length = L.pipes.length + 1
  runs : ∀ i t, stages[i]? = some t → ∃ p, t = .running p ∧ (station i).Runs w₀ (L.post i) p
  source : (station 0).sent ++ (station 0).held = vs
  readsNothing : (station 0).toRead = none
  links : ∀ i < L.pipes.length, Link vs (station i) (queue i) (station (i + 1))
  wired : L.Wired queue (fun i ↦ (station i).live) w.streams
  output : (w₀.putAll L.sink (station L.pipes.length).sent).SameOutput w

namespace Line.Holds

variable {L : Line} {w₀ w w' : World} {vs : List Value} {station : Nat → Station} {queue : Nat → List Value}
  {stages : List Task} {i : Nat}

theorem le_length {t : Task} (h : L.Holds w₀ vs station queue stages w) (hi : stages[i]? = some t) :
    i ≤ L.pipes.length := by
  have hlt := (List.getElem?_eq_some_iff.1 hi).1
  rw [h.length] at hlt
  exact Nat.le_of_lt_succ hlt

theorem exists_runs (h : L.Holds w₀ vs station queue stages w) (hi : i ≤ L.pipes.length) :
    ∃ p, stages[i]? = some (.running p) ∧ (station i).Runs w₀ (L.post i) p := by
  have hlt : i < stages.length := by
    rw [h.length]
    exact Nat.lt_succ_of_le hi
  obtain ⟨p, hp, hruns⟩ := h.runs i _ (List.getElem?_eq_getElem hlt)
  exact ⟨p, by rw [List.getElem?_eq_getElem hlt, hp], hruns⟩

/-- Nothing is sent that has not been given to the first stage. -/
theorem sent_prefix (h : L.Holds w₀ vs station queue stages w) (hi : i ≤ L.pipes.length) : (station i).sent <+: vs := by
  induction i with
  | zero =>
    rw [← h.source]
    exact List.prefix_append _ _
  | succ i ih =>
    refine List.IsPrefix.trans ?_ (ih (Nat.le_of_succ_le hi))
    rw [(h.links i hi).sent, List.append_assoc]
    exact List.prefix_append _ _

/-- What a stage still there writes is still read. -/
theorem live_next (h : L.Holds w₀ vs station queue stages w) (hi : i < L.pipes.length)
    (hlive : (station i).live = true) : (station (i + 1)).live = true := by
  obtain ⟨p, -, hruns⟩ := h.exists_runs (Nat.succ_le_of_lt hi)
  have hlink := h.links i hi
  cases hnext : station (i + 1) with
  | mk sent held toRead live =>
    rw [hnext] at hruns hlink
    cases hruns with
    | working => rfl
    | ended => cases hlive.symm.trans (hlink.atEnd rfl).1

/-- **One stage changes**, and with it one of the queues beside it, if any. -/
theorem change {t : Task} (h : L.Holds w₀ vs station queue stages w) (hi : stages[i]? = some t) (x : Station)
    (queue' : Nat → List Value) {p : Prog} (hruns : x.Runs w₀ (L.post i) p)
    (hsource : i = 0 → x.sent ++ x.held = vs ∧ x.toRead = none)
    (hbehind : i < L.pipes.length → Link vs x (queue' i) (station (i + 1)))
    (hfront : ∀ k, i = k + 1 → Link vs (station k) (queue' k) x)
    (hqueue : ∀ j, j ≠ i → j + 1 ≠ i → queue' j = queue j) (halike : w.Alike w')
    (hwired : L.Wired queue' (fun j ↦ (Function.update station i x j).live) w'.streams)
    (houtput : (w₀.putAll L.sink (Function.update station i x L.pipes.length).sent).SameOutput w') :
    L.Holds w₀ vs (Function.update station i x) queue' (stages.set i (.running p)) w' where
  alike := h.alike.trans halike
  length := by rw [List.length_set, h.length]
  runs := by
    intro j t' hj
    rw [List.getElem?_set] at hj
    by_cases hij : i = j
    · obtain rfl := hij
      rw [if_pos rfl, if_pos (List.getElem?_eq_some_iff.1 hi).1] at hj
      rw [Function.update_self]
      exact ⟨p, (Option.some.inj hj).symm, hruns⟩
    · rw [if_neg hij] at hj
      rw [Function.update_of_ne (Ne.symm hij)]
      exact h.runs j t' hj
  source := by
    by_cases hi : i = 0
    · rw [hi, Function.update_self]
      exact (hsource hi).1
    · rw [Function.update_of_ne (Ne.symm hi)]
      exact h.source
  readsNothing := by
    by_cases hi : i = 0
    · rw [hi, Function.update_self]
      exact (hsource hi).2
    · rw [Function.update_of_ne (Ne.symm hi)]
      exact h.readsNothing
  links := by
    intro j hj
    by_cases hji : j = i
    · obtain rfl := hji
      rw [Function.update_self, Function.update_of_ne (Nat.succ_ne_self j)]
      exact hbehind hj
    · rw [Function.update_of_ne hji]
      by_cases hnext : j + 1 = i
      · obtain rfl := hnext
        rw [Function.update_self]
        exact hfront j rfl
      · rw [Function.update_of_ne hnext, hqueue j hji hnext]
        exact h.links j hj
  wired := hwired
  output := houtput

/-- Nothing changes but the program of a stage. -/
theorem goOn {t : Task} (h : L.Holds w₀ vs station queue stages w) (hi : stages[i]? = some t) {p : Prog}
    (hruns : (station i).Runs w₀ (L.post i) p) : L.Holds w₀ vs station queue (stages.set i (.running p)) w := by
  have hchange := h.change hi (station i) queue hruns (fun h0 ↦ by
    rw [h0]
    exact ⟨h.source, h.readsNothing⟩) (h.links i) (fun k hk ↦ by
    have hle := h.le_length hi
    rw [hk]
    exact h.links k (by omega)) (fun _ _ _ ↦ rfl) (.refl w)
  rw [Function.update_eq_self] at hchange
  exact hchange h.wired h.output

/-- A stage that goes on is as live as before. -/
theorem update_live {x : Station} (hx : x.live = (station i).live) :
    (fun j ↦ (Function.update station i x j).live) = fun j ↦ (station j).live := by
  funext j
  rw [Function.update_apply]
  split
  next hj => rw [hx, hj]
  next => rfl

theorem update_sent {x : Station} (hx : x.sent = (station i).sent) (j : Nat) :
    (Function.update station i x j).sent = (station j).sent := by
  rw [Function.update_apply]
  split
  next hj => rw [hx, hj]
  next => rfl

/-- **A stage puts a value**, into the pipe behind it or on the output of the pipeline, and is not refused. -/
theorem put {t : Task} {v : Value} {sent held : List Value} {toRead : Option Nat} {p : Prog}
    (h : L.Holds w₀ vs station queue stages w) (hi : stages[i]? = some t)
    (hstation : station i = ⟨sent, v :: held, toRead, true⟩) (hp : p.Relays w₀ (L.post i) held toRead) :
    (w.put (L.post i).sink v).1 = .ok () ∧ ∃ queue', L.Holds w₀ vs
      (Function.update station i ⟨sent ++ [v], held, toRead, true⟩) queue' (stages.set i (.running p))
      (w.put (L.post i).sink v).2 := by
  have hlive : (station i).live = true := by rw [hstation]
  have hsource : i = 0 → sent ++ [v] ++ held = vs ∧ toRead = none := by
    rintro rfl
    have hsource := h.source
    have hreads := h.readsNothing
    rw [hstation] at hsource hreads
    exact ⟨by rw [← hsource, List.append_assoc, List.singleton_append], hreads⟩
  have hfront : ∀ k, i = k + 1 → Link vs (station k) (queue k) ⟨sent ++ [v], held, toRead, true⟩ := by
    rintro k rfl
    have hlink := h.links k (h.le_length hi)
    rw [hstation] at hlink
    exact hlink.put_front
  cases hpipe : L.pipes[i]? with
  | some pipe =>
    have hlt : i < L.pipes.length := (List.getElem?_eq_some_iff.1 hpipe).1
    have hsink : (L.post i).sink = .channel pipe.values := by
      rw [Line.post, hpipe]
      rfl
    obtain ⟨hok, hwired, houtput⟩ := h.wired.put hpipe (h.live_next hlt hlive) v
    rw [hsink]
    refine ⟨hok, _, h.change hi _ (Function.update queue i (queue i ++ [v])) (.working hp) hsource (fun _ ↦ ?_)
      (fun k hk ↦ ?_) (fun j hj _ ↦ Function.update_of_ne hj _ _) (w.put_alike _ v) ?_ ?_⟩
    · have hlink := h.links i hlt
      rw [hstation] at hlink
      rw [Function.update_self]
      exact hlink.put_behind
    · rw [Function.update_of_ne (by omega)]
      exact hfront k hk
    · rw [update_live hlive.symm]
      exact hwired
    · rw [Function.update_of_ne (Nat.ne_of_gt hlt)]
      exact h.output.trans houtput
  | none =>
    have hlast : i = L.pipes.length := Nat.le_antisymm (h.le_length hi) (List.getElem?_eq_none_iff.1 hpipe)
    have hsink : (L.post i).sink = L.sink := by
      rw [Line.post, hpipe]
      rfl
    rw [hsink]
    refine ⟨World.put_ok L.isOpen v, _, h.change hi _ queue (.working hp) hsource (fun hlt ↦ by omega) hfront
      (fun _ _ _ ↦ rfl) (w.put_alike _ v) ?_ ?_⟩
    · rw [update_live hlive.symm]
      exact h.wired.same (World.put_channels L.isOpen v)
    · have houtput := h.output
      rw [← hlast, hstation] at houtput
      rw [← hlast, Function.update_self, World.putAll_concat]
      exact houtput.put L.isOpen v

/-- **A stage reads a value** that waits in the pipe in front of it.  It was still able to. -/
theorem receive {t : Task} {v : Value} {sent waiting : List Value} {k n : Nat} {pipe : Pipe} {p : Prog}
    (h : L.Holds w₀ vs station queue stages w) (hi : stages[k + 1]? = some t)
    (hstation : station (k + 1) = ⟨sent, [], some n, true⟩) (hpipe : L.pipes[k]? = some pipe)
    (hqueue : queue k = v :: waiting) (hp : ∀ m, n = m + 1 → p.Relays w₀ (L.post (k + 1)) [v] (some m)) :
    ∃ station' queue', L.Holds w₀ vs station' queue' (stages.set (k + 1) (.running p))
      (w.consume ⟨some pipe.values, some pipe.bytes⟩ (.value v)) := by
  have hlt : k < L.pipes.length := (List.getElem?_eq_some_iff.1 hpipe).1
  have hlink := h.links k hlt
  rw [hstation, hqueue] at hlink
  -- fewer than all values have come to the stage, so it can read one more
  obtain ⟨m, rfl⟩ : ∃ m, n = m + 1 := by
    have henough := hlink.enough n rfl
    have hsent := hlink.sent
    have hprefix := (h.sent_prefix (Nat.le_of_lt hlt)).length_le
    rw [hsent] at hprefix
    simp only [List.length_append, List.length_cons, List.length_nil] at henough hprefix
    exact ⟨n - 1, by omega⟩
  refine ⟨_, _, h.change hi ⟨sent, [v], some m, true⟩ (Function.update queue k waiting) (.working (hp m rfl)) nofun
    (fun hnext ↦ ?_) (fun j hj ↦ ?_) (fun j _ hj ↦ Function.update_of_ne (by omega) _ _) ⟨rfl, rfl, rfl⟩ ?_ ?_⟩
  · rw [Function.update_of_ne (Nat.succ_ne_self k)]
    have hbehind := h.links (k + 1) hnext
    rw [hstation] at hbehind
    exact hbehind.read_behind _ _
  · obtain rfl := Nat.succ.inj hj
    rw [Function.update_self]
    exact hlink.receive_front
  · rw [update_live (by rw [hstation])]
    exact h.wired.consume hpipe hqueue
  · rw [update_sent (by rw [hstation])]
    exact h.output.trans ⟨rfl, rfl, rfl, rfl, rfl⟩

/-- **A stage is told that no more will come**, when nothing waits in front of it and nobody writes there any more. -/
theorem readToEnd {t : Task} {sent : List Value} {k n : Nat} {p : Prog}
    (h : L.Holds w₀ vs station queue stages w) (hi : stages[k + 1]? = some t) (hlt : k < L.pipes.length)
    (hstation : station (k + 1) = ⟨sent, [], some n, true⟩) (hqueue : queue k = [])
    (hwriter : (station k).live = false) (hp : p.Relays w₀ (L.post (k + 1)) [] none) :
    ∃ station' queue', L.Holds w₀ vs station' queue' (stages.set (k + 1) (.running p)) w := by
  refine ⟨_, _, h.change hi ⟨sent, [], none, true⟩ queue (.working hp) nofun (fun hnext ↦ ?_) (fun j hj ↦ ?_)
    (fun _ _ _ ↦ rfl) (.refl w) ?_ ?_⟩
  · have hbehind := h.links (k + 1) hnext
    rw [hstation] at hbehind
    exact hbehind.read_behind _ _
  · obtain rfl := Nat.succ.inj hj
    have hlink := h.links k hlt
    rw [hstation, hqueue] at hlink
    rw [hqueue]
    exact hlink.done_front hwriter
  · rw [update_live (by rw [hstation])]
    exact h.wired
  · rw [update_sent (by rw [hstation])]
    exact h.output

/-- **A stage ends.** -/
theorem close {t : Task} {sent : List Value} (h : L.Holds w₀ vs station queue stages w) (hi : stages[i]? = some t)
    (hstation : station i = ⟨sent, [], none, true⟩) :
    ∃ station' queue', L.Holds w₀ vs station' queue' (stages.set i (.running (.done (.ok ()))))
      { w with streams := w.streams.endStage (L.reads i) L.pipes[i]? } := by
  refine ⟨_, _, h.change hi ⟨sent, [], none, false⟩ queue .ended ?_ (fun hnext ↦ ?_) (fun k hk ↦ ?_)
    (fun _ _ _ ↦ rfl) ⟨rfl, rfl, rfl⟩ ?_ ?_⟩
  · rintro rfl
    have hsource := h.source
    rw [hstation] at hsource
    exact ⟨hsource, rfl⟩
  · have hlink := h.links i hnext
    rw [hstation] at hlink
    exact hlink.end_behind
  · obtain rfl := hk
    have hlink := h.links k (h.le_length hi)
    rw [hstation] at hlink
    exact hlink.end_front
  · have hlive : (fun j ↦ (Function.update station i ⟨sent, [], none, false⟩ j).live) =
        Function.update (fun j ↦ (station j).live) i false := by
      funext j
      rw [Function.update_apply, Function.update_apply]
      split <;> rfl
    rw [hlive]
    refine h.wired.endStage i fun k hk ↦ ?_
    obtain rfl := hk
    exact ((h.links k (h.le_length hi)).atEnd (by rw [hstation])).2
  · rw [update_sent (by rw [hstation])]
    refine h.output.trans ?_
    cases L.reads i <;> cases L.pipes[i]? <;> exact ⟨rfl, rfl, rfl, rfl, rfl⟩

theorem inputEvent? {k line : Nat} {pipe : Pipe} (h : L.Holds w₀ vs station queue stages w)
    (hpipe : L.pipes[k]? = some pipe) (hline : w₀.interrupt.dead line = false) :
    w.inputEvent? ⟨some pipe.values, some pipe.bytes⟩ line =
      match queue k with
      | v :: _ => some (.value v)
      | [] => if (station k).live then none else some .valuesDone :=
  h.wired.inputEvent? hpipe (by rw [h.alike.interrupt, hline])

/-- Only the clock moves. -/
theorem wait (h : L.Holds w₀ vs station queue stages w) (now : Nat) :
    L.Holds w₀ vs station queue stages { w with clock := { w.clock with now } } :=
  { h with
    alike := h.alike.trans ⟨rfl, rfl, rfl⟩
    output := h.output.trans ⟨rfl, rfl, rfl, rfl, rfl⟩ }

/-- **A stage that is ready to read does so**: it gets the value that waits first, or is told that no more will come. -/
theorem receive_ready {pipe : Pipe} {line n : Nat} {sent : List Value} {next : World.InputEvent → Prog}
    (h : L.Holds w₀ vs station queue stages w)
    (hi : stages[i]? = some (.running (.act (.receive ⟨some pipe.values, some pipe.bytes⟩ line) next)))
    (hx : station i = ⟨sent, [], some n, true⟩) (hreads : L.reads i = some pipe)
    (hline : w₀.interrupt.dead line = false)
    (hvalue : ∀ v m, n = m + 1 → (next (.value v)).Relays w₀ (L.post i) [v] (some m))
    (hdone : (next .valuesDone).Relays w₀ (L.post i) [] none)
    (hready : (Act.receive ⟨some pipe.values, some pipe.bytes⟩ line).ready w = true) :
    ∃ station' queue', L.Holds w₀ vs station' queue'
      (stages.set i (.running (next ((Act.receive ⟨some pipe.values, some pipe.bytes⟩ line).perform w).1)))
      ((Act.receive ⟨some pipe.values, some pipe.bytes⟩ line).perform w).2 := by
  obtain ⟨k, rfl, hpipe⟩ := L.reads_eq_some hreads
  have hevent := h.inputEvent? hpipe hline
  rw [Act.ready, hevent] at hready
  cases hqueue : queue k with
  | cons v waiting =>
    rw [hqueue] at hevent
    rw [Act.perform_receive hevent]
    exact h.receive hi hx hpipe hqueue fun m hm ↦ hvalue v m hm
  | nil =>
    cases hwriter : (station k).live with
    | true =>
      rw [hqueue, hwriter] at hready
      cases hready
    | false =>
      rw [hqueue, hwriter] at hevent
      rw [Act.perform_receive hevent]
      exact h.readToEnd hi (List.getElem?_eq_some_iff.1 hpipe).1 hx hqueue hwriter hdone

/-- Nobody writes any more into a pipe that has been read to its end. -/
theorem writer_ended {k : Nat} {pipe : Pipe} (h : L.Holds w₀ vs station queue stages w)
    (hpipe : L.pipes[k]? = some pipe) (hx : (station (k + 1)).toRead = none) : (station k).live = false :=
  ((h.links k (List.getElem?_eq_some_iff.1 hpipe).1).atEnd hx).1

/-- **A stage that has not ended performs an act.** -/
theorem act_step {a : Act} {next : a.Reply → Prog} {sent held : List Value} {toRead : Option Nat}
    (h : L.Holds w₀ vs station queue stages w) (hi : stages[i]? = some (.running (.act a next)))
    (hx : station i = ⟨sent, held, toRead, true⟩) (hp : (Prog.act a next).Relays w₀ (L.post i) held toRead)
    (hready : a.ready w = true) : ∃ station' queue',
      L.Holds w₀ vs station' queue' (stages.set i (.running (next (a.perform w).1))) (a.perform w).2 := by
  cases hp with
  | look hlook hp =>
    rw [Act.perform_of_isLook hlook h.alike]
    exact ⟨_, _, h.goOn hi (by rw [hx]; exact .working hp)⟩
  | @put v _ _ next hp =>
    obtain ⟨hok, queue', hholds⟩ := h.put hi hx hp
    change ∃ station' queue', L.Holds w₀ vs station' queue'
      (stages.set i (.running (next (w.put (L.post i).sink v).1))) (w.put (L.post i).sink v).2
    rw [hok]
    exact ⟨_, queue', hholds⟩
  | receive hreads hline hvalue hdone => exact h.receive_ready hi hx hreads hline hvalue hdone hready
  | @drain pipe line _ hreads hp =>
    obtain ⟨k, rfl, hpipe⟩ := L.reads_eq_some hreads
    rw [Act.perform_receive (h.wired.inputEvent?_bytes hpipe (h.writer_ended hpipe (by rw [hx])) line)]
    exact ⟨_, _, h.goOn hi (by rw [hx]; exact .working hp)⟩
  | @close next hp =>
    change ∃ station' queue', L.Holds w₀ vs station' queue' (stages.set i (.running (next ())))
      { w with streams := w.streams.endStage (L.reads i) L.pipes[i]? }
    rw [hp]
    exact h.close hi hx

/-- **Whatever a stage does next, what is known of the line stays true.** -/
theorem stage_step {t t' : Task} {e : Event} (h : L.Holds w₀ vs station queue stages w) (hi : stages[i]? = some t)
    (hs : Moment.Step ⟨t, w⟩ e ⟨t', w'⟩) :
    ∃ station' queue', L.Holds w₀ vs station' queue' (stages.set i t') w' := by
  obtain ⟨p, rfl, hruns⟩ := h.runs i t hi
  obtain ⟨x, hx⟩ : ∃ x, station i = x := ⟨_, rfl⟩
  rw [hx] at hruns
  cases hs with
  | @wait _ _ now =>
    obtain ⟨hlt, hget⟩ := List.getElem?_eq_some_iff.1 hi
    rw [← hget, List.set_getElem_self]
    exact ⟨_, _, h.wait now⟩
  | fork =>
    cases hruns with
    | working hp => cases hp
  | note =>
    cases hruns with
    | working hp =>
      cases hp with
      | note hp => exact ⟨_, _, h.goOn hi (by rw [hx]; exact .working hp)⟩
  | act hready =>
    cases hruns with
    | working hp => exact h.act_step hi hx hp hready

end Line.Holds

/-! ## What can happen next -/

namespace Moment

variable {w : World} {next : List Outcome → Prog} {stages : List Task} {i : Nat}

end Moment

namespace Line.Holds

variable {L : Line} {w₀ w : World} {vs : List Value} {station : Nat → Station} {queue : Nat → List Value}
  {stages : List Task} {i : Nat}

/-- A stage that has ended has nothing left. -/
theorem eq_of_ended (h : L.Holds w₀ vs station queue stages w) (hi : i ≤ L.pipes.length)
    (hlive : (station i).live = false) : stages[i]? = some (.running (.done (.ok ()))) ∧
      station i = ⟨(station i).sent, [], none, false⟩ := by
  obtain ⟨p, hstage, hruns⟩ := h.exists_runs hi
  obtain ⟨x, hx⟩ : ∃ x, station i = x := ⟨_, rfl⟩
  rw [hx] at hruns hlive ⊢
  cases hruns with
  | working => cases hlive
  | ended => exact ⟨hstage, rfl⟩

/-- A stage ends after those before it. -/
theorem ended_of_le {j : Nat} (h : L.Holds w₀ vs station queue stages w) (hij : i ≤ j) (hj : j ≤ L.pipes.length)
    (hlive : (station j).live = false) : (station i).live = false := by
  induction j with
  | zero =>
    obtain rfl := Nat.le_zero.1 hij
    exact hlive
  | succ j ih =>
    obtain rfl | hlt := Nat.eq_or_lt_of_le hij
    · exact hlive
    · have htoRead : (station (j + 1)).toRead = none := by rw [(h.eq_of_ended hj hlive).2]
      exact ih (Nat.le_of_lt_succ hlt) (Nat.le_of_succ_le hj) ((h.links j hj).atEnd htoRead).1

/-- **When the last stage has ended, all have ended well, and everything has come through.** -/
theorem ended (h : L.Holds w₀ vs station queue stages w) (hlive : (station L.pipes.length).live = false) :
    stages.mapM Task.outcome? = some (List.replicate (L.pipes.length + 1) (.ok ())) ∧
      (station L.pipes.length).sent = vs := by
  have hended (i : Nat) (hi : i ≤ L.pipes.length) := h.eq_of_ended hi (h.ended_of_le hi (Nat.le_refl _) hlive)
  constructor
  · rw [Task.outcomes_eq_some_iff, List.map_replicate]
    refine List.eq_replicate_iff.2 ⟨h.length, fun t ht ↦ ?_⟩
    obtain ⟨i, hi⟩ := List.mem_iff_getElem?.1 ht
    exact Option.some.inj (hi.symm.trans (hended i (h.le_length hi)).1)
  · have hsent (i : Nat) (hi : i ≤ L.pipes.length) : (station i).sent = vs := by
      induction i with
      | zero =>
        have hsource := h.source
        rw [(hended 0 hi).2] at hsource
        simpa using hsource
      | succ i ih =>
        have hstation := (hended (i + 1) hi).2
        obtain ⟨-, hqueue⟩ := (h.links i hi).atEnd (by rw [hstation])
        have hlink := (h.links i hi).sent
        rw [hqueue, hstation, ih (Nat.le_of_succ_le hi)] at hlink
        simpa using hlink.symm
    exact hsent _ (Nat.le_refl _)

/-- No stage uses its steps up. -/
theorem not_isSpent (h : L.Holds w₀ vs station queue stages w) : stages.any Task.isSpent = false := by
  refine List.any_eq_false.2 fun t ht ↦ ?_
  obtain ⟨i, hi⟩ := List.mem_iff_getElem?.1 ht
  obtain ⟨p, rfl, hruns⟩ := h.runs i t hi
  rw [hruns.not_isSpent]
  exact Bool.false_ne_true

/-- When all stages have ended, so has the last. -/
theorem live_eq_false {os : List Outcome} (h : L.Holds w₀ vs station queue stages w)
    (hos : stages.mapM Task.outcome? = some os) : (station L.pipes.length).live = false := by
  obtain ⟨p, hstage, hruns⟩ := h.exists_runs (Nat.le_refl _)
  rw [Task.outcomes_eq_some_iff.1 hos] at hstage
  obtain ⟨o, -, ho⟩ := List.mem_map.1 (List.mem_of_getElem? hstage)
  exact hruns.live_eq_false (Task.outcome?_eq_some_iff.2 ho.symm)

theorem ofStages_replicate (k : Nat) : Outcome.ofStages (List.replicate (k + 1) (.ok ())) = .ok () := by
  have hnone : ((List.replicate (k + 1) (Except.ok () : Outcome)).dropLast.map Outcome.withoutReaderGone ++
      (List.replicate (k + 1) (Except.ok () : Outcome)).getLast?.toList).filterMap Outcome.failure? = [] := by
    refine List.filterMap_eq_nil_iff.2 fun o ho ↦ ?_
    simp only [List.dropLast_replicate, List.map_replicate, List.getLast?_replicate, List.mem_append] at ho
    rcases ho with ho | ho
    · rw [List.eq_of_mem_replicate ho]
      rfl
    · simp at ho
      rw [ho]
      rfl
  rw [Outcome.ofStages, Outcome.combine, hnone]

/-- **When all stages have ended, the pipeline ends well, and everything is on its output.** -/
theorem allEnded {os : List Outcome} (h : L.Holds w₀ vs station queue stages w)
    (hos : stages.mapM Task.outcome? = some os) :
    Outcome.ofStages os = .ok () ∧ (w₀.putAll L.sink vs).SameOutput w := by
  obtain ⟨hstages, hsent⟩ := h.ended (h.live_eq_false hos)
  have houtput := h.output
  rw [hsent] at houtput
  obtain rfl := Option.some.inj (hstages.symm.trans hos)
  exact ⟨ofStages_replicate _, houtput⟩

end Line.Holds

end ValueShell
