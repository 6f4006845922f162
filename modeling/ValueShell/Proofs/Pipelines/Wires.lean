import Mathlib.Logic.Function.Basic
import ValueShell.Proofs.Pipelines.Relays
import ValueShell.Proofs.Termination.Inputs

/-!
# The pipes between stages

A `Line` is what connects the stages of a pipeline: its pipes, one behind each stage but the last, and the sink that
is the pipeline's own output.  `Line.Wired` says what is in the pipes of a line, and which stages are still there to
write and to read them; and there is a lemma for each thing a stage can do to the pipes.

What is put on the pipeline's own output goes elsewhere (`World.SameOutput`), and neither touches the other.
-/

set_option autoImplicit false

namespace ValueShell

/-! ## Output that leads to no other stage -/

namespace World

/-- All output outside of channels is the same. -/
structure SameOutput (w w' : World) : Prop where
  captures : w'.streams.captures = w.streams.captures
  values : w'.streams.valueBuffers = w.streams.valueBuffers
  bytes : w'.streams.byteBuffers = w.streams.byteBuffers
  files : w'.files = w.files
  handles : w'.handles = w.handles

/-- The world in which values have been put on a sink, one after another. -/
def putAll (w : World) (sink : ValueSink) (vs : List Value) : World :=
  vs.foldl (fun w v ↦ (w.put sink v).2) w

variable {w w' w'' : World}

theorem SameOutput.refl (w : World) : w.SameOutput w :=
  ⟨rfl, rfl, rfl, rfl, rfl⟩

theorem SameOutput.trans (h : w.SameOutput w') (h' : w'.SameOutput w'') : w.SameOutput w'' :=
  ⟨h'.captures.trans h.captures, h'.values.trans h.values, h'.bytes.trans h.bytes, h'.files.trans h.files,
    h'.handles.trans h.handles⟩

theorem SameOutput.writeBytes (h : w.SameOutput w') {sink : ByteSink} (hopen : sink.isOpen = true) (bytes : Bytes) :
    (w.writeBytes sink bytes).2.SameOutput (w'.writeBytes sink bytes).2 := by
  obtain ⟨hcaptures, hvalues, hbytes, hfiles, hhandles⟩ := h
  cases sink with
  | channel id => cases hopen
  | file id =>
    rw [World.writeBytes, World.writeBytes, hhandles, hfiles]
    split <;> exact ⟨hcaptures, hvalues, hbytes, by simp [hfiles], by simp [hhandles]⟩
  | _ => exact ⟨by simp [World.writeBytes, hcaptures], hvalues, by simp [World.writeBytes, hbytes], hfiles, hhandles⟩

theorem SameOutput.put (h : w.SameOutput w') {sink : ValueSink} (hopen : sink.isOpen = true) (v : Value) :
    (w.put sink v).2.SameOutput (w'.put sink v).2 := by
  cases sink with
  | channel id => cases hopen
  | print sink => exact h.writeBytes hopen _
  | _ =>
    obtain ⟨hcaptures, hvalues, hbytes, hfiles, hhandles⟩ := h
    exact ⟨by simp [World.put, hcaptures], by simp [World.put, hvalues], hbytes, hfiles, hhandles⟩

theorem putAll_concat (w : World) (sink : ValueSink) (vs : List Value) (v : Value) :
    w.putAll sink (vs ++ [v]) = ((w.putAll sink vs).put sink v).2 := by
  rw [putAll, List.foldl_append]
  rfl

theorem put_ok {sink : ValueSink} (hopen : sink.isOpen = true) (v : Value) : (w.put sink v).1 = .ok () := by
  have hbytes {sink : ByteSink} (hopen : sink.isOpen = true) (bytes : Bytes) :
      (w.writeBytes sink bytes).1 = .ok () := by
    cases sink with
    | channel id => cases hopen
    | file id =>
      rw [writeBytes]
      split <;> rfl
    | _ => rfl
  cases sink with
  | channel id => cases hopen
  | print sink => exact hbytes hopen _
  | _ => rfl

theorem put_alike (w : World) (sink : ValueSink) (v : Value) : w.Alike (w.put sink v).2 := by
  obtain ⟨_, _, _, hput⟩ := w.put_eq sink v
  rw [hput]
  exact ⟨rfl, rfl, rfl⟩

end World

/-! ## Lines -/

/-- What connects the stages of a pipeline.  No pipe is there twice, each has room for something, and what is put on
the sink at the end does not have to wait. -/
structure Line where
  pipes : List Pipe
  capacity : Nat
  sink : ValueSink
  values_nodup : (pipes.map (·.values.index)).Nodup
  bytes_nodup : (pipes.map (·.bytes.index)).Nodup
  room : 0 < capacity
  isOpen : sink.isOpen = true

namespace Line

/-- The pipe a stage reads. -/
def reads (L : Line) : Nat → Option Pipe
  | 0 => none
  | i + 1 => L.pipes[i]?

/-- Where a stage stands. -/
def post (L : Line) (i : Nat) : Post :=
  ⟨L.reads i, L.pipes[i]?, (L.pipes[i]?).elim L.sink fun pipe ↦ .channel pipe.values⟩

/-- The first stage reads no pipe. -/
theorem reads_eq_some (L : Line) {i : Nat} {pipe : Pipe} (h : L.reads i = some pipe) :
    ∃ k, i = k + 1 ∧ L.pipes[k]? = some pipe := by
  cases i with
  | zero => cases h
  | succ k => exact ⟨k, rfl, h⟩

end Line

/-! ## What is in the pipes -/

theorem Act.perform_receive {w : World} {lanes : Inlet} {line : Nat} {e : World.InputEvent}
    (h : w.inputEvent? lanes line = some e) : (Act.receive lanes line).perform w = (e, w.consume lanes e) := by
  rw [perform, h]

/-- Pipe by pipe, the channels are these; `index` says which channel of the array belongs to a pipe. -/
def ChannelsAre {α : Type} (pipes : List Pipe) (index : Pipe → Nat) (xs : Array (Channel α)) (c : Nat → Channel α) :
    Prop :=
  ∀ i p, pipes[i]? = some p → xs[index p]? = some (c i)

/-- One channel changes. -/
theorem ChannelsAre.modify {α : Type} {pipes : List Pipe} {index : Pipe → Nat} {xs : Array (Channel α)}
    {c : Nat → Channel α} {i : Nat} {p : Pipe} (h : ChannelsAre pipes index xs c) (hnodup : (pipes.map index).Nodup)
    (hp : pipes[i]? = some p) (f : Channel α → Channel α) :
    ChannelsAre pipes index (xs.modify (index p) f) (Function.update c i (f (c i))) := by
  intro j p' hp'
  rw [Array.getElem?_modify]
  by_cases hj : j = i
  · obtain rfl := hj
    obtain rfl := Option.some.inj (hp.symm.trans hp')
    rw [if_pos rfl, h j p hp, Option.map_some, Function.update_self]
  · have hne : index p ≠ index p' := by
      intro heq
      have hi : i < (pipes.map index).length := by
        rw [List.length_map]
        exact (List.getElem?_eq_some_iff.1 hp).1
      refine hj ((List.getElem?_inj hi hnodup).1 ?_).symm
      rw [List.getElem?_map, List.getElem?_map, hp, hp', Option.map_some, Option.map_some, heq]
    rw [if_neg hne, h j p' hp', Function.update_of_ne hj]

/-- The channels after a stage has ended: it writes no more into the one behind it, and takes no more out of the one in
front of it. -/
def closeEnds {α : Type} (index : Pipe → Nat) (reads writes : Option Pipe) (xs : Array (Channel α)) :
    Array (Channel α) :=
  let closed := writes.elim xs fun p ↦ xs.modify (index p) Channel.closeWriter
  reads.elim closed fun p ↦ closed.modify (index p) Channel.closeReader

theorem Streams.endStage_channels (s : Streams) (reads writes : Option Pipe) :
    (s.endStage reads writes).valueChannels = closeEnds (·.values.index) reads writes s.valueChannels ∧
      (s.endStage reads writes).byteChannels = closeEnds (·.bytes.index) reads writes s.byteChannels := by
  cases reads <;> cases writes <;> exact ⟨rfl, rfl⟩

/-- Of the channels of a line, two change when a stage ends, if it leaves nothing behind. -/
theorem ChannelsAre.closeEnds {α : Type} {L : Line} {index : Pipe → Nat} {xs : Array (Channel α)}
    {c : Nat → Channel α} (h : ChannelsAre L.pipes index xs c) (hnodup : (L.pipes.map index).Nodup) (i : Nat)
    (hempty : ∀ k, i = k + 1 → (c k).items = []) :
    ChannelsAre L.pipes index (ValueShell.closeEnds index (L.reads i) L.pipes[i]? xs) fun j ↦
      { c j with writing := (c j).writing && j ≠ i, reading := (c j).reading && j + 1 ≠ i } := by
  have hwriter : ChannelsAre L.pipes index
      ((L.pipes[i]?).elim xs fun p ↦ xs.modify (index p) Channel.closeWriter)
      fun j ↦ { c j with writing := (c j).writing && j ≠ i } := by
    intro j p hp
    cases hwrites : L.pipes[i]? with
    | none =>
      have hne : j ≠ i := by
        rintro rfl
        cases hp.symm.trans hwrites
      simp [h j p hp, hne]
    | some q =>
      have hmodify := h.modify hnodup hwrites Channel.closeWriter j p hp
      rw [Option.elim_some, hmodify, Function.update_apply]
      split <;> simp_all [Channel.closeWriter]
  cases i with
  | zero =>
    intro j p hp
    simpa [ValueShell.closeEnds, Line.reads] using hwriter j p hp
  | succ k =>
    intro j p hp
    cases hreads : L.pipes[k]? with
    | none =>
      have hne : j ≠ k := by
        rintro rfl
        cases hp.symm.trans hreads
      simpa [ValueShell.closeEnds, Line.reads, hreads, hne] using hwriter j p hp
    | some q =>
      have hmodify := hwriter.modify hnodup hreads Channel.closeReader j p hp
      rw [Function.update_apply] at hmodify
      simp only [ValueShell.closeEnds, Line.reads, hreads, Option.elim_some]
      rw [hmodify]
      split <;> simp_all [Channel.closeReader]

/-- Behind each stage but the last, its pipe holds a queue of values and no bytes; and the pipe is known to be written
and read by the stages that are still there. -/
structure Line.Wired (L : Line) (queue : Nat → List Value) (live : Nat → Bool) (s : Streams) : Prop where
  values : ChannelsAre L.pipes (·.values.index) s.valueChannels
    fun i ↦ ⟨queue i, some L.capacity, live i, live (i + 1)⟩
  bytes : ChannelsAre L.pipes (·.bytes.index) s.byteChannels fun i ↦ ⟨[], some L.capacity, live i, live (i + 1)⟩

namespace Line.Wired

variable {L : Line} {queue : Nat → List Value} {live : Nat → Bool} {s : Streams} {i : Nat} {p : Pipe} {v : Value}

theorem same {s' : Streams} (h : L.Wired queue live s) (hs : s.SameChannels s') : L.Wired queue live s' :=
  ⟨fun i p hp ↦ by rw [hs.values, h.values i p hp], fun i p hp ↦ by rw [hs.bytes, h.bytes i p hp]⟩

/-- The queue of one pipe changes. -/
theorem modify (h : L.Wired queue live s) (hp : L.pipes[i]? = some p) {f : Channel Value → Channel Value}
    {vs : List Value} (hf : f ⟨queue i, some L.capacity, live i, live (i + 1)⟩ =
      ⟨vs, some L.capacity, live i, live (i + 1)⟩) :
    L.Wired (Function.update queue i vs) live
      { s with valueChannels := s.valueChannels.modify p.values.index f } where
  values := by
    have hvalues := h.values.modify L.values_nodup hp f
    rw [hf] at hvalues
    convert hvalues using 1
    funext j
    by_cases hj : j = i
    · rw [hj, Function.update_self, Function.update_self]
    · rw [Function.update_of_ne hj, Function.update_of_ne hj]
  bytes := h.bytes

/-- **A value is put into a pipe**, which still has its reader. -/
theorem put {w : World} (h : L.Wired queue live w.streams) (hp : L.pipes[i]? = some p) (hreader : live (i + 1) = true)
    (v : Value) : (w.put (.channel p.values) v).1 = .ok () ∧
      L.Wired (Function.update queue i (queue i ++ [v])) live (w.put (.channel p.values) v).2.streams ∧
      w.SameOutput (w.put (.channel p.values) v).2 := by
  rw [World.put, h.values i p hp]
  dsimp only
  rw [if_pos hreader]
  refine ⟨rfl, h.modify hp ?_, ⟨rfl, rfl, rfl, rfl, rfl⟩⟩
  rw [Channel.send, hreader]
  rfl

theorem putReady {w : World} (h : L.Wired queue live w.streams) (hp : L.pipes[i]? = some p)
    (hroom : (queue i).length < L.capacity) : w.putReady (.channel p.values) = true := by
  rw [World.putReady, h.values i p hp]
  simp [Channel.sendReady, Channel.hasRoom, hroom]

/-- What a reader of both lanes is told: the next value, or that there are no more when the writer has gone. -/
theorem inputEvent? {w : World} (h : L.Wired queue live w.streams) (hp : L.pipes[i]? = some p) {line : Nat}
    (hline : w.interrupt.dead line = false) : w.inputEvent? ⟨some p.values, some p.bytes⟩ line =
      match queue i with
      | v :: _ => some (.value v)
      | [] => if live i then none else some .valuesDone := by
  rw [World.inputEvent?]
  simp only [Option.bind_some, h.values i p hp, h.bytes i p hp, hline]
  cases queue i with
  | cons v vs => rfl
  | nil => cases live i <;> rfl

/-- What a reader of the bytes alone is told when the writer has gone. -/
theorem inputEvent?_bytes {w : World} (h : L.Wired queue live w.streams) (hp : L.pipes[i]? = some p)
    (hwriter : live i = false) (line : Nat) : w.inputEvent? ⟨none, some p.bytes⟩ line = some .bytesDone := by
  rw [World.inputEvent?]
  simp [h.bytes i p hp, hwriter]

/-- **A value is taken out of a pipe.** -/
theorem consume {w : World} {vs : List Value} (h : L.Wired queue live w.streams) (hp : L.pipes[i]? = some p)
    (hqueue : queue i = v :: vs) :
    L.Wired (Function.update queue i vs) live
      (w.consume ⟨some p.values, some p.bytes⟩ (.value v)).streams := by
  refine h.modify hp ?_
  rw [Channel.receive, hqueue]

/-- **A stage ends**, when there is nothing left to read for it. -/
theorem endStage (h : L.Wired queue live s) (i : Nat) (hqueue : ∀ k, i = k + 1 → queue k = []) :
    L.Wired queue (Function.update live i false) (s.endStage (L.reads i) L.pipes[i]?) := by
  obtain ⟨hvalues, hbytes⟩ := s.endStage_channels (L.reads i) L.pipes[i]?
  have hlive (j : Nat) : (live j && decide (j ≠ i)) = Function.update live i false j := by
    rw [Function.update_apply]
    split <;> simp_all
  constructor
  case values =>
    rw [hvalues]
    have hclosed := h.values.closeEnds L.values_nodup i hqueue
    simpa only [hlive] using hclosed
  case bytes =>
    rw [hbytes]
    have hclosed := h.bytes.closeEnds L.bytes_nodup i fun _ _ ↦ rfl
    simpa only [hlive] using hclosed

end Line.Wired

end ValueShell
