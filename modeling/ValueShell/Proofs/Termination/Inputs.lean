import ValueShell.Proofs.Capture
import ValueShell.Proofs.Dialect

/-!
# Closed inputs and open outlets

What makes streams harmless for code that runs alone.  An input is closed when nobody will write to it any more:
then there is always something to be read from it, be it the news that there is no more, and it is used up
(`World.exists_event`).  An outlet is open when it does not lead to another stage: then nothing written to it has to
wait, and it leaves all channels as they are.

No act opens an input again (`Supplies.continues`).  Together with what acts do to closures this gives the one
invariant of the world that running code in a dialect needs, `World.Settled`.
-/

set_option autoImplicit false

namespace ValueShell

/-! ## Channels without a writer -/

/-- The channels are still there, and writers that have finished do not come back. -/
def KeepsClosed {α : Type} (xs ys : Array (Channel α)) : Prop :=
  ∀ (i : Nat) (c : Channel α), xs[i]? = some c → c.writing = false →
    ∃ c', ys[i]? = some c' ∧ c'.writing = false

namespace KeepsClosed

variable {α : Type} {xs ys zs : Array (Channel α)}

theorem refl (xs : Array (Channel α)) : KeepsClosed xs xs :=
  fun _ c hc hwriting ↦ ⟨c, hc, hwriting⟩

theorem push (xs : Array (Channel α)) (c : Channel α) : KeepsClosed xs (xs.push c) := by
  intro i c' hc hwriting
  refine ⟨c', ?_, hwriting⟩
  have hi : i < xs.size := (Array.getElem?_eq_some_iff.1 hc).1
  rw [Array.getElem?_push_lt hi, ← hc, Array.getElem?_eq_getElem hi]

theorem modify (xs : Array (Channel α)) (i : Nat) {f : Channel α → Channel α}
    (hf : ∀ c, c.writing = false → (f c).writing = false) : KeepsClosed xs (xs.modify i f) := by
  intro j c hc hwriting
  rw [Array.getElem?_modify]
  split
  · exact ⟨f c, by rw [hc]; rfl, hf c hwriting⟩
  · exact ⟨c, hc, hwriting⟩

theorem trans (h : KeepsClosed xs ys) (h' : KeepsClosed ys zs) : KeepsClosed xs zs := by
  intro i c hc hwriting
  obtain ⟨c', hc', hwriting'⟩ := h i c hc hwriting
  exact h' i c' hc' hwriting'

end KeepsClosed

theorem Channel.send_writing {α : Type} (c : Channel α) (x : α) : (c.send x).1.writing = c.writing := by
  rw [send]
  split <;> rfl

theorem Channel.receive_writing {α : Type} (c : Channel α) : c.receive.2.writing = c.writing := by
  rw [receive]
  split <;> rfl

namespace Streams

/-- Writers that have finished do not come back, on channels of either kind. -/
structure Continues (s s' : Streams) : Prop where
  values : KeepsClosed s.valueChannels s'.valueChannels
  bytes : KeepsClosed s.byteChannels s'.byteChannels

theorem Continues.refl (s : Streams) : s.Continues s :=
  ⟨.refl _, .refl _⟩

theorem Continues.endStage (s : Streams) (reads writes : Option Pipe) : s.Continues (s.endStage reads writes) := by
  have hwriter (s : Streams) (p : Pipe) : s.Continues { s with
      valueChannels := s.valueChannels.modify p.values.index Channel.closeWriter
      byteChannels := s.byteChannels.modify p.bytes.index Channel.closeWriter } :=
    ⟨.modify _ _ fun _ _ ↦ rfl, .modify _ _ fun _ _ ↦ rfl⟩
  have hreader (s : Streams) (p : Pipe) : s.Continues { s with
      valueChannels := s.valueChannels.modify p.values.index Channel.closeReader
      byteChannels := s.byteChannels.modify p.bytes.index Channel.closeReader } :=
    ⟨.modify _ _ fun _ h ↦ h, .modify _ _ fun _ h ↦ h⟩
  cases writes with
  | none =>
    cases reads with
    | none => exact .refl s
    | some p => exact hreader s p
  | some q =>
    cases reads with
    | none => exact hwriter s q
    | some p => exact ⟨(hwriter s q).values.trans (hreader _ p).values, (hwriter s q).bytes.trans (hreader _ p).bytes⟩

/-- The lanes of the input hold all that will ever come on them. -/
structure Supplies (s : Streams) (input : Inlet) : Prop where
  values : ∀ id, input.values = some id → ∃ c, s.valueChannels[id.index]? = some c ∧ c.writing = false
  bytes : ∀ id, input.bytes = some id → ∃ c, s.byteChannels[id.index]? = some c ∧ c.writing = false

theorem Supplies.continues {s s' : Streams} {input : Inlet} (h : s.Supplies input) (hs : s.Continues s') :
    s'.Supplies input := by
  constructor
  · intro id hid
    obtain ⟨c, hc, hwriting⟩ := h.values id hid
    exact hs.values _ c hc hwriting
  · intro id hid
    obtain ⟨c, hc, hwriting⟩ := h.bytes id hid
    exact hs.bytes _ c hc hwriting

end Streams

/-! ## Acts -/

namespace World

variable {w : World}

theorem writeBytes_continues (w : World) (sink : ByteSink) (bytes : Bytes) :
    w.streams.Continues (w.writeBytes sink bytes).2.streams := by
  have hsend (i : Nat) : KeepsClosed w.streams.byteChannels
      (w.streams.byteChannels.modify i fun c ↦ (c.send bytes).1) :=
    .modify _ i fun c hc ↦ (c.send_writing bytes).trans hc
  unfold writeBytes
  repeat' split
  all_goals first | exact ⟨.refl _, .refl _⟩ | exact ⟨.refl _, hsend _⟩

theorem put_continues (w : World) (sink : ValueSink) (v : Value) :
    w.streams.Continues (w.put sink v).2.streams := by
  have hsend (i : Nat) : KeepsClosed w.streams.valueChannels
      (w.streams.valueChannels.modify i fun c ↦ (c.send v).1) :=
    .modify _ i fun c hc ↦ (c.send_writing v).trans hc
  unfold put
  repeat' split
  all_goals first | exact ⟨.refl _, .refl _⟩ | exact ⟨hsend _, .refl _⟩ | exact w.writeBytes_continues _ _

theorem consume_continues (w : World) (lanes : Inlet) (e : InputEvent) :
    w.streams.Continues (w.consume lanes e).streams := by
  have hreceive {α : Type} (xs : Array (Channel α)) (i : Nat) :
      KeepsClosed xs (xs.modify i fun c ↦ c.receive.2) :=
    .modify _ i fun c hc ↦ c.receive_writing.trans hc
  unfold consume
  repeat' split
  all_goals first | exact ⟨.refl _, .refl _⟩ | exact ⟨hreceive _ _, .refl _⟩ | exact ⟨.refl _, hreceive _ _⟩

end World

theorem Act.perform_continues (a : Act) (w : World) : w.streams.Continues (a.perform w).2.streams := by
  by_cases hpart : a.part = .streams
  · cases a with
    | put sink v => exact w.put_continues sink v
    | writeBytes sink bytes => exact w.writeBytes_continues sink bytes
    | receive lanes line =>
      rw [perform]
      split
      · exact w.consume_continues lanes _
      · exact .refl _
    | newPipe capacity => exact ⟨.push _ _, .push _ _⟩
    | newCapture | takeCapture => exact ⟨.refl _, .refl _⟩
    | endStage reads writes => exact .endStage _ reads writes
    | _ => cases hpart
  · rw [(a.perform_sameBut w).streams hpart]
    exact .refl _

/-! ## Worlds in which code of a dialect runs -/

/-- All closures are in the dialect, and the input is closed. -/
structure World.Settled (d : Dialect) (input : Inlet) (w : World) : Prop where
  closures : ∀ id c, w.store.closure? id = some c → c.body.isIn d = true
  input : w.streams.Supplies input

theorem Act.keeps_settled {d : Dialect} {input : Inlet} {a : Act} {w : World} (hw : w.Settled d input)
    (h : a.isIn d = true) : (a.perform w).2.Settled d input := by
  refine ⟨fun id c hc ↦ ?_, hw.input.continues (a.perform_continues w)⟩
  obtain hsame | ⟨space, outer, signature, body, source, rfl, hstore⟩ := a.perform_closures w
  · rw [Store.closure?, hsame] at hc
    exact hw.closures id c hc
  · rw [hstore, Store.closure?, Store.newClosure, Array.getElem?_push] at hc
    split at hc
    · cases hc
      exact h
    · exact hw.closures id c hc

/-! ## Reading a closed input -/

namespace Streams

/-- The number of things still to be read from the lanes: what is in them, and the end of each. -/
def remaining (s : Streams) (lanes : Inlet) : Nat :=
  (match lanes.values with
    | some id => ((s.valueChannels[id.index]?).map (·.items.length)).getD 0 + 1
    | none => 0) +
  match lanes.bytes with
    | some id => ((s.byteChannels[id.index]?).map (·.items.length)).getD 0 + 1
    | none => 0

end Streams

namespace World

/-- There is always something to be read from a closed input, and less after it. -/
theorem exists_event {w : World} {p : Inlet.Progress} (h : w.streams.Supplies p.lanes)
    (hopen : p.lanes.isFinished = false) (line : Nat) :
    ∃ e, w.inputEvent? p.lanes line = some e ∧ e ≠ .interrupted ∧
      (w.consume p.lanes e).streams.Supplies (p.after e).2.lanes ∧
      (w.consume p.lanes e).streams.remaining (p.after e).2.lanes < w.streams.remaining p.lanes := by
  obtain ⟨lanes, pending⟩ := p
  have hkeeps (e : InputEvent) : (w.consume lanes e).streams.Supplies lanes :=
    h.continues (w.consume_continues lanes e)
  obtain ⟨values, bytes⟩ := lanes
  cases values with
  | some id =>
    obtain ⟨c, hc, hwriting⟩ := h.values id rfl
    cases hitems : c.items with
    | cons v items =>
      refine ⟨.value v, ?_, nofun, hkeeps _, ?_⟩
      · simp [inputEvent?, hc, hitems]
      · simp [Streams.remaining, consume, Inlet.Progress.after, Array.getElem?_modify, hc, Channel.receive, hitems]
    | nil =>
      refine ⟨.valuesDone, ?_, nofun, ⟨nofun, (hkeeps _).bytes⟩, ?_⟩
      · simp [inputEvent?, hc, hitems, hwriting]
      · simp [Streams.remaining, consume, Inlet.Progress.after]
  | none =>
    cases bytes with
    | none => cases hopen
    | some id =>
      obtain ⟨c, hc, hwriting⟩ := h.bytes id rfl
      cases hitems : c.items with
      | cons chunk items =>
        refine ⟨.bytes chunk, ?_, nofun, hkeeps _, ?_⟩
        · simp [inputEvent?, hc, hitems]
        · simp [Streams.remaining, consume, Inlet.Progress.after, Array.getElem?_modify, hc, Channel.receive, hitems]
      | nil =>
        refine ⟨.bytesDone, ?_, nofun, ⟨(hkeeps _).values, nofun⟩, ?_⟩
        · simp [inputEvent?, hc, hitems, hwriting]
        · simp [Streams.remaining, Inlet.Progress.after]

end World

/-! ## Open outlets -/

/-- Does the sink lead to no other stage? -/
def ByteSink.isOpen : ByteSink → Bool
  | channel _ => false
  | _ => true

/-- Does the sink lead to no other stage? -/
def ValueSink.isOpen : ValueSink → Bool
  | channel _ => false
  | print sink => sink.isOpen
  | _ => true

/-- Do both lanes lead to no other stage? -/
def Outlet.isOpen (outlet : Outlet) : Bool :=
  outlet.values.isOpen && outlet.bytes.isOpen

/-- Nothing has happened to the channels. -/
structure Streams.SameChannels (s s' : Streams) : Prop where
  values : s'.valueChannels = s.valueChannels
  bytes : s'.byteChannels = s.byteChannels

namespace Streams.SameChannels

variable {s s' s'' : Streams} {lanes : Inlet}

theorem trans (h : s.SameChannels s') (h' : s'.SameChannels s'') : s.SameChannels s'' :=
  ⟨h'.values.trans h.values, h'.bytes.trans h.bytes⟩

theorem supplies (h : s.SameChannels s') (hs : s.Supplies lanes) : s'.Supplies lanes :=
  hs.continues ⟨h.values ▸ .refl _, h.bytes ▸ .refl _⟩

theorem remaining (h : s.SameChannels s') : s'.remaining lanes = s.remaining lanes := by
  rw [Streams.remaining, Streams.remaining, h.values, h.bytes]

end Streams.SameChannels

namespace World

variable {w : World}

theorem bytesReady_of_isOpen {sink : ByteSink} (h : sink.isOpen = true) : w.bytesReady sink = true := by
  cases sink with
  | channel id => cases h
  | _ => rfl

theorem putReady_of_isOpen {sink : ValueSink} (h : sink.isOpen = true) : w.putReady sink = true := by
  cases sink with
  | channel id => cases h
  | print sink => exact bytesReady_of_isOpen h
  | _ => rfl

theorem writeBytes_channels {sink : ByteSink} (h : sink.isOpen = true) (bytes : Bytes) :
    w.streams.SameChannels (w.writeBytes sink bytes).2.streams := by
  cases sink with
  | channel id => cases h
  | file id =>
    rw [writeBytes]
    split <;> exact ⟨rfl, rfl⟩
  | _ => exact ⟨rfl, rfl⟩

theorem put_channels {sink : ValueSink} (h : sink.isOpen = true) (v : Value) :
    w.streams.SameChannels (w.put sink v).2.streams := by
  cases sink with
  | channel id => cases h
  | print sink => exact writeBytes_channels h _
  | _ => exact ⟨rfl, rfl⟩

end World

end ValueShell
