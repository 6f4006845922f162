import ValueShell.Frame

/-!
# Chunks make no difference

Bytes come in chunks, and values come between them.  Two readers turn both into one list of values: a `Capture`,
which is handed them one after another, and `Inlet.iterate`, which takes them off two lanes in whatever order the
lanes are selected.  Either way the outcome is a merge of the values with the lines of all the bytes
(`Delivery.Merges`), and behind it the text of the bytes after the last line end.  `chunks_immaterial` says so, and
where in a collection a line stands.

* `Lines.split_append` is the one fact about bytes: a line that is not complete can be carried over to the next
  chunk.
* `Capture.deliveries` lists what a collection takes in, and goes along with the steps it is given.
* `Prog.feed` answers what a program asks of its input from a `Supply`, which says what was sent and in which order
  the lanes are selected.  The world answers in one of these orders (`World.Carries.receive`).
* `Inlet.HandsOn.round` is one round of the reader, and `Inlet.exists_handsOn` the induction over its rounds.  It
  speaks of any lanes that are still open and any bytes that are left over, since both change from round to round.
-/

set_option autoImplicit false

namespace ValueShell

/-! ## Lines -/

namespace Lines

theorem split_cons_of_nil {b : UInt8} {bs : Bytes} (hb : b ≠ lineEnd) (h : (split bs).1 = []) :
    split (b :: bs) = ([], b :: (split bs).2) := by
  rw [split]
  simp only [if_neg hb, h]

theorem split_cons_of_cons {b : UInt8} {bs line : Bytes} {lines : List Bytes} (hb : b ≠ lineEnd)
    (h : (split bs).1 = line :: lines) : split (b :: bs) = ((b :: line) :: lines, (split bs).2) := by
  rw [split]
  simp only [if_neg hb, h]

theorem split_cons_lineEnd (bs : Bytes) : split (lineEnd :: bs) = ([] :: (split bs).1, (split bs).2) := by
  rw [split]
  simp only [if_pos]

/-- Bytes are made up of lines with their ends and of a rest; there are no other line ends. -/
structure Makes (lines : List Bytes) (rest bytes : Bytes) : Prop where
  joined : lines.flatMap (· ++ [lineEnd]) ++ rest = bytes
  lines : ∀ line ∈ lines, lineEnd ∉ line
  rest : lineEnd ∉ rest

/-- **The lines that bytes are split into are those they are made up of.** -/
theorem split_makes (bs : Bytes) : Makes (split bs).1 (split bs).2 bs := by
  induction bs with
  | nil => exact ⟨rfl, List.forall_mem_nil _, List.not_mem_nil⟩
  | cons b bs ih =>
    by_cases hb : b = lineEnd
    · rw [hb, split_cons_lineEnd]
      exact ⟨congrArg (lineEnd :: ·) ih.joined, List.forall_mem_cons.2 ⟨List.not_mem_nil, ih.lines⟩, ih.rest⟩
    · have hnot {bytes : Bytes} (h : lineEnd ∉ bytes) : lineEnd ∉ b :: bytes :=
        List.not_mem_cons_of_ne_of_not_mem (Ne.symm hb) h
      cases hlines : (split bs).1 with
      | nil =>
        rw [hlines] at ih
        rw [split_cons_of_nil hb hlines]
        exact ⟨congrArg (b :: ·) ih.joined, List.forall_mem_nil _, hnot ih.rest⟩
      | cons line lines =>
        rw [hlines] at ih
        rw [split_cons_of_cons hb hlines]
        obtain ⟨hline, hall⟩ := List.forall_mem_cons.1 ih.lines
        exact ⟨congrArg (b :: ·) ih.joined, List.forall_mem_cons.2 ⟨hnot hline, hall⟩, ih.rest⟩

theorem eq_of_split_eq_nil {bs rest : Bytes} (h : split bs = ([], rest)) : rest = bs := by
  induction bs generalizing rest with
  | nil =>
    cases h
    rfl
  | cons b bs ih =>
    by_cases hb : b = lineEnd
    · rw [hb, split_cons_lineEnd] at h
      cases h
    · cases hlines : (split bs).1 with
      | nil =>
        have hrest : split bs = ([], (split bs).2) := Prod.ext hlines rfl
        rw [split_cons_of_nil hb hlines] at h
        cases h
        rw [ih hrest]
      | cons line lines =>
        rw [split_cons_of_cons hb hlines] at h
        cases h

/-- **Bytes may be cut anywhere**, if what is left of the first part is carried over to the second. -/
theorem split_append (a b : Bytes) :
    split (a ++ b) = ((split a).1 ++ (split ((split a).2 ++ b)).1, (split ((split a).2 ++ b)).2) := by
  induction a with
  | nil => rfl
  | cons x a ih =>
    rw [List.cons_append]
    by_cases hx : x = lineEnd
    · rw [hx, split_cons_lineEnd, split_cons_lineEnd, ih]
      rfl
    · cases hlines : (split a).1 with
      | nil =>
        have hrest : (split a).2 = a := eq_of_split_eq_nil (Prod.ext hlines rfl)
        rw [split_cons_of_nil hx hlines, hrest]
        rfl
      | cons line lines =>
        have hall : (split (a ++ b)).1 = line :: (lines ++ (split ((split a).2 ++ b)).1) := by
          rw [ih, hlines]
          rfl
        rw [split_cons_of_cons hx hlines, split_cons_of_cons hx hall, ih]
        rfl

/-- What is left has no complete line in it. -/
theorem split_rest (bs : Bytes) : split (split bs).2 = ([], (split bs).2) := by
  have h := split_append bs []
  rw [List.append_nil, List.append_nil] at h
  have hlines : (split (split bs).2).1 = [] := by simpa using congrArg Prod.fst h
  exact Prod.ext hlines (congrArg Prod.snd h).symm

end Lines

/-! ## Merges -/

/-- Something a reader takes in: a value as it was sent, or a line of the bytes. -/
inductive Delivery where
  | value (v : Value)
  | line (bytes : Bytes)

namespace Delivery

/-- What is handed on. -/
def toValue : Delivery → Value
  | value v => v
  | line bytes => .str (Utf8.decodeLossy bytes)

/-- The value that was sent, if it is one. -/
def value? : Delivery → Option Value
  | value v => some v
  | line _ => none

/-- The bytes of the line, if it is one. -/
def line? : Delivery → Option Bytes
  | value _ => none
  | line bytes => some bytes

/-- All that is handed on when some bytes are left at the end: their text comes last. -/
def all (ds : List Delivery) (rest : Bytes) : List Value :=
  ds.map toValue ++ ((Lines.unfinished? rest).map Value.str).toList

/-- Values in their order are merged with the lines of bytes in theirs, each once. -/
structure Merges (vs : List Value) (bytes : Bytes) (ds : List Delivery) : Prop where
  values : ds.filterMap value? = vs
  lines : ds.filterMap line? = (Lines.split bytes).1

theorem map_toValue_line (lines : List Bytes) :
    (lines.map line).map toValue = lines.map fun bytes ↦ .str (Utf8.decodeLossy bytes) := by
  simp [toValue]

theorem all_append (ds ds' : List Delivery) (rest : Bytes) : all (ds ++ ds') rest = ds.map toValue ++ all ds' rest := by
  simp [all]

namespace Merges

variable {vs : List Value} {a b : Bytes} {ds : List Delivery}

theorem value (h : Merges vs b ds) (v : Value) : Merges (v :: vs) b (.value v :: ds) :=
  ⟨congrArg (v :: ·) h.values, h.lines⟩

/-- The lines of a first part come first, and what is left of it goes with the second. -/
theorem chunk (h : Merges vs ((Lines.split a).2 ++ b) ds) : Merges vs (a ++ b) ((Lines.split a).1.map line ++ ds) := by
  have hnone : ((Lines.split a).1.map line).filterMap value? = [] := by
    simp [List.filterMap_map, Function.comp_def, value?]
  have hlines : ((Lines.split a).1.map line).filterMap line? = (Lines.split a).1 := by
    simp [List.filterMap_map, Function.comp_def, line?]
  constructor
  · rw [List.filterMap_append, hnone, h.values]
    rfl
  · rw [List.filterMap_append, hlines, h.lines, Lines.split_append a]

end Merges

end Delivery

/-! ## Collected output -/

namespace Capture

/-- A step of a collection. -/
inductive Step where
  | put (v : Value)
  | write (bytes : Bytes)

namespace Step

/-- The value put. -/
def value? : Step → Option Value
  | put v => some v
  | write _ => none

/-- The bytes written. -/
def bytes : Step → Bytes
  | put _ => []
  | write bytes => bytes

/-- The same step with every byte written by itself. -/
def bytewise : Step → List Step
  | put v => [put v]
  | write bytes => bytes.map fun b ↦ write [b]

/-- The collection after the step. -/
def apply (c : Capture) : Step → Capture
  | put v => c.put v
  | write bytes => c.write bytes

end Step

/-- The collection after steps from the empty one on. -/
def collect (steps : List Step) : Capture :=
  steps.foldl Step.apply empty

/-- The values put. -/
def puts (steps : List Step) : List Value :=
  steps.filterMap Step.value?

/-- All bytes written. -/
def written (steps : List Step) : Bytes :=
  steps.flatMap Step.bytes

/-- What a collection takes in, step by step, when there are bytes of a line already. -/
def deliveries : Bytes → List Step → List Delivery
  | _, [] => []
  | pending, .put v :: steps => .value v :: deliveries pending steps
  | pending, .write bytes :: steps =>
    (Lines.split (pending ++ bytes)).1.map .line ++ deliveries (Lines.split (pending ++ bytes)).2 steps

variable {c : Capture} {pending : Bytes} {steps steps' : List Step}

theorem foldl_apply (steps : List Step) (hpending : c.pending = pending) (hrest : Lines.split pending = ([], pending)) :
    (steps.foldl Step.apply c).values.toList = c.values.toList ++ (deliveries pending steps).map Delivery.toValue ∧
      (steps.foldl Step.apply c).pending = (Lines.split (pending ++ written steps)).2 := by
  induction steps generalizing c pending with
  | nil => simp [deliveries, written, hrest, hpending]
  | cons step steps ih =>
    cases step with
    | put v =>
      obtain ⟨hvalues, hleft⟩ := ih (c := c.put v) hpending hrest
      refine ⟨?_, hleft⟩
      rw [List.foldl_cons, Step.apply, hvalues, put, deliveries, List.map_cons]
      simp [Delivery.toValue]
    | write bytes =>
      have hstep : (c.write bytes).pending = (Lines.split (pending ++ bytes)).2 := by rw [write, hpending]
      obtain ⟨hvalues, hleft⟩ := ih hstep (Lines.split_rest _)
      constructor
      · rw [List.foldl_cons, Step.apply, hvalues, deliveries, List.map_append, Delivery.map_toValue_line, write,
          hpending]
        simp
      · rw [List.foldl_cons, Step.apply, hleft, written, written, List.flatMap_cons, ← List.append_assoc,
          Lines.split_append (pending ++ Step.bytes _)]
        rfl

theorem finish_collect (steps : List Step) :
    (collect steps).finish = Delivery.all (deliveries [] steps) (Lines.split (written steps)).2 := by
  obtain ⟨hvalues, hleft⟩ := foldl_apply (c := empty) steps rfl rfl
  rw [finish, collect, hvalues, hleft]
  rfl

theorem deliveries_merges (steps : List Step) (hrest : Lines.split pending = ([], pending)) :
    Delivery.Merges (puts steps) (pending ++ written steps) (deliveries pending steps) := by
  induction steps generalizing pending with
  | nil => exact ⟨rfl, by simp [written, hrest, deliveries]⟩
  | cons step steps ih =>
    cases step with
    | put v => exact (ih hrest).value v
    | write bytes =>
      have hall : pending ++ written (.write bytes :: steps) = pending ++ bytes ++ written steps :=
        (List.append_assoc ..).symm
      rw [hall]
      exact (ih (Lines.split_rest (pending ++ bytes))).chunk

/-- What the first steps deliver comes first, whatever follows. -/
theorem deliveries_append (pending : Bytes) (steps steps' : List Step) :
    ∃ pending', deliveries pending (steps ++ steps') = deliveries pending steps ++ deliveries pending' steps' := by
  induction steps generalizing pending with
  | nil => exact ⟨pending, rfl⟩
  | cons step steps ih =>
    cases step with
    | put v =>
      obtain ⟨pending', h⟩ := ih pending
      exact ⟨pending', congrArg (Delivery.value v :: ·) h⟩
    | write bytes =>
      obtain ⟨pending', h⟩ := ih (Lines.split (pending ++ bytes)).2
      exact ⟨pending', by rw [List.cons_append, deliveries, h, deliveries, List.append_assoc]⟩

theorem deliveries_take (steps : List Step) (m : Nat) :
    ∃ j, (deliveries [] steps).take j = deliveries [] (steps.take m) := by
  obtain ⟨pending, h⟩ := deliveries_append [] (steps.take m) (steps.drop m)
  rw [List.take_append_drop] at h
  exact ⟨(deliveries [] (steps.take m)).length, by rw [h, List.take_left]⟩

/-- **Two writes are one.** -/
theorem write_write (c : Capture) (a b : Bytes) : (c.write a).write b = c.write (a ++ b) := by
  simp only [write]
  rw [← List.append_assoc c.pending a b, Lines.split_append (c.pending ++ a) b]
  simp

theorem write_bytewise (hrest : Lines.split c.pending = ([], c.pending)) (bytes : Bytes) :
    (Step.write bytes).bytewise.foldl Step.apply c = c.write bytes := by
  rw [Step.bytewise, List.foldl_map]
  induction bytes generalizing c with
  | nil =>
    rw [write, List.append_nil, hrest]
    simp
  | cons b bytes ih =>
    have hstep : Lines.split (c.write [b]).pending = ([], (c.write [b]).pending) := Lines.split_rest _
    rw [List.foldl_cons, Step.apply, ih hstep, write_write]
    rfl

theorem collect_bytewise (steps : List Step) : collect (steps.flatMap Step.bytewise) = collect steps := by
  suffices h : ∀ c : Capture, Lines.split c.pending = ([], c.pending) →
      (steps.flatMap Step.bytewise).foldl Step.apply c = steps.foldl Step.apply c from h empty rfl
  induction steps with
  | nil => exact fun _ _ ↦ rfl
  | cons step steps ih =>
    intro c hrest
    rw [List.flatMap_cons, List.foldl_append, List.foldl_cons]
    cases step with
    | put v => exact ih _ hrest
    | write bytes =>
      rw [write_bytewise hrest]
      exact ih _ (Lines.split_rest _)

end Capture

/-! ## What is sent on two lanes -/

/-- What was sent on the lanes of a reader's input and not taken yet, and the order in which the lanes are selected:
whether it is the values' turn, for each time that both are asked for. -/
structure Supply where
  values : List Value
  chunks : List Bytes
  valuesFirst : List Bool

namespace Supply

/-- The next thing on the lane of the values. -/
def nextValue (s : Supply) : World.InputEvent × Supply :=
  match s.values with
  | v :: vs => (.value v, { s with values := vs })
  | [] => (.valuesDone, s)

/-- The next thing on the lane of the bytes. -/
def nextChunk (s : Supply) : World.InputEvent × Supply :=
  match s.chunks with
  | chunk :: chunks => (.bytes chunk, { s with chunks })
  | [] => (.bytesDone, s)

/-- What a reader is told when it asks for some lanes.  When there are no more turns the values come first. -/
def answer (s : Supply) (lanes : Inlet) : World.InputEvent × Supply :=
  if lanes.bytes.isNone then s.nextValue
  else if lanes.values.isNone then s.nextChunk
  else match s.valuesFirst with
    | true :: turns => { s with valuesFirst := turns }.nextValue
    | false :: turns => { s with valuesFirst := turns }.nextChunk
    | [] => s.nextValue

/-- A supply hands out the next event of one of the lanes asked for. -/
inductive Hands (lanes : Inlet) : Supply → World.InputEvent → Supply → Prop
  | value {v : Value} {vs : List Value} {chunks : List Bytes} {turns turns' : List Bool}
      (h : lanes.values.isSome) : Hands lanes ⟨v :: vs, chunks, turns⟩ (.value v) ⟨vs, chunks, turns'⟩
  | chunk {chunk : Bytes} {vs : List Value} {chunks : List Bytes} {turns turns' : List Bool}
      (h : lanes.bytes.isSome) : Hands lanes ⟨vs, chunk :: chunks, turns⟩ (.bytes chunk) ⟨vs, chunks, turns'⟩
  | valuesDone {chunks : List Bytes} {turns turns' : List Bool} (h : lanes.values.isSome) :
      Hands lanes ⟨[], chunks, turns⟩ .valuesDone ⟨[], chunks, turns'⟩
  | bytesDone {vs : List Value} {turns turns' : List Bool} (h : lanes.bytes.isSome) :
      Hands lanes ⟨vs, [], turns⟩ .bytesDone ⟨vs, [], turns'⟩

theorem nextValue_hands {s : Supply} {lanes : Inlet} {turns : List Bool} (h : lanes.values.isSome) :
    Hands lanes { s with valuesFirst := turns } s.nextValue.1 s.nextValue.2 := by
  obtain ⟨_ | ⟨v, vs⟩, chunks, _⟩ := s
  · exact .valuesDone h
  · exact .value h

theorem nextChunk_hands {s : Supply} {lanes : Inlet} {turns : List Bool} (h : lanes.bytes.isSome) :
    Hands lanes { s with valuesFirst := turns } s.nextChunk.1 s.nextChunk.2 := by
  obtain ⟨vs, _ | ⟨chunk, chunks⟩, _⟩ := s
  · exact .bytesDone h
  · exact .chunk h

theorem answer_hands {s : Supply} {lanes : Inlet} (h : lanes.isFinished = false) :
    Hands lanes s (s.answer lanes).1 (s.answer lanes).2 := by
  obtain ⟨_ | values, _ | bytes⟩ := lanes
  · cases h
  · exact nextChunk_hands rfl
  · exact nextValue_hands rfl
  · obtain ⟨vs, chunks, _ | ⟨_ | _, turns⟩⟩ := s
    · exact nextValue_hands (s := ⟨vs, chunks, []⟩) rfl
    · exact nextChunk_hands (s := ⟨vs, chunks, turns⟩) rfl
    · exact nextValue_hands (s := ⟨vs, chunks, turns⟩) rfl

end Supply

/-- Are these lanes of the port, and at least one? -/
def Inlet.isPart (lanes port : Inlet) : Bool :=
  !lanes.isFinished && (lanes.values.isNone || lanes.values == port.values) &&
    (lanes.bytes.isNone || lanes.bytes == port.bytes)

theorem Inlet.isPart_iff {lanes port : Inlet} : lanes.isPart port = true ↔ lanes.isFinished = false ∧
    (lanes.values = none ∨ lanes.values = port.values) ∧ (lanes.bytes = none ∨ lanes.bytes = port.bytes) := by
  simp [isPart, and_assoc]

/-- The lanes of a port hold a supply, and nothing more will be written to them. -/
structure World.Carries (w : World) (port : Inlet) (s : Supply) : Prop where
  values : ∀ id, port.values = some id →
    ∃ c, w.streams.valueChannels[id.index]? = some c ∧ c.items = s.values ∧ c.writing = false
  bytes : ∀ id, port.bytes = some id →
    ∃ c, w.streams.byteChannels[id.index]? = some c ∧ c.items = s.chunks ∧ c.writing = false

namespace World.Carries

variable {w : World} {port lanes : Inlet} {s : Supply}

theorem nextValue (h : w.Carries port s) {id : ValueChannelId} (hid : lanes.values = some id)
    (hport : port.values = some id) (line : Nat) :
    w.inputEvent? lanes line = some s.nextValue.1 ∧ (w.consume lanes s.nextValue.1).Carries port s.nextValue.2 := by
  obtain ⟨c, hc, hitems, hwriting⟩ := h.values id hport
  obtain ⟨vs, chunks, turns⟩ := s
  cases vs with
  | nil => exact ⟨by simp [inputEvent?, hid, hc, hitems, hwriting, Supply.nextValue], h⟩
  | cons v vs =>
    dsimp only at hitems
    have htaken : c.receive.2.items = vs ∧ c.receive.2.writing = false := by simp [Channel.receive, hitems, hwriting]
    refine ⟨by simp [inputEvent?, hid, hc, hitems, Supply.nextValue], fun id' hid' ↦ ?_, fun id' hid' ↦ ?_⟩
    · obtain rfl : id = id' := Option.some.inj (hport.symm.trans hid')
      exact ⟨c.receive.2, by simp [consume, Supply.nextValue, hid, Array.getElem?_modify, hc], htaken⟩
    · simpa [consume, Supply.nextValue, hid] using h.bytes id' hid'

theorem nextChunk (h : w.Carries port s) {id : ByteChannelId} (hnone : lanes.values = none)
    (hid : lanes.bytes = some id) (hport : port.bytes = some id) (line : Nat) :
    w.inputEvent? lanes line = some s.nextChunk.1 ∧ (w.consume lanes s.nextChunk.1).Carries port s.nextChunk.2 := by
  obtain ⟨c, hc, hitems, hwriting⟩ := h.bytes id hport
  obtain ⟨vs, chunks, turns⟩ := s
  cases chunks with
  | nil => exact ⟨by simp [inputEvent?, hnone, hid, hc, hitems, hwriting, Supply.nextChunk], h⟩
  | cons chunk chunks =>
    dsimp only at hitems
    have htaken : c.receive.2.items = chunks ∧ c.receive.2.writing = false := by
      simp [Channel.receive, hitems, hwriting]
    refine ⟨by simp [inputEvent?, hnone, hid, hc, hitems, Supply.nextChunk], fun id' hid' ↦ ?_, fun id' hid' ↦ ?_⟩
    · simpa [consume, Supply.nextChunk, hid] using h.values id' hid'
    · obtain rfl : id = id' := Option.some.inj (hport.symm.trans hid')
      exact ⟨c.receive.2, by simp [consume, Supply.nextChunk, hid, Array.getElem?_modify, hc], htaken⟩

/-- **The world selects the lanes in one of these orders.**  It answers a reader with the values first, and has the
rest of the supply then. -/
theorem receive (h : w.Carries port s) (hturns : s.valuesFirst = []) (hpart : lanes.isPart port = true) (line : Nat) :
    w.inputEvent? lanes line = some (s.answer lanes).1 ∧
      (w.consume lanes (s.answer lanes).1).Carries port (s.answer lanes).2 := by
  obtain ⟨hopen, hvalues, hbytes⟩ := Inlet.isPart_iff.1 hpart
  obtain ⟨_ | id, _ | id'⟩ := lanes
  · cases hopen
  · exact h.nextChunk rfl rfl (hbytes.resolve_left (by simp)).symm line
  · exact h.nextValue rfl (hvalues.resolve_left (by simp)).symm line
  · have hanswer : s.answer ⟨some id, some id'⟩ = s.nextValue := by simp [Supply.answer, hturns]
    rw [hanswer]
    exact h.nextValue rfl (hvalues.resolve_left (by simp)).symm line

end World.Carries

/-! ## Answering what a program reads -/

/-- The answer to an act that reads from a port. -/
def Act.fed? (port : Inlet) (s : Supply) : (a : Act) → Option (a.Reply × Supply)
  | .receive lanes _ => if lanes.isPart port then some (s.answer lanes) else none
  | _ => none

/-- The program with everything it reads from a port answered from a supply; what else it does is left as it is. -/
def Prog.feed (port : Inlet) : Prog → Supply → Prog
  | .done o, _ => .done o
  | .spent, _ => .spent
  | .act a next, s =>
    match a.fed? port s with
    | some (r, s) => (next r).feed port s
    | none => .act a fun r ↦ (next r).feed port s
  | .note n p, s => .note n (p.feed port s)
  | .fork stages next, s => .fork stages fun os ↦ (next os).feed port s

/-- The computation reads nothing from the port: whatever is sent is there for what comes after it. -/
def Comp.Spares (port : Inlet) {α : Type} (m : Comp α) : Prop :=
  ∀ k s, (m k).feed port s = m fun r ↦ (k r).feed port s

namespace Comp.Spares

variable {port : Inlet} {α β : Type}

theorem pure (a : α) : Spares port (Pure.pure a) :=
  fun _ _ ↦ rfl

theorem bind {m : Comp α} {f : α → Comp β} (h : m.Spares port) (hf : ∀ a, (f a).Spares port) :
    (m >>= f).Spares port := by
  intro k s
  refine (h _ s).trans (congrArg m (funext fun r ↦ ?_))
  cases r with
  | ok a => exact hf a k s
  | error e => rfl

theorem act {a : Act} (h : ∀ s, a.fed? port s = none) : (Comp.act a).Spares port := by
  intro k s
  rw [Comp.act, Prog.feed, h s]
  rfl

/-- What comes after is fed in its turn. -/
theorem feed_bind {m : Comp α} {g g' : α → Comp β} {k : Except Failure β → Prog} {s : Supply} (h : m.Spares port)
    (hk : ∀ e, (k (.error e)).feed port s = k (.error e)) (hg : ∀ a, (g a k).feed port s = g' a k) :
    ((m >>= g) k).feed port s = (m >>= g') k := by
  refine (h _ s).trans (congrArg m (funext fun r ↦ ?_))
  cases r with
  | ok a => exact hg a
  | error e => exact hk e

theorem forEach {f : α → Comp Unit} (h : ∀ x, (f x).Spares port) : (xs : List α) → (Comp.forEach f xs).Spares port
  | [] => pure ()
  | x :: xs => bind (h x) fun _ ↦ forEach h xs

end Comp.Spares

theorem Comp.forEach_append {α : Type} (f : α → Comp Unit) (xs ys : List α) :
    Comp.forEach f (xs ++ ys) = (do
      Comp.forEach f xs
      Comp.forEach f ys) := by
  induction xs with
  | nil => rfl
  | cons x xs ih =>
    rw [List.cons_append, Comp.forEach, ih]
    funext k
    refine congrArg (f x) (funext fun r ↦ ?_)
    cases r <;> rfl

theorem Comp.forEach_map {α β : Type} (f : β → Comp Unit) (g : α → β) (xs : List α) :
    Comp.forEach f (xs.map g) = Comp.forEach (fun x ↦ f (g x)) xs := by
  induction xs with
  | nil => rfl
  | cons x xs ih => rw [List.map_cons, Comp.forEach, Comp.forEach, ih]

/-! ## The reader -/

namespace Inlet

variable {port lanes : Inlet} {line n : Nat} {f : Value → Comp Unit} {s : Supply} {pending rest : Bytes}
  {ds : List Delivery}

/-- The reader, answered from a supply, hands on these deliveries and the text of what is left behind them, and does
nothing else. -/
def HandsOn (port : Inlet) (line : Nat) (f : Value → Comp Unit) (n : Nat) (p : Progress) (s : Supply)
    (ds : List Delivery) (rest : Bytes) : Prop :=
  ∀ k, (∀ r s, (k r).feed port s = k r) →
    ((iterate line f n p) k).feed port s = Comp.forEach f (Delivery.all ds rest) k

/-- A reader whose lanes have finished hands on what is left. -/
theorem HandsOn.finished (hf : ∀ v, (f v).Spares port) (hlanes : lanes.isFinished = true) :
    HandsOn port line f (n + 1) ⟨lanes, pending⟩ s [] pending := by
  intro k hk
  rw [iterate, if_pos hlanes, Delivery.all, List.map_nil, List.nil_append, Option.toList_map, Comp.forEach_map]
  exact (Comp.Spares.forEach (fun text ↦ hf (.str text)) _ k s).trans (congrArg _ (funext fun r ↦ hk r s))

/-- A round of a reader: what the event delivers comes before what the other rounds deliver. -/
theorem HandsOn.round (front : List Delivery) (hf : ∀ v, (f v).Spares port) (hlanes : lanes.isFinished = false)
    (hpart : lanes.isPart port = true) {e : World.InputEvent} {s' : Supply} (hanswer : s.answer lanes = (e, s'))
    (hfront : ((Progress.mk lanes pending).after e).1 = front.map Delivery.toValue)
    (h : HandsOn port line f n ((Progress.mk lanes pending).after e).2 s' ds rest) :
    HandsOn port line f (n + 1) ⟨lanes, pending⟩ s (front ++ ds) rest := by
  intro k hk
  have hevent : e ≠ .interrupted := by
    have hhands := Supply.answer_hands (s := s) hlanes
    rw [hanswer] at hhands
    cases hhands <;> simp
  have hact (g : World.InputEvent → Comp Unit) :
      ((Comp.act (.receive lanes line) >>= g) k).feed port s = (g e k).feed port s' := by
    have hunfold : (Comp.act (.receive lanes line) >>= g) k = .act (.receive lanes line) fun r ↦ g r k := rfl
    have hfed : (Act.receive lanes line).fed? port s = some (s.answer lanes) := if_pos hpart
    rw [hunfold, Prog.feed, hfed, hanswer]
  have hmatch : ((iterate line f (n + 1) ⟨lanes, pending⟩) k).feed port s =
      ((do Comp.forEach f ((Progress.mk lanes pending).after e).1
           iterate line f n ((Progress.mk lanes pending).after e).2 : Comp Unit) k).feed port s' := by
    rw [iterate, if_neg (by simp [hlanes]), hact]
    cases e <;> first | rfl | exact absurd rfl hevent
  have hrest : ((do Comp.forEach f ((Progress.mk lanes pending).after e).1
                    iterate line f n ((Progress.mk lanes pending).after e).2 : Comp Unit) k).feed port s' =
      (do Comp.forEach f ((Progress.mk lanes pending).after e).1
          Comp.forEach f (Delivery.all ds rest) : Comp Unit) k :=
    (Comp.Spares.forEach hf _).feed_bind (fun e ↦ hk (.error e) s') fun _ ↦ h k hk
  rw [hmatch, hrest, hfront, Delivery.all_append, Comp.forEach_append]

/-- **The reader from any of its rounds on**, with bytes of a line that is not complete from before. -/
theorem exists_handsOn (hf : ∀ v, (f v).Spares port) (lanes : Inlet) (s : Supply) (pending : Bytes)
    (hvalues : lanes.values = none ∨ lanes.values = port.values)
    (hbytes : lanes.bytes = none ∨ lanes.bytes = port.bytes) (hnoValues : lanes.values = none → s.values = [])
    (hnoChunks : lanes.bytes = none → s.chunks = []) (hrest : Lines.split pending = ([], pending))
    (hn : s.values.length + lanes.values.isSome.toNat + (s.chunks.length + lanes.bytes.isSome.toNat) < n) :
    ∃ ds, Delivery.Merges s.values (pending ++ s.chunks.flatten) ds ∧
      HandsOn port line f n ⟨lanes, pending⟩ s ds (Lines.split (pending ++ s.chunks.flatten)).2 := by
  induction n generalizing lanes s pending with
  | zero => cases hn
  | succ n ih =>
    by_cases hlanes : lanes.isFinished = true
    · have hnone : lanes.values = none ∧ lanes.bytes = none := by simpa [isFinished] using hlanes
      rw [hnoValues hnone.1, hnoChunks hnone.2, List.flatten_nil, List.append_nil, hrest]
      exact ⟨[], ⟨rfl, by rw [hrest]; rfl⟩, .finished hf hlanes⟩
    · rw [Bool.not_eq_true] at hlanes
      have hpart : lanes.isPart port = true := isPart_iff.2 ⟨hlanes, hvalues, hbytes⟩
      have hhands := Supply.answer_hands (s := s) hlanes
      generalize hanswer : s.answer lanes = answer at hhands
      obtain ⟨e, s'⟩ := answer
      cases hhands with
      | @value v vs chunks turns turns' h =>
        obtain ⟨ds, hmerges, hall⟩ := ih lanes ⟨vs, chunks, turns'⟩ pending hvalues hbytes
          (fun hnone ↦ by simp [hnone] at h) hnoChunks hrest (by simp only [List.length_cons] at hn ⊢; omega)
        exact ⟨_, hmerges.value v, .round [.value v] hf hlanes hpart hanswer rfl hall⟩
      | @chunk chunk vs chunks turns turns' h =>
        obtain ⟨ds, hmerges, hall⟩ := ih lanes ⟨vs, chunks, turns'⟩ (Lines.split (pending ++ chunk)).2 hvalues hbytes
          hnoValues (fun hnone ↦ by simp [hnone] at h) (Lines.split_rest _)
          (by simp only [List.length_cons] at hn ⊢; omega)
        have hall' : pending ++ (chunk :: chunks).flatten = pending ++ chunk ++ chunks.flatten :=
          (List.append_assoc ..).symm
        rw [hall', Lines.split_append (pending ++ chunk)]
        exact ⟨_, hmerges.chunk, .round _ hf hlanes hpart hanswer (Delivery.map_toValue_line _).symm hall⟩
      | @valuesDone chunks turns turns' h =>
        obtain ⟨ds, hmerges, hall⟩ := ih ⟨none, lanes.bytes⟩ ⟨[], chunks, turns'⟩ pending
          (.inl rfl) hbytes (fun _ ↦ rfl) hnoChunks hrest (by simp [h] at hn ⊢; omega)
        exact ⟨ds, hmerges, .round [] hf hlanes hpart hanswer rfl hall⟩
      | @bytesDone vs turns turns' h =>
        obtain ⟨ds, hmerges, hall⟩ := ih ⟨lanes.values, none⟩ ⟨vs, [], turns'⟩ pending
          hvalues (.inl rfl) hnoValues (fun _ ↦ rfl) hrest (by simp [h] at hn ⊢; omega)
        exact ⟨ds, hmerges, .round [] hf hlanes hpart hanswer rfl hall⟩

end Inlet

/-! ## The two readers -/

/-- **Chunks make no difference.**  Splitting bytes gives their lines and what is behind the last line end.

What a collection gives at its end are the values put, merged with the lines of all bytes written, and the text of
the bytes that are left.  After any number of steps it had taken in those values and lines that the steps so
far make up, so a line stands behind the values put before the write that completed it and before those put after
that write.  Only the single bytes count: writes may be split and joined.

What `iterate` hands to `f` are the values sent on one lane, merged with the lines of all chunks sent on the other,
and the text of the bytes that are left, whichever lane is selected each time.  The reader, answered from such a
supply, is the same program as one that does `f` for each of these in turn. -/
theorem chunks_immaterial :
    (∀ bytes, Lines.Makes (Lines.split bytes).1 (Lines.split bytes).2 bytes) ∧
    (∀ steps : List Capture.Step, ∃ ds, Delivery.Merges (Capture.puts steps) (Capture.written steps) ds ∧
      (Capture.collect steps).finish = Delivery.all ds (Lines.split (Capture.written steps)).2 ∧
      ∀ m, ∃ j, Delivery.Merges (Capture.puts (steps.take m)) (Capture.written (steps.take m)) (ds.take j)) ∧
    (∀ steps steps' : List Capture.Step,
      steps.flatMap Capture.Step.bytewise = steps'.flatMap Capture.Step.bytewise →
        (Capture.collect steps).finish = (Capture.collect steps').finish) ∧
    ∀ (port : Inlet) (line n : Nat) (f : Value → Comp Unit) (s : Supply), (∀ v, (f v).Spares port) →
      (port.values = none → s.values = []) → (port.bytes = none → s.chunks = []) →
      s.values.length + s.chunks.length + 2 < n →
      ∃ ds, Delivery.Merges s.values s.chunks.flatten ds ∧
        ∀ k, (∀ r s, (k r).feed port s = k r) →
          ((Inlet.iterate line f n ⟨port, []⟩) k).feed port s =
            Comp.forEach f (Delivery.all ds (Lines.split s.chunks.flatten).2) k := by
  refine ⟨Lines.split_makes, fun steps ↦ ?_, fun steps steps' h ↦ ?_,
    fun port line n f s hf hnoValues hnoChunks hn ↦ ?_⟩
  · have hmerges (steps : List Capture.Step) : Delivery.Merges (Capture.puts steps) (Capture.written steps)
        (Capture.deliveries [] steps) := by
      rw [← List.nil_append (Capture.written steps)]
      exact Capture.deliveries_merges steps rfl
    refine ⟨_, hmerges steps, Capture.finish_collect steps, fun m ↦ ?_⟩
    obtain ⟨j, hj⟩ := Capture.deliveries_take steps m
    exact ⟨j, hj ▸ hmerges (steps.take m)⟩
  · rw [← Capture.collect_bytewise steps, h, Capture.collect_bytewise]
  · have hlanes : port.values.isSome.toNat ≤ 1 ∧ port.bytes.isSome.toNat ≤ 1 := ⟨Bool.toNat_le _, Bool.toNat_le _⟩
    have hrounds : s.values.length + port.values.isSome.toNat + (s.chunks.length + port.bytes.isSome.toNat) < n := by
      omega
    exact Inlet.exists_handsOn hf port s [] (.inr rfl) (.inr rfl) hnoValues hnoChunks rfl hrounds

/-- A character whose bytes come in two chunks, between values, and one more byte behind the line. -/
theorem chunks_immaterial_cutCharacter :
    let port : Inlet := ⟨some ⟨0⟩, some ⟨0⟩⟩
    let f : Value → Comp Unit := fun v ↦ discard (Comp.act (.put (.buffer ⟨0⟩) v))
    let s : Supply := ⟨[.nil, .bool true], [[0xC3], [0xA9, 10, 0x62]], [false, true, false]⟩
    (Capture.collect [.put .nil, .write [0xC3], .write [0xA9, 10]]).finish =
        (Capture.collect [.put .nil, .write [0xC3, 0xA9, 10]]).finish ∧
      (∀ v, (f v).Spares port) ∧
      ∃ ds, ds.filterMap Delivery.value? = [.nil, .bool true] ∧ ds.filterMap Delivery.line? = [[0xC3, 0xA9]] ∧
        (Inlet.iterate 0 f 7 ⟨port, []⟩).program.feed port s = (Comp.forEach f (Delivery.all ds [0x62])).program := by
  intro port f s
  have hf : ∀ v, (f v).Spares port := fun _ ↦ .bind (.act fun _ ↦ rfl) fun _ ↦ .pure ()
  obtain ⟨-, -, hwrites, hreader⟩ := chunks_immaterial
  obtain ⟨ds, hmerges, hall⟩ := hreader port 0 7 f s hf nofun nofun (by decide)
  exact ⟨hwrites _ _ rfl, hf, ds, hmerges.values, hmerges.lines, hall .done fun _ _ ↦ rfl⟩

end ValueShell
