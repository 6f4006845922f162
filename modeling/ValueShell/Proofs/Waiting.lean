import ValueShell.Proofs.Mention

/-!
# What waits in the streams

Values wait in the channels between stages, in the input of a run, and in output that is being collected.
Whatever is done to the streams, what waits afterwards was waiting before, or was put there; and lines that
were made of bytes refer to nothing.
-/

set_option autoImplicit false

namespace ValueShell

variable {P : NsId → Prop}

theorem mem_modify_cases {α : Type} {xs : Array α} {i : Nat} {f : α → α} {y : α}
    (h : y ∈ xs.modify i f) : y ∈ xs ∨ ∃ x ∈ xs, y = f x := by
  obtain ⟨j, hj⟩ := Array.mem_iff_getElem?.1 h
  rw [Array.getElem?_modify] at hj
  split at hj
  · obtain ⟨x, hx, rfl⟩ := Option.map_eq_some_iff.1 hj
    exact .inr ⟨x, Array.mem_of_getElem? hx, rfl⟩
  · exact .inl (Array.mem_of_getElem? hj)

theorem mem_setIfInBounds_cases {α : Type} {xs : Array α} {i : Nat} {x y : α}
    (h : y ∈ xs.setIfInBounds i x) : y ∈ xs ∨ y = x := by
  obtain ⟨j, hj⟩ := Array.mem_iff_getElem?.1 h
  rw [Array.getElem?_setIfInBounds] at hj
  split at hj
  · split at hj
    · cases hj
      exact .inr rfl
    · cases hj
  · exact .inl (Array.mem_of_getElem? hj)

namespace Streams

variable {s : Streams} {v : Value}

/-- What waits refers only to namespaces with a property. -/
def Within (P : NsId → Prop) (s : Streams) : Prop :=
  ∀ v ∈ s.waiting, v.Within P

theorem within_iff : s.Within P ↔
    (∀ c ∈ s.valueChannels, ∀ v ∈ c.items, v.Within P) ∧
      ∀ c ∈ s.captures, ∀ v ∈ c.values, v.Within P := by
  simp only [Within, waiting, List.mem_append, List.mem_flatMap, Array.mem_toList_iff]
  constructor
  · exact fun h ↦ ⟨fun c hc v hv ↦ h v (.inl ⟨c, hc, hv⟩), fun c hc v hv ↦ h v (.inr ⟨c, hc, hv⟩)⟩
  · rintro ⟨hc, hp⟩ v (⟨c, hm, hv⟩ | ⟨c, hm, hv⟩)
    · exact hc c hm v hv
    · exact hp c hm v hv

/-- A channel changes. -/
theorem Within.modifyChannel (h : s.Within P) (i : Nat) {f : Channel Value → Channel Value}
    (hf : ∀ c, (∀ v ∈ c.items, v.Within P) → ∀ v ∈ (f c).items, v.Within P) :
    Within P { s with valueChannels := s.valueChannels.modify i f } := by
  obtain ⟨hc, hp⟩ := within_iff.1 h
  refine within_iff.2 ⟨fun c hm ↦ ?_, hp⟩
  rcases mem_modify_cases hm with hm | ⟨c', hm', rfl⟩
  · exact hc c hm
  · exact hf c' (hc c' hm')

/-- Output that is being collected changes. -/
theorem Within.modifyCapture (h : s.Within P) (i : Nat) {f : Capture → Capture}
    (hf : ∀ c, (∀ v ∈ c.values, v.Within P) → ∀ v ∈ (f c).values, v.Within P) :
    Within P { s with captures := s.captures.modify i f } := by
  obtain ⟨hc, hp⟩ := within_iff.1 h
  refine within_iff.2 ⟨hc, fun c hm ↦ ?_⟩
  rcases mem_modify_cases hm with hm | ⟨c', hm', rfl⟩
  · exact hp c hm
  · exact hf c' (hp c' hm')

theorem Within.addCapture (h : s.Within P) : s.addCapture.2.Within P := by
  obtain ⟨hc, hp⟩ := within_iff.1 h
  refine within_iff.2 ⟨hc, fun c hm v hv ↦ ?_⟩
  rcases Array.mem_push.1 hm with hm | rfl
  · exact hp c hm v hv
  · simp [Capture.empty] at hv

theorem Within.addPipe (h : s.Within P) (capacity : Nat) : (s.addPipe capacity).2.Within P := by
  obtain ⟨hc, hp⟩ := within_iff.1 h
  refine within_iff.2 ⟨fun c hm v hv ↦ ?_, hp⟩
  rcases Array.mem_push.1 hm with hm | rfl
  · exact hc c hm v hv
  · cases hv

theorem Within.endStage (h : s.Within P) (reads writes : Option Pipe) :
    (s.endStage reads writes).Within P := by
  have closeWriter (s : Streams) (h : s.Within P) (p : Pipe) : Within P { s with
      valueChannels := s.valueChannels.modify p.values.index Channel.closeWriter
      byteChannels := s.byteChannels.modify p.bytes.index Channel.closeWriter } :=
    Within.modifyChannel h _ fun c hc ↦ hc
  have closeReader (s : Streams) (h : s.Within P) (p : Pipe) : Within P { s with
      valueChannels := s.valueChannels.modify p.values.index Channel.closeReader
      byteChannels := s.byteChannels.modify p.bytes.index Channel.closeReader } :=
    Within.modifyChannel h _ fun c _ v hv ↦ by cases hv
  cases writes with
  | none =>
    cases reads with
    | none => exact h
    | some p => exact closeReader s h p
  | some q =>
    cases reads with
    | none => exact closeWriter s h q
    | some p => exact closeReader _ (closeWriter s h q) p

theorem Within.takeCapture (h : s.Within P) (id : CaptureId) :
    (∀ v ∈ (s.takeCapture id).1, v.Within P) ∧ (s.takeCapture id).2.Within P := by
  obtain ⟨hc, hp⟩ := within_iff.1 h
  constructor
  · intro v hv
    rw [Streams.takeCapture, Capture.finish, List.mem_append] at hv
    rcases hv with hv | hv
    · rw [Array.getD_eq_getD_getElem?] at hv
      cases hg : s.captures[id.index]? with
      | none =>
        rw [hg] at hv
        cases hv
      | some c =>
        rw [hg] at hv
        exact hp c (Array.mem_of_getElem? hg) v (Array.mem_toList_iff.1 hv)
    · rw [Option.mem_toList, Option.map_eq_some_iff] at hv
      obtain ⟨line, -, rfl⟩ := hv
      exact Value.within_str line
  · refine within_iff.2 ⟨hc, fun c hm v hv ↦ ?_⟩
    rcases mem_setIfInBounds_cases hm with hm | rfl
    · exact hp c hm v hv
    · simp [Capture.empty] at hv

end Streams

namespace World

variable {w : World} {v : Value}

theorem writeBytes_within (h : w.streams.Within P) (sink : ByteSink) (bytes : Bytes) :
    (w.writeBytes sink bytes).2.streams.Within P := by
  cases sink with
  | channel id =>
    rw [writeBytes]
    split
    · split
      · exact h
      · exact h
    · exact h
  | capture id =>
    refine Streams.Within.modifyCapture h _ fun c hc v hv ↦ ?_
    rw [Capture.write, Array.mem_append] at hv
    rcases hv with hv | hv
    · exact hc v hv
    · rw [List.mem_toArray, List.mem_map] at hv
      obtain ⟨line, -, rfl⟩ := hv
      exact Value.within_str _
  | buffer id => exact h
  | file id =>
    rw [writeBytes]
    split
    · exact h
    · exact h
  | discard => exact h

theorem put_within (h : w.streams.Within P) (hv : v.Within P) (sink : ValueSink) :
    (w.put sink v).2.streams.Within P := by
  cases sink with
  | channel id =>
    rw [put]
    split
    · split
      · refine Streams.Within.modifyChannel h _ fun c hc u hu ↦ ?_
        rw [Channel.send] at hu
        split at hu
        · rcases List.mem_append.1 hu with hu | hu
          · exact hc u hu
          · exact List.mem_singleton.1 hu ▸ hv
        · exact hc u hu
      · exact h
    · exact h
  | capture id =>
    refine Streams.Within.modifyCapture h _ fun c hc u hu ↦ ?_
    rcases Array.mem_push.1 hu with hu | rfl
    · exact hc u hu
    · exact hv
  | buffer id => exact h
  | print sink => exact writeBytes_within h sink _
  | discard => exact h

theorem writeBytes_reason {sink : ByteSink} {bytes : Bytes} {reason : Reason}
    (h : (w.writeBytes sink bytes).1 = .error reason) : reason.Simple := by
  unfold writeBytes at h
  repeat' split at h
  all_goals cases h <;> trivial

theorem put_reason {sink : ValueSink} {reason : Reason} (h : (w.put sink v).1 = .error reason) :
    reason.Simple := by
  cases sink with
  | print sink => exact writeBytes_reason h
  | channel id =>
    rw [put] at h
    repeat' split at h
    all_goals cases h <;> trivial
  | _ => cases h

end World

end ValueShell
