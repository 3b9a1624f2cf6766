/-
UnwindTables.Proofs.Record.FramingTheorems — where the records of a section are.

`Record.Frames` says what the framing of one record establishes: the record starts where its window
starts, its body ends where the record does, and what is left starts there. Records that follow
each other are therefore at increasing section offsets, and that is all that the proofs about
tables need to tell them apart.

The other result is about damage: whatever ends the records of a section is a malformation, so
`Fault.malformed` is the only fault that a section as a whole can have.
-/
import UnwindTables.Proofs.Bytes.WindowTheorems
import UnwindTables.Record

namespace UnwindTables

/-- The fault is damage to the framing. -/
def Fault.IsMalformation (fault : Fault) : Prop := ∃ offset reason, fault = .malformed offset reason

namespace Record

variable {order : ByteOrder} {window rest : Window} {record : Record}

/-- The body of a record is what its length leaves after the id. -/
structure Framed (record : Record) : Prop where
  bodyStart : record.body.offset = record.idOffset + 4
  bodyStop : record.body.stop = record.stop
  length : 4 ≤ record.length

/-- A record takes the front of a window and leaves the rest. -/
structure Frames (window : Window) (record : Record) (rest : Window) : Prop where
  framed : record.Framed
  offset : record.offset = window.offset
  restStart : rest.offset = record.stop
  restStop : rest.stop = window.stop

theorem idOffset_le_stop (record : Record) : record.idOffset ≤ record.stop := Nat.le_add_right _ _

theorem offset_lt_stop (record : Record) : record.offset < record.stop := by
  have := record.format.lengthSize_pos
  simp only [stop]
  omega

/-! ## 1. One record -/

theorem isMalformation_of_word {width : Nat} {fault : Fault}
    (h : window.word order width = .error fault) : fault.IsMalformation := by
  unfold Window.word at h
  split at h
  · exact ⟨_, _, (Except.error.inj h).symm⟩
  · simp at h

theorem isMalformation_of_split {n : Nat} {fault : Fault}
    (h : window.split n = .error fault) : fault.IsMalformation := by
  unfold Window.split at h
  split at h
  · simp at h
  · exact ⟨_, _, (Except.error.inj h).symm⟩

theorem isMalformation_of_throw {β : Type} {reason : Malformation} {fault : Fault}
    (h : (throw (window.fault reason) : Except Fault β) = .error fault) : fault.IsMalformation :=
  ⟨_, _, (Except.error.inj h).symm⟩

/-- What is left after the length field starts after it. -/
theorem offset_of_readLength {format : RecordFormat} {length : Nat}
    (h : readLength order window = .ok (some (format, length, rest))) :
    rest.offset = window.offset + format.lengthSize := by
  obtain ⟨⟨first, afterFirst⟩, hfirst, h⟩ := Steps.bind_eq_ok.mp h
  obtain ⟨-, rfl⟩ := Window.rest_of_word hfirst
  simp only at h
  split at h
  · simp [Steps.pure_eq_ok] at h
  · split at h
    · obtain ⟨⟨second, afterSecond⟩, hsecond, h⟩ := Steps.bind_eq_ok.mp h
      obtain ⟨-, rfl⟩ := Window.rest_of_word hsecond
      obtain ⟨rfl, -, rfl⟩ : RecordFormat.dwarf64 = format ∧ second = length ∧ _ = rest := by
        simpa [Steps.pure_eq_ok] using h
      rfl
    · obtain ⟨rfl, -, rfl⟩ : RecordFormat.dwarf32 = format ∧ first = length ∧ _ = rest := by
        simpa [Steps.pure_eq_ok] using h
      rfl

/-- A record that is read takes the front of its window. -/
theorem frames_of_read (h : read order window = .ok (some (record, rest))) :
    record.Frames window rest := by
  unfold read at h
  split at h
  · simp at h
  · obtain ⟨_ | ⟨format, length, afterLength⟩, hlength, h⟩ := Steps.bind_eq_ok.mp h
    · simp [Steps.pure_eq_ok] at h
    · have hsize := size_of_readLength hlength
      have hstart := offset_of_readLength hlength
      simp only at h
      split at h
      · exact absurd h Steps.throw_ne_ok
      · obtain ⟨⟨content, after⟩, hcontent, h⟩ := Steps.bind_eq_ok.mp h
        have hcut := Window.size_of_split hcontent
        obtain ⟨⟨id, body⟩, hid, h⟩ := Steps.bind_eq_ok.mp h
        obtain ⟨hfits, rfl⟩ := Window.rest_of_word hid
        simp only at h hcut hfits
        split at h
        · exact absurd h Steps.throw_ne_ok
        · next kind _ =>
            obtain ⟨rfl, rfl⟩ : ⟨window.offset, format, length, kind, content.drop 4⟩ = record ∧
                after = rest := by
              simpa [Steps.pure_eq_ok] using h
            obtain ⟨hside, rfl⟩ := Window.sides_of_split hcontent
            simp only [Window.size_drop] at hcut
            refine ⟨⟨?_, ?_, ?_⟩, rfl, ?_, ?_⟩ <;>
              simp only [idOffset, stop, Window.stop, Window.size_drop, Window.offset_drop] <;> omega

/-- Whatever keeps a record from being framed is a malformation. -/
theorem isMalformation_of_read {fault : Fault} (h : read order window = .error fault) :
    fault.IsMalformation := by
  unfold read at h
  split at h
  · simp at h
  · rcases Steps.bind_eq_error.mp h with h | ⟨_ | ⟨format, length, afterLength⟩, -, h⟩
    · rcases Steps.bind_eq_error.mp h with h | ⟨⟨first, afterFirst⟩, -, h⟩
      · exact isMalformation_of_word h
      · simp only at h
        split at h
        · simp [pure, Except.pure] at h
        · split at h
          · exact isMalformation_of_word (Steps.bind_pure_eq_error.mp h)
          · simp [pure, Except.pure] at h
    · simp [pure, Except.pure] at h
    · simp only at h
      split at h
      · exact isMalformation_of_throw h
      · rcases Steps.bind_eq_error.mp h with h | ⟨⟨content, after⟩, -, h⟩
        · exact isMalformation_of_split h
        · rcases Steps.bind_eq_error.mp h with h | ⟨⟨id, body⟩, -, h⟩
          · exact isMalformation_of_word h
          · simp only at h
            split at h
            · exact isMalformation_of_throw h
            · simp [pure, Except.pure] at h

end Record

/-! ## 2. All records -/

namespace RecordStream

variable {order : ByteOrder} {window rest : Window} {record : Record}

/-- The stream over a window that nothing has been asked for of. -/
def ofWindow (order : ByteOrder) (window : Window) : RecordStream := ⟨order, window, false⟩

theorem drain_eq (stream : RecordStream) :
    stream.drain =
      match stream.next with
      | (none, after) => ⟨[], none, after⟩
      | (some (.error fault), after) => ⟨[], some fault, after⟩
      | (some (.ok record), after) =>
        { after.drain with records := record :: after.drain.records } := by
  rw [drain]
  split <;> simp [*]

theorem drain_of_record (h : Record.read order window = .ok (some (record, rest))) :
    (ofWindow order window).drain = { (ofWindow order rest).drain with
      records := record :: (ofWindow order rest).drain.records } := by
  have hnext : (ofWindow order window).next = (some (.ok record), ofWindow order rest) := by
    simp [next, ofWindow, h]
  rw [drain_eq, hnext]

theorem drain_of_none (h : Record.read order window = .ok none) :
    (ofWindow order window).drain = ⟨[], none, ⟨order, window, true⟩⟩ := by
  have hnext : (ofWindow order window).next = (none, ⟨order, window, true⟩) := by
    simp [next, ofWindow, h]
  rw [drain_eq, hnext]

theorem drain_of_fault {fault : Fault} (h : Record.read order window = .error fault) :
    (ofWindow order window).drain = ⟨[], some fault, ⟨order, window, true⟩⟩ := by
  have hnext : (ofWindow order window).next = (some (.error fault), ⟨order, window, true⟩) := by
    simp [next, ofWindow, h]
  rw [drain_eq, hnext]

/-- A property of what is left of a section holds if it holds where the records end, and before a
record if it holds after it. -/
theorem window_induction (order : ByteOrder) {motive : Window → Prop}
    (none : ∀ window, Record.read order window = .ok none → motive window)
    (fault : ∀ window fault, Record.read order window = .error fault → motive window)
    (record : ∀ window record rest, Record.read order window = .ok (some (record, rest)) →
      motive rest → motive window) (window : Window) : motive window := by
  induction hn : window.size using Nat.strongRecOn generalizing window with
  | ind n ih =>
      cases hr : Record.read order window with
      | error f => exact fault window f hr
      | ok read =>
          rcases read with _ | ⟨r, rest⟩
          · exact none window hr
          · have hless := Record.size_of_read hr
            exact record window r rest hr (ih rest.size (hn ▸ hless) rest rfl)

/-- A property of the windows from which a record is reached holds if it holds where the record is the
next one, and before another record if it holds after that. -/
@[elab_as_elim]
theorem mem_drain_induction {motive : Window → Prop}
    (h : record ∈ (ofWindow order window).drain.records)
    (here : ∀ window rest, Record.read order window = .ok (some (record, rest)) → motive window)
    (later : ∀ window first rest, Record.read order window = .ok (some (first, rest)) →
      motive rest → motive window) : motive window := by
  induction window using window_induction order with
  | none window hr =>
      rw [drain_of_none hr] at h
      simp at h
  | fault window f hr =>
      rw [drain_of_fault hr] at h
      simp at h
  | record window first rest hr ih =>
      rw [drain_of_record hr] at h
      rcases List.mem_cons.mp h with rfl | h
      · exact here window rest hr
      · exact later window first rest hr (ih h)

/-- Every record of a stream is framed, and none is before what is left of the section. -/
theorem framed_of_mem_drain (h : record ∈ (ofWindow order window).drain.records) :
    record.Framed ∧ window.offset ≤ record.offset := by
  refine mem_drain_induction h ?here ?later
  case here =>
    intro window rest hr
    have hframes := Record.frames_of_read hr
    exact ⟨hframes.framed, Nat.le_of_eq hframes.offset.symm⟩
  case later =>
    intro window first rest hr ⟨hframed, hafter⟩
    have hframes := Record.frames_of_read hr
    have hstop := first.offset_lt_stop
    have hstart := hframes.offset
    have hrest := hframes.restStart
    exact ⟨hframed, by omega⟩

/-- Every record of a stream ends before the next one starts. -/
theorem drain_ordered (order : ByteOrder) (window : Window) :
    (ofWindow order window).drain.records.Pairwise fun earlier later => earlier.stop ≤ later.offset := by
  induction window using window_induction order with
  | none window hr =>
      rw [drain_of_none hr]
      exact List.Pairwise.nil
  | fault window f hr =>
      rw [drain_of_fault hr]
      exact List.Pairwise.nil
  | record window first rest hr ih =>
      rw [drain_of_record hr]
      refine List.Pairwise.cons ?_ ih
      intro later hlater
      rw [← (Record.frames_of_read hr).restStart]
      exact (framed_of_mem_drain hlater).2

/-- Damage ends the records of a stream as a malformation, and as nothing else. -/
theorem isMalformation_of_drain {fault : Fault} (h : (ofWindow order window).drain.fault = some fault) :
    fault.IsMalformation := by
  induction window using window_induction order with
  | none window hr =>
      rw [drain_of_none hr] at h
      simp at h
  | fault window f hr =>
      rw [drain_of_fault hr] at h
      obtain rfl := Option.some.inj h
      exact Record.isMalformation_of_read hr
  | record window first rest hr ih =>
      rw [drain_of_record hr] at h
      exact ih h

end RecordStream

/-! ## 3. The records of a section -/

namespace Framing

variable {order : ByteOrder} {bytes : List UInt8}

/-- The section offsets of the records of a section increase. -/
theorem offsets_increasing (order : ByteOrder) (bytes : List UInt8) :
    ((ofSection order bytes).records.map Record.offset).Pairwise (· < ·) := by
  rw [List.pairwise_map]
  refine List.Pairwise.imp ?_ (RecordStream.drain_ordered order (.ofSection bytes))
  intro earlier later h
  exact Nat.lt_of_lt_of_le earlier.offset_lt_stop h

theorem framed_of_mem {record : Record} (h : record ∈ (ofSection order bytes).records) :
    record.Framed :=
  (RecordStream.framed_of_mem_drain h).1

theorem isMalformation_of_fault {fault : Fault} (h : (ofSection order bytes).fault = some fault) :
    fault.IsMalformation :=
  RecordStream.isMalformation_of_drain h

end Framing

end UnwindTables
