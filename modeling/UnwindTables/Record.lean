/-
UnwindTables.Record — the records that a section is made of.

* `Record` — a length and an id or reference, whose body has not been read yet. A record is a CIE,
  which holds what many functions have in common, or an FDE, which describes one function and
  refers to a CIE.
* `Record.read` — the record at the start of a window, and the window after it; `Record.write` are
  the bytes of a record.
* `RecordStream` — the records of a section one after the other, up to the end of the section, a
  terminator, or the first damage to the framing.
* `RecordStream.drain` — all of the records, and the fault that ended them.

The stream ends because every record takes at least eight bytes.
-/
import UnwindTables.Bytes.Window
import UnwindTables.Steps

namespace UnwindTables

/-- How the length of a record is stored. -/
inductive RecordFormat where
  /-- In four bytes. -/
  | dwarf32
  /-- In eight bytes, after an escape of four. -/
  | dwarf64
deriving DecidableEq, Repr

namespace RecordFormat

/-- The value of a four-byte length that stands for a length in the eight bytes after it. -/
def escape : Nat := 0xffffffff

/-- How many bytes the length takes, the escape included. -/
def lengthSize : RecordFormat → Nat
  | dwarf32 => 4
  | dwarf64 => 12

/-- The smallest length that cannot be stored. In four bytes it is the escape. -/
def limit : RecordFormat → Nat
  | dwarf32 => escape
  | dwarf64 => capacity 8

/-- The length field of a record, with the escape if there is one. -/
def lengthField (order : ByteOrder) (length : Nat) : RecordFormat → List UInt8
  | dwarf32 => order.bytes 4 length
  | dwarf64 => order.bytes 4 escape ++ order.bytes 8 length

/-- The name of the format in messages and listings. -/
def name : RecordFormat → String
  | dwarf32 => "Dwarf32"
  | dwarf64 => "Dwarf64"

theorem lengthSize_pos (format : RecordFormat) : 0 < format.lengthSize := by
  cases format <;> decide

@[simp] theorem length_lengthField (order : ByteOrder) (length : Nat) (format : RecordFormat) :
    (format.lengthField order length).length = format.lengthSize := by
  cases format <;> simp [lengthField, lengthSize]

end RecordFormat

/-- What a record holds. -/
inductive RecordKind where
  /-- What many functions have in common. -/
  | cie
  /-- One function, with the section offset of the CIE that goes with it. -/
  | fde (cie : Nat)
deriving DecidableEq, Repr

/-- A record whose body has not been read yet. -/
structure Record where
  /-- The section offset of the length field. -/
  offset : Nat
  /-- How the length is stored. -/
  format : RecordFormat
  /-- The length, which counts neither the length field nor the escape. -/
  length : Nat
  /-- What the record holds. -/
  kind : RecordKind
  /-- What comes after the id or reference. -/
  body : Window
deriving DecidableEq, Repr

namespace Record

/-- The section offset after the record. -/
def stop (record : Record) : Nat := record.offset + record.format.lengthSize + record.length

/-- The section offset of the id field. -/
def idOffset (record : Record) : Nat := record.offset + record.format.lengthSize

/-- The number in the id field. A CIE has the id zero; an FDE has the distance back to its CIE from
the field itself. -/
def idField (record : Record) : Nat :=
  match record.kind with
  | .cie => 0
  | .fde cie => record.idOffset - cie

/-- The bytes of the record. -/
def write (order : ByteOrder) (record : Record) : List UInt8 :=
  record.format.lengthField order record.length ++ order.bytes 4 record.idField ++ record.body.bytes

/-- The format and the length of the record at the start of a window. A length of zero is a
terminator and no record. -/
def readLength (order : ByteOrder) (window : Window) :
    Except Fault (Option (RecordFormat × Nat × Window)) := do
  let (first, rest) ← window.word order 4
  if first = 0 then
    return none
  else if first = RecordFormat.escape then
    let (length, rest) ← rest.word order 8
    return some (.dwarf64, length, rest)
  else
    return some (.dwarf32, first, rest)

/-- What a record holds that has a number in its id field, where the field is at a section
offset. -/
def kindOf (id field : Nat) : Option RecordKind :=
  if id = 0 then some .cie else if id ≤ field then some (.fde (field - id)) else none

/-- The record at the start of a window and the window after it, or none at the end. -/
def read (order : ByteOrder) (window : Window) : Except Fault (Option (Record × Window)) :=
  if window.size = 0 then
    .ok none
  else do
    match ← readLength order window with
    | none => return none
    | some (format, length, rest) =>
      if rest.size < length then
        throw (window.fault .lengthOverrun)
      else
        let (content, rest) ← rest.split length
        let (id, body) ← content.word order 4
        match kindOf id content.offset with
        | none => throw (window.fault .ciePointerOutOfBounds)
        | some kind => return some (⟨window.offset, format, length, kind, body⟩, rest)

/-! ## A record takes bytes -/

theorem size_of_readLength {order : ByteOrder} {window rest : Window} {format : RecordFormat}
    {length : Nat} (h : readLength order window = .ok (some (format, length, rest))) :
    format.lengthSize + rest.size = window.size := by
  obtain ⟨⟨first, afterFirst⟩, hfirst, h⟩ := Steps.bind_eq_ok.1 h
  have := Window.size_of_word hfirst
  simp only at h
  split at h
  · simp [Steps.pure_eq_ok] at h
  · split at h
    · obtain ⟨⟨second, afterSecond⟩, hsecond, h⟩ := Steps.bind_eq_ok.1 h
      have := Window.size_of_word hsecond
      obtain ⟨rfl, rfl, rfl⟩ :
          RecordFormat.dwarf64 = format ∧ second = length ∧ afterSecond = rest := by
        simpa [Steps.pure_eq_ok] using h
      simp only [RecordFormat.lengthSize]
      omega
    · obtain ⟨rfl, rfl, rfl⟩ :
          RecordFormat.dwarf32 = format ∧ first = length ∧ afterFirst = rest := by
        simpa [Steps.pure_eq_ok] using h
      simp only [RecordFormat.lengthSize]
      omega

theorem size_of_read {order : ByteOrder} {window rest : Window} {record : Record}
    (h : read order window = .ok (some (record, rest))) : rest.size < window.size := by
  unfold read at h
  split at h
  · simp at h
  · obtain ⟨_ | ⟨format, length, afterLength⟩, hlength, h⟩ := Steps.bind_eq_ok.1 h
    · simp [Steps.pure_eq_ok] at h
    · have shorter := size_of_readLength hlength
      have := format.lengthSize_pos
      simp only at h
      split at h
      · exact absurd h Steps.throw_ne_ok
      · obtain ⟨⟨content, after⟩, hcontent, h⟩ := Steps.bind_eq_ok.1 h
        have := Window.size_of_split hcontent
        obtain ⟨⟨id, body⟩, -, h⟩ := Steps.bind_eq_ok.1 h
        simp only at h
        split at h
        · exact absurd h Steps.throw_ne_ok
        · obtain ⟨-, rfl⟩ : _ ∧ after = rest := by simpa [Steps.pure_eq_ok] using h
          omega

end Record

/-- The records of a section that have not been asked for yet. -/
structure RecordStream where
  /-- The byte order of the section. -/
  order : ByteOrder
  /-- What has not been read. -/
  rest : Window
  /-- Whether the end has been met. -/
  finished : Bool
deriving DecidableEq, Repr

namespace RecordStream

/-- The records of a section. -/
def ofSection (order : ByteOrder) (bytes : List UInt8) : RecordStream :=
  ⟨order, .ofSection bytes, false⟩

/-- The next record or the fault that ends the stream, and the stream after it. -/
def next (stream : RecordStream) : Option (Except Fault Record) × RecordStream :=
  if stream.finished then
    (none, stream)
  else
    match Record.read stream.order stream.rest with
    | .ok (some (record, rest)) => (some (.ok record), { stream with rest })
    | .ok none => (none, { stream with finished := true })
    | .error fault => (some (.error fault), { stream with finished := true })

theorem size_of_next {stream after : RecordStream} {record : Record}
    (h : stream.next = (some (.ok record), after)) : after.rest.size < stream.rest.size := by
  unfold next at h
  split at h
  · simp at h
  · split at h
    · next hr =>
        simp only [Prod.mk.injEq] at h
        rw [← h.2]
        exact Record.size_of_read hr
    · simp at h
    · simp at h

end RecordStream

/-- The records of a section, and how they end. -/
structure Framing where
  /-- The records, in the order of the section. -/
  records : List Record
  /-- The damage that ends them, if it is not the end of the section or a terminator. -/
  fault : Option Fault
  /-- The stream after them. -/
  stream : RecordStream
deriving DecidableEq, Repr

/-- Every record of a stream. -/
def RecordStream.drain (stream : RecordStream) : Framing :=
  match _ : stream.next with
  | (none, after) => ⟨[], none, after⟩
  | (some (.error fault), after) => ⟨[], some fault, after⟩
  | (some (.ok record), after) =>
    let framing := after.drain
    { framing with records := record :: framing.records }
termination_by stream.rest.size
decreasing_by exact size_of_next ‹_›

/-- Every record of a section. -/
def Framing.ofSection (order : ByteOrder) (bytes : List UInt8) : Framing :=
  (RecordStream.ofSection order bytes).drain

end UnwindTables
