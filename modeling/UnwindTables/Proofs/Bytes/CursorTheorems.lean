/-
UnwindTables.Proofs.Bytes.CursorTheorems — the cursors that read a section, with every step of theirs checked.

A window says what is left to be read, as a value. What reads it in memory is a `Cursor`: a slice of a section, the
section offset of the slice, and a position in it. Every step of a cursor is arithmetic on machine words and an
access to a slice, and each of these can go wrong. So the operations are given here once more with every addition,
subtraction and access checked (`Run.add`, `Run.sub`, `Run.slice`, `Run.expect`): one that fails ends the run in a
`Trap`. A run also keeps the `Event`s it goes through, which are the cursors that it opens and the fields that it
asks them for.

* `Cursor.Within` — a cursor is in its slice, and the slice is the part of the section that it is said to be.
* `Cursor.Reads` — what is to be said about one field: the cursor is within its slice before and after, it moves by
  the bytes of the field or stays where it is, and a fault names the offset where the field starts.
* `Run.Ends` — a run comes to its end without a trap, and all of its events are as they should be.

While a cursor is within its slice none of its steps can fail (`Cursor.Within.move_eq` and the lemmas beside it): the
slice ends where the section does at the latest, and a section takes less than half of the machine words.
-/
import Mathlib.Algebra.Group.Nat.Defs
import UnwindTables.Proofs.Bytes.WindowTheorems

namespace UnwindTables

/-! ## 1. Cursors -/

/-- A section in memory: bytes in one slice, and how they are to be read. -/
structure LoadedSection where
  /-- The bytes. -/
  bytes : List UInt8
  /-- A slice takes less than half of the addresses. -/
  fits : bytes.length < 2 ^ 63
  /-- How the section is stored and where it is loaded. -/
  target : Target

/-- A position in a slice of a section. -/
structure Cursor where
  /-- The bytes of the slice. -/
  data : List UInt8
  /-- The section offset of the first of them. -/
  base : Nat
  /-- How many of them have been read. -/
  pos : Nat
deriving DecidableEq, Repr

/-- What a cursor can be asked for. -/
inductive CursorField where
  /-- So many bytes. -/
  | bytes (count : Nat)
  /-- An unsigned number in groups of seven bits. -/
  | unsigned
  /-- A signed number in groups of seven bits. -/
  | signed
  /-- A string with a NUL after it. -/
  | text
  /-- A pointer that is resolved at a site. -/
  | pointer (encoding : PointerEncoding) (order : ByteOrder) (site : Site)
deriving DecidableEq, Repr

/-- How many bytes a field takes at the start of some bytes, if it can be read there. -/
def CursorField.size? : CursorField → List UInt8 → Option Nat
  | bytes count, unread => if count ≤ unread.length then some count else none
  | unsigned, unread => (Leb128.readUnsigned unread).map Prod.snd
  | signed, unread => (Leb128.readSigned unread).map Prod.snd
  | text, unread => (unread.findIdx? (· == 0)).map (· + 1)
  | pointer encoding order site, unread =>
    match encoding.resolve order site unread with
    | .ok (_, size) => some size
    | .error _ => none

/-- A pointer is resolved where it is: its site is that of the byte at a section offset. -/
def CursorField.Addressed (target : Target) (offset : Nat) : CursorField → Prop
  | pointer _ order site =>
    order = target.order ∧ site.fieldAddress = target.fieldAddress offset
  | _ => True

namespace Cursor

/-- The section offset of the next byte. -/
def place (cursor : Cursor) : Nat := cursor.base + cursor.pos

/-- What has not been read. -/
def window (cursor : Cursor) : Window := ⟨cursor.data.drop cursor.pos, cursor.place⟩

/-- The cursor after so many more bytes. -/
def advance (cursor : Cursor) (count : Nat) : Cursor := { cursor with pos := cursor.pos + count }

/-- The position is in the slice, and the slice is the part of the section that it is said to be. -/
structure Within (cursor : Cursor) (bytes : List UInt8) : Prop where
  pos_le : cursor.pos ≤ cursor.data.length
  stop_le : cursor.base + cursor.data.length ≤ bytes.length
  data_eq : cursor.data = (bytes.drop cursor.base).take cursor.data.length

/-- Two cursors are in the same slice. -/
structure SameSlice (cursor other : Cursor) : Prop where
  data : cursor.data = other.data
  base : cursor.base = other.base

/-- What is to be said about a cursor that is asked for a field, where `fault` is why it could not be read. -/
structure Reads (loaded : LoadedSection) (field : CursorField) (before after : Cursor)
    (fault : Option Fault) : Prop where
  before_within : before.Within loaded.bytes
  after_within : after.Within loaded.bytes
  addressed : field.Addressed loaded.target before.place
  moves : fault = none → ∃ size, field.size? before.window.bytes = some size ∧ after = before.advance size
  stays : ∀ cause, fault = some cause → field.size? before.window.bytes = none ∧ after = before ∧
    ∀ offset reason, cause = .malformed offset reason → offset = before.place

variable {cursor other third : Cursor} {bytes : List UInt8} {count : Nat} {loaded : LoadedSection}

theorem SameSlice.refl (cursor : Cursor) : cursor.SameSlice cursor := ⟨rfl, rfl⟩

theorem SameSlice.trans (h : cursor.SameSlice other) (h' : other.SameSlice third) :
    cursor.SameSlice third :=
  ⟨h.data.trans h'.data, h.base.trans h'.base⟩

theorem sameSlice_advance (cursor : Cursor) (count : Nat) :
    (cursor.advance count).SameSlice cursor := ⟨rfl, rfl⟩

@[simp] theorem window_advance (cursor : Cursor) (count : Nat) :
    (cursor.advance count).window = cursor.window.drop count := by
  simp [window, advance, place, Window.drop, List.drop_drop, Nat.add_assoc]

@[simp] theorem size_window (cursor : Cursor) :
    cursor.window.size = cursor.data.length - cursor.pos := by
  simp [window, Window.size]

/-- The window of a cursor ends where its slice does. -/
theorem Within.stop_window (h : cursor.Within bytes) :
    cursor.window.stop = cursor.base + cursor.data.length := by
  have hpos := h.pos_le
  rw [Window.stop, size_window]
  show cursor.base + cursor.pos + (cursor.data.length - cursor.pos) = cursor.base + cursor.data.length
  omega

/-- What is left at the end of a slice is the same for all cursors of the slice. -/
theorem Within.dropAll_window (h : cursor.Within bytes) :
    cursor.window.dropAll = ⟨[], cursor.base + cursor.data.length⟩ := by
  rw [← h.stop_window]
  simp [Window.dropAll, Window.drop, Window.stop, Window.size]

theorem Within.size_le (h : cursor.Within bytes) : cursor.window.size ≤ bytes.length := by
  have hstop := h.stop_le
  rw [size_window]
  omega

theorem Within.advance (h : cursor.Within bytes) (hcount : count ≤ cursor.window.size) :
    (cursor.advance count).Within bytes where
  pos_le := by
    have hpos := h.pos_le
    rw [size_window] at hcount
    show cursor.pos + count ≤ cursor.data.length
    omega
  stop_le := h.stop_le
  data_eq := h.data_eq

/-- The next bytes of a slice are a slice of the section as well. -/
theorem Within.front (h : cursor.Within bytes) (hcount : count ≤ cursor.window.size) :
    Within ⟨cursor.window.bytes.take count, cursor.place, 0⟩ bytes where
  pos_le := Nat.zero_le _
  stop_le := by
    have hpos := h.pos_le
    have hstop := h.stop_le
    rw [size_window] at hcount
    simp only [window, place, List.length_take, List.length_drop]
    omega
  data_eq := by
    rw [size_window] at hcount
    simp only [window, place, List.length_take, List.length_drop, Nat.min_eq_left hcount]
    calc (cursor.data.drop cursor.pos).take count
        = (((bytes.drop cursor.base).take cursor.data.length).drop cursor.pos).take count := by
          rw [← h.data_eq]
      _ = (bytes.drop (cursor.base + cursor.pos)).take count := by
          rw [List.drop_take, List.take_take, List.drop_drop, Nat.min_eq_left hcount]

end Cursor

/-- The first bytes of a window. -/
def Window.front (window : Window) (count : Nat) : Except Fault (List UInt8 × Window) :=
  if count ≤ window.size then
    .ok (window.bytes.take count, window.drop count)
  else
    .error (window.fault .unexpectedEnd)

theorem Window.byte_eq (window : Window) :
    window.byte = window.front 1 >>= fun (bytes, rest) => .ok (bytes.headD 0, rest) := by
  obtain ⟨_ | ⟨first, bytes⟩, offset⟩ := window <;> rfl

theorem Window.word_eq (window : Window) (order : ByteOrder) (width : Nat) :
    window.word order width =
      window.front width >>= fun (bytes, rest) => .ok (order.value bytes, rest) := by
  rw [word, front, ByteOrder.read?, List.length_take, size]
  by_cases hwidth : width ≤ window.bytes.length
  · rw [if_pos hwidth, Nat.min_eq_left hwidth, if_pos rfl]
    rfl
  · rw [if_neg hwidth, if_neg (by omega)]
    rfl

theorem Window.split_eq (window : Window) (count : Nat) :
    window.split count =
      window.front count >>= fun (bytes, rest) => .ok (⟨bytes, window.offset⟩, rest) := by
  rw [split, front]
  split <;> rfl

/-- The text at the start of a window is what is in front of its first NUL. -/
theorem Window.text_eq (window : Window) :
    window.text = match window.bytes.findIdx? (· == 0) with
      | none => .error (window.fault .unterminatedString)
      | some size => .ok (window.bytes.take size, window.drop (size + 1)) := by
  have htext : window.bytes.takeWhile (· != 0) = window.bytes.take (window.bytes.findIdx (· == 0)) := by
    rw [List.takeWhile_eq_take_findIdx_not]
    simp [bne]
  rw [text, htext, List.findIdx?_eq_guard_findIdx_lt, List.length_take, size]
  by_cases hlt : window.bytes.findIdx (· == 0) < window.bytes.length
  · simp [Option.guard, hlt, Nat.min_eq_left (Nat.le_of_lt hlt)]
  · simp [Option.guard, hlt, Nat.min_eq_right (Nat.le_of_not_lt hlt)]

/-- A field that can be read is within the bytes. -/
theorem CursorField.size_le {field : CursorField} {unread : List UInt8} {size : Nat}
    (h : field.size? unread = some size) : size ≤ unread.length := by
  cases field with
  | bytes count =>
      obtain ⟨hcount, rfl⟩ : count ≤ unread.length ∧ count = size := by simpa [size?] using h
      exact hcount
  | unsigned =>
      obtain ⟨⟨value, size⟩, hread, rfl⟩ := Option.map_eq_some_iff.mp h
      exact (Leb128.size_of_readUnsigned hread).2
  | signed =>
      obtain ⟨⟨value, size⟩, hread, rfl⟩ := Option.map_eq_some_iff.mp h
      exact (Leb128.size_of_readSigned hread).2
  | text =>
      obtain ⟨index, hindex, rfl⟩ := Option.map_eq_some_iff.mp h
      exact (List.findIdx?_eq_some_iff_getElem.mp hindex).1
  | pointer encoding order site =>
      rw [size?] at h
      split at h
      · next hresolve =>
          obtain rfl := Option.some.inj h
          exact (PointerEncoding.size_of_resolve hresolve).2
      · cases h

/-! ## 2. Runs -/

/-- What ends a run where it is. -/
inductive Trap where
  /-- The result of an addition or a subtraction is no machine word. -/
  | overflow
  /-- A slice is accessed where it is not. -/
  | outOfRange
deriving DecidableEq, Repr

/-- What a run goes through. -/
inductive Event where
  /-- A slice gets a cursor. -/
  | opened (cursor : Cursor)
  /-- A cursor is asked for a field. There is a fault if the field could not be read. -/
  | read (field : CursorField) (before after : Cursor) (fault : Option Fault)
deriving DecidableEq, Repr

/-- What is to be said about an event. -/
def Event.Sound (loaded : LoadedSection) : Event → Prop
  | opened cursor => cursor.Within loaded.bytes
  | read field before after fault => before.Reads loaded field after fault

/-- A run ends in a trap, or with a result and everything that it went through. -/
def Run (α : Type) : Type := Except Trap (α × List Event)

namespace Run

instance : Monad Run where
  pure result := .ok (result, [])
  bind run next :=
    match run with
    | .error trap => .error trap
    | .ok (result, events) =>
      match next result with
      | .error trap => .error trap
      | .ok (final, later) => .ok (final, events ++ later)

variable {α β : Type}

/-- The run ends here. -/
def trap (reason : Trap) : Run α := .error reason

/-- Something happens. -/
def log (event : Event) : Run Unit := .ok ((), [event])

/-- The sum of two machine words. -/
def add (a b : Nat) : Run Nat := if a + b < 2 ^ 64 then pure (a + b) else trap .overflow

/-- The difference of two machine words. -/
def sub (a b : Nat) : Run Nat := if b ≤ a then pure (a - b) else trap .overflow

/-- The bytes of a slice from one index up to another. -/
def slice (bytes : List UInt8) (start stop : Nat) : Run (List UInt8) :=
  if start ≤ stop ∧ stop ≤ bytes.length then pure ((bytes.take stop).drop start) else trap .outOfRange

/-- What has to be there. -/
def expect : Option α → Run α
  | some value => pure value
  | none => trap .outOfRange

theorem pure_bind (result : α) (next : α → Run β) : (pure result >>= next) = next result := by
  simp only [Bind.bind, pure]
  generalize next result = run
  obtain trap | ⟨final, later⟩ := run <;> rfl

/-! ### How a run ends -/

/-- A run comes to its end: nothing traps it, everything that it goes through is sound, and the result is as it
should be. -/
def Ends (sound : Event → Prop) (run : Run α) (post : α → Prop) : Prop :=
  ∃ result events, run = .ok (result, events) ∧ (∀ event ∈ events, sound event) ∧ post result

variable {sound : Event → Prop} {post : α → Prop} {post' : β → Prop} {run : Run α}

theorem Ends.pure {result : α} (h : post result) : Ends sound (Pure.pure result) post :=
  ⟨result, [], rfl, by simp, h⟩

/-- A run is followed step by step. -/
theorem Ends.bind {next : α → Run β} (h : Ends sound run post)
    (hnext : ∀ result, post result → Ends sound (next result) post') :
    Ends sound (run >>= next) post' := by
  obtain ⟨result, events, rfl, hevents, hpost⟩ := h
  obtain ⟨final, later, hlater, hsound, hfinal⟩ := hnext result hpost
  refine ⟨final, events ++ later, ?_, ?_, hfinal⟩
  · simp only [Bind.bind, hlater]
    rfl
  · intro event hevent
    exact (List.mem_append.mp hevent).elim (hevents event) (hsound event)

/-- Something sound happens. -/
theorem Ends.log_bind {event : Event} {next : Unit → Run β} (h : sound event)
    (hnext : Ends sound (next ()) post') : Ends sound (Run.log event >>= next) post' := by
  have hlog : Ends sound (Run.log event) fun _ => True := ⟨(), [event], rfl, by simpa using h, trivial⟩
  exact hlog.bind fun _ _ => hnext

/-- A value is known, and given on. -/
theorem Ends.andThen {value : α} {next : α → Run β} (h : Ends sound run (· = value))
    (hnext : Ends sound (next value) post') : Ends sound (run >>= next) post' := by
  refine h.bind ?_
  intro result hresult
  rw [hresult]
  exact hnext

theorem Ends.mono {other : α → Prop} (h : Ends sound run post)
    (hpost : ∀ result, post result → other result) : Ends sound run other := by
  obtain ⟨result, events, hrun, hevents, hresult⟩ := h
  exact ⟨result, events, hrun, hevents, hpost result hresult⟩

theorem add_eq {a b : Nat} (h : a + b < 2 ^ 64) : add a b = Pure.pure (a + b) := if_pos h

theorem sub_eq {a b : Nat} (h : b ≤ a) : sub a b = Pure.pure (a - b) := if_pos h

theorem slice_eq {bytes : List UInt8} {start stop : Nat} (hstart : start ≤ stop)
    (hstop : stop ≤ bytes.length) : slice bytes start stop = Pure.pure ((bytes.take stop).drop start) :=
  if_pos ⟨hstart, hstop⟩

end Run

/-! ## 3. The operations of a cursor -/

namespace Cursor

/-- The cursor at the start of a slice. -/
def new (data : List UInt8) (base : Nat) : Run Cursor := do
  Run.log (.opened ⟨data, base, 0⟩)
  return ⟨data, base, 0⟩

/-- The section offset of the next byte. -/
def offset (cursor : Cursor) : Run Nat := Run.add cursor.base cursor.pos

/-- How many bytes are left. -/
def len (cursor : Cursor) : Run Nat := Run.sub cursor.data.length cursor.pos

/-- The bytes that are left. -/
def remaining (cursor : Cursor) : Run (List UInt8) :=
  Run.slice cursor.data cursor.pos cursor.data.length

/-- The cursor after so many more bytes. -/
def move (cursor : Cursor) (count : Nat) : Run Cursor := do
  let pos ← Run.add cursor.pos count
  return { cursor with pos }

/-- The fault of a field that cannot be read. -/
def malformed (cursor : Cursor) (reason : Malformation) : Run Fault := do
  return .malformed (← cursor.offset) reason

end Cursor

/-- A reading asks a cursor for fields, up to the first that cannot be read. -/
def Reading (α : Type) : Type := Cursor → Run (Except Fault α × Cursor)

namespace Reading

instance : Monad Reading where
  pure value := fun cursor => pure (.ok value, cursor)
  bind reading next := fun cursor => do
    match ← reading cursor with
    | (.ok value, after) => next value after
    | (.error fault, after) => return (.error fault, after)

instance : MonadLift Run Reading where
  monadLift run := fun cursor => do return (.ok (← run), cursor)

variable {α : Type}

/-- The reading ends with a fault. -/
def fail (fault : Fault) : Reading α := fun cursor => pure (.error fault, cursor)

/-- Where the cursor is. -/
def offset : Reading Nat := fun cursor => do return (.ok (← cursor.offset), cursor)

/-- How many bytes the cursor has left. -/
def len : Reading Nat := fun cursor => do return (.ok (← cursor.len), cursor)

/-- The same reading, where a fault is something to look at. -/
def attempt (reading : Reading α) : Reading (Except Fault α) := fun cursor => do
  let (outcome, after) ← reading cursor
  return (.ok outcome, after)

/-- An operation that asks for a field. -/
def logged (field : CursorField) (operation : Reading α) : Reading α := fun before => do
  let (outcome, after) ← operation before
  Run.log (.read field before after (match outcome with | .ok _ => none | .error fault => some fault))
  return (outcome, after)

/-- The next bytes. -/
def bytes (count : Nat) : Reading (List UInt8) := logged (.bytes count) fun cursor => do
  if (← cursor.len) < count then
    return (.error (← cursor.malformed .unexpectedEnd), cursor)
  else
    let stop ← Run.add cursor.pos count
    let bytes ← Run.slice cursor.data cursor.pos stop
    return (.ok bytes, ← cursor.move count)

/-- Passes over the next bytes. -/
def skip (count : Nat) : Reading Unit := do
  let _ ← bytes count

/-- The next bytes with a cursor of their own. -/
def split (count : Nat) : Reading Cursor := do
  let base ← offset
  let data ← bytes count
  Cursor.new data base

/-- A single byte. -/
def byte : Reading UInt8 := do
  let bytes ← bytes 1
  Run.expect bytes[0]?

/-- A number of `width` bytes. -/
def word (order : ByteOrder) (width : Nat) : Reading Nat := do
  let bytes ← bytes width
  Run.expect (order.read? width bytes)

/-- An unsigned number in groups of seven bits. -/
def unsigned : Reading UInt64 := logged .unsigned fun cursor => do
  match Leb128.readUnsigned (← cursor.remaining) with
  | none => return (.error (← cursor.malformed .unexpectedEnd), cursor)
  | some (value, size) => return (.ok value, ← cursor.move size)

/-- A signed number in groups of seven bits. -/
def signed : Reading Int64 := logged .signed fun cursor => do
  match Leb128.readSigned (← cursor.remaining) with
  | none => return (.error (← cursor.malformed .unexpectedEnd), cursor)
  | some (value, size) => return (.ok value, ← cursor.move size)

/-- The bytes before the next NUL, which is read as well. -/
def text : Reading (List UInt8) := logged .text fun cursor => do
  let remaining ← cursor.remaining
  match remaining.findIdx? (· == 0) with
  | none => return (.error (← cursor.malformed .unterminatedString), cursor)
  | some size =>
    let after ← cursor.move (← Run.add size 1)
    return (.ok (← Run.slice remaining 0 size), after)

/-- An encoded pointer at a site. -/
def pointerAt (encoding : PointerEncoding) (order : ByteOrder) (site : Site) : Reading Pointer :=
  logged (.pointer encoding order site) fun cursor => do
    match encoding.resolve order site (← cursor.remaining) with
    | .ok (pointer, size) => return (.ok pointer, ← cursor.move size)
    | .error .truncatedValue => return (.error (← cursor.malformed .unexpectedEnd), cursor)
    | .error fault => return (.error fault, cursor)

/-- An encoded pointer where the cursor is, for a function if one is given. -/
def pointer (target : Target) (encoding : PointerEncoding) (function : Option UInt64) :
    Reading Pointer := do
  let offset ← offset
  pointerAt encoding target.order (target.site offset function)

/-- A block of bytes after its length. -/
def block : Reading Cursor := do
  let length ← unsigned
  split length.toNat

/-- The value of a step that needs no cursor, or its fault. -/
def ofExcept (outcome : Except Fault α) : Reading α := fun cursor => pure (outcome, cursor)

/-- A reading by another cursor, which is given beside the value. -/
def on (block : Cursor) (reading : Reading α) : Reading (α × Cursor) := fun cursor => do
  match ← reading block with
  | (.ok value, block) => return (.ok (value, block), cursor)
  | (.error fault, _) => return (.error fault, cursor)

end Reading

/-! ## 4. No step of a cursor within its slice fails -/

namespace Cursor.Within

variable {cursor : Cursor} {loaded : LoadedSection} {count : Nat}

theorem offset_eq (h : cursor.Within loaded.bytes) : cursor.offset = pure cursor.place := by
  have hpos := h.pos_le
  have hstop := h.stop_le
  have hfits := loaded.fits
  exact Run.add_eq (by omega)

theorem len_eq (h : cursor.Within loaded.bytes) : cursor.len = pure cursor.window.size := by
  rw [size_window]
  exact Run.sub_eq h.pos_le

/-- A cursor that is not in its slice is a trap. -/
example : Cursor.len ⟨[1, 2, 3], 0x40, 4⟩ = Run.trap .overflow := by
  rfl

theorem remaining_eq (h : cursor.Within loaded.bytes) :
    cursor.remaining = pure cursor.window.bytes := by
  rw [remaining, Run.slice_eq h.pos_le (Nat.le_refl _), List.take_length]
  rfl

theorem move_eq (h : cursor.Within loaded.bytes) (hcount : count ≤ cursor.window.size) :
    cursor.move count = pure (cursor.advance count) := by
  have hpos := h.pos_le
  have hstop := h.stop_le
  have hfits := loaded.fits
  rw [size_window] at hcount
  rw [move, Run.add_eq (by omega), Run.pure_bind]
  rfl

theorem malformed_eq (h : cursor.Within loaded.bytes) (reason : Malformation) :
    cursor.malformed reason = pure (cursor.window.fault reason) := by
  rw [malformed, h.offset_eq, Run.pure_bind]
  rfl

theorem ends_offset (h : cursor.Within loaded.bytes) :
    cursor.offset.Ends (Event.Sound loaded) (· = cursor.place) := by
  rw [h.offset_eq]
  exact Run.Ends.pure rfl

theorem ends_len (h : cursor.Within loaded.bytes) :
    cursor.len.Ends (Event.Sound loaded) (· = cursor.window.size) := by
  rw [h.len_eq]
  exact Run.Ends.pure rfl

theorem ends_remaining (h : cursor.Within loaded.bytes) :
    cursor.remaining.Ends (Event.Sound loaded) (· = cursor.window.bytes) := by
  rw [h.remaining_eq]
  exact Run.Ends.pure rfl

end Cursor.Within

theorem Cursor.ends_new {loaded : LoadedSection} {data : List UInt8} {base : Nat}
    (h : Cursor.Within ⟨data, base, 0⟩ loaded.bytes) :
    (Cursor.new data base).Ends (Event.Sound loaded) (· = ⟨data, base, 0⟩) :=
  Run.Ends.log_bind h (Run.Ends.pure rfl)

end UnwindTables
