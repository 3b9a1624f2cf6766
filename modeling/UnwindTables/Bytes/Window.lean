/-
UnwindTables.Bytes.Window — the part of a section that has not been read yet.

* `Window` — bytes, and the section offset of the first of them. A window may end before its
  section does: `Window.split` cuts off one for a record or for a block.
* `Window.take`, `byte`, `word`, `unsigned`, `signed`, `text`, `pointer` — read one field, giving
  it and the window after it.

A field that cannot be read is a fault at the offset of the window it was to be read from, so it
always names the offset at which the field starts.
-/
import UnwindTables.Pointer.Resolve

namespace UnwindTables

/-- Bytes of a section, starting at a section offset. -/
structure Window where
  /-- The bytes. -/
  bytes : List UInt8
  /-- The section offset of the first of them. -/
  offset : Nat
deriving DecidableEq, Repr

namespace Window

/-- A section as a whole. -/
def ofSection (bytes : List UInt8) : Window := ⟨bytes, 0⟩

/-- How many bytes there are. -/
def size (window : Window) : Nat := window.bytes.length

/-- The section offset after the last byte. -/
def stop (window : Window) : Nat := window.offset + window.size

/-- The window after its first `n` bytes. -/
def drop (window : Window) (n : Nat) : Window := ⟨window.bytes.drop n, window.offset + n⟩

/-- The window after all of its bytes. -/
def dropAll (window : Window) : Window := window.drop window.size

/-- The fault of a field that cannot be read from the window. -/
def fault (window : Window) (reason : Malformation) : Fault := .malformed window.offset reason

/-- The first `n` bytes as a window of their own. Sizes and offsets are taken to be of 64 bits, as is
every length that a section can say, so that no length has to be cut to a size. -/
def split (window : Window) (n : Nat) : Except Fault (Window × Window) :=
  if n ≤ window.size then
    .ok (⟨window.bytes.take n, window.offset⟩, window.drop n)
  else
    .error (window.fault .unexpectedEnd)

/-- A single byte. -/
def byte (window : Window) : Except Fault (UInt8 × Window) :=
  match window.bytes with
  | [] => .error (window.fault .unexpectedEnd)
  | b :: _ => .ok (b, window.drop 1)

/-- A number of `width` bytes. -/
def word (window : Window) (order : ByteOrder) (width : Nat) : Except Fault (Nat × Window) :=
  match order.read? width window.bytes with
  | none => .error (window.fault .unexpectedEnd)
  | some n => .ok (n, window.drop width)

/-- An unsigned number in groups of seven bits. -/
def unsigned (window : Window) : Except Fault (UInt64 × Window) :=
  match Leb128.readUnsigned window.bytes with
  | none => .error (window.fault .unexpectedEnd)
  | some (value, size) => .ok (value, window.drop size)

/-- A signed number in groups of seven bits. -/
def signed (window : Window) : Except Fault (Int64 × Window) :=
  match Leb128.readSigned window.bytes with
  | none => .error (window.fault .unexpectedEnd)
  | some (value, size) => .ok (value, window.drop size)

/-- The bytes before the next NUL, which is read as well. -/
def text (window : Window) : Except Fault (List UInt8 × Window) :=
  let string := window.bytes.takeWhile (· != 0)
  if string.length < window.size then
    .ok (string, window.drop (string.length + 1))
  else
    .error (window.fault .unterminatedString)

/-- A block of bytes after its length. With sizes of 64 bits, the length is one as it is. -/
def block (window : Window) : Except Fault (Window × Window) := do
  let (length, rest) ← window.unsigned
  rest.split length.toNat

/-- An encoded pointer that belongs to a function, if one is given. -/
def pointer (window : Window) (target : Target) (encoding : PointerEncoding)
    (function : Option UInt64) : Except Fault (Pointer × Window) :=
  match encoding.resolve target.order (target.site window.offset function) window.bytes with
  | .ok (pointer, size) => .ok (pointer, window.drop size)
  | .error .truncatedValue => .error (window.fault .unexpectedEnd)
  | .error other => .error other

/-! ## How much is read -/

@[simp] theorem size_drop (window : Window) (n : Nat) : (window.drop n).size = window.size - n := by
  simp [size, drop]

theorem size_of_split {window content rest : Window} {n : Nat}
    (h : window.split n = .ok (content, rest)) :
    content.size = n ∧ n + rest.size = window.size := by
  unfold split at h
  split at h
  · simp only [Except.ok.injEq, Prod.mk.injEq] at h
    rw [← h.1, ← h.2]
    simp only [size, drop, List.length_take, List.length_drop] at *
    omega
  · simp at h

theorem size_of_word {window rest : Window} {order : ByteOrder} {width n : Nat}
    (h : window.word order width = .ok (n, rest)) : width + rest.size = window.size := by
  unfold word at h
  split at h
  · simp at h
  · next hr =>
      simp only [Except.ok.injEq, Prod.mk.injEq] at h
      rw [← h.2]
      simp only [ByteOrder.read?, List.length_take] at hr
      simp only [size, drop, List.length_drop]
      split at hr
      · omega
      · simp at hr

end Window

end UnwindTables
