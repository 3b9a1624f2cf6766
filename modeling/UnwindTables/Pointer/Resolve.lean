/-
UnwindTables.Pointer.Resolve — the address that a stored pointer stands for.

* `Pointer` — an address, the value it was computed from, and whether the address is where the
  real one is kept.
* `PointerEncoding.resolve` — the pointer at the start of some bytes, and its size.
* `resolveByte` — the same for an encoding that is given by its byte.

A pointer is its value added to the base of its application, cut to the size of an address. The
value is read first: bytes that end too early are reported even where the base is not known.
-/
import UnwindTables.Pointer.Encoding
import UnwindTables.Pointer.Site
import UnwindTables.Pointer.Value

namespace UnwindTables

/-- A pointer that was read. -/
structure Pointer where
  /-- The address it stands for. -/
  address : UInt64
  /-- The value that was stored, extended to 64 bits. -/
  raw : UInt64
  /-- Whether the address that is meant is kept at `address`. -/
  indirect : Bool
deriving DecidableEq, Repr

/-- The pointer stored at the start of `bytes`, and its size. -/
def PointerEncoding.resolve (encoding : PointerEncoding) (order : ByteOrder) (site : Site)
    (bytes : List UInt8) : Except Fault (Pointer × Nat) :=
  match encoding.format.read? order site.addressSize bytes with
  | none => .error .truncatedValue
  | some (raw, size) =>
    match site.base encoding.application with
    | .error fault => .error fault
    | .ok base => .ok (⟨site.addressSize.truncate (base + raw), raw, encoding.indirect⟩, size)

/-- The pointer stored at the start of `bytes` in the encoding that `byte` stands for, and its
size, or none if the byte says that there is no pointer. -/
def resolveByte (byte : UInt8) (order : ByteOrder) (site : Site) (bytes : List UInt8) :
    Except Fault (Option (Pointer × Nat)) := do
  match ← PointerEncoding.decode byte with
  | none => return none
  | some encoding => return some (← encoding.resolve order site bytes)

/-- A resolved pointer takes at least one byte, and no more than there are. -/
theorem PointerEncoding.size_of_resolve {encoding : PointerEncoding} {order : ByteOrder}
    {site : Site} {bytes : List UInt8} {pointer : Pointer} {size : Nat}
    (h : encoding.resolve order site bytes = .ok (pointer, size)) :
    0 < size ∧ size ≤ bytes.length := by
  unfold resolve at h
  split at h
  · simp at h
  · next hr =>
      split at h
      · simp at h
      · simp only [Except.ok.injEq, Prod.mk.injEq] at h
        rw [← h.2]
        exact ValueFormat.size_of_read? hr

end UnwindTables
