/-
UnwindTables.Pointer.Encoding — the byte that says how pointers are stored.

* `PointerEncoding` — a value format, an application, and whether the pointer is indirect.
* `PointerEncoding.bits` — the byte that stands for an encoding.
* `PointerEncoding.decode` — the encoding that a byte stands for. One byte says that there is no
  pointer, and some bytes stand for nothing.

Every encoding has one byte, and that byte stands for it (`decode_bits`).
-/
import UnwindTables.Fault

namespace UnwindTables

/-- How a pointer is stored. -/
structure PointerEncoding where
  /-- How its value is stored. -/
  format : ValueFormat
  /-- What its value is relative to. -/
  application : Application
  /-- Whether the address it stands for holds the address that is meant. -/
  indirect : Bool
deriving DecidableEq, Repr

namespace PointerEncoding

/-- The byte that stands for the absence of a pointer. -/
def omitted : UInt8 := 0xff

/-- The bit that marks pointers as indirect. -/
def indirectBit : UInt8 := 0x80

/-- The encoding of plain addresses. -/
def plain : PointerEncoding := ⟨.absptr, .absolute, false⟩

/-- The byte that stands for an encoding. -/
def bits (encoding : PointerEncoding) : UInt8 :=
  encoding.format.bits ||| encoding.application.bits |||
    (if encoding.indirect then indirectBit else 0)

/-- The encoding that a byte stands for: none if pointers are omitted, and a fault that carries
the whole byte if either of its parts is unknown. -/
def decode (byte : UInt8) : Except Fault (Option PointerEncoding) :=
  if byte = omitted then
    .ok none
  else
    match ValueFormat.ofBits? byte, Application.ofBits? byte with
    | some format, some application =>
      .ok (some ⟨format, application, byte &&& indirectBit != 0⟩)
    | _, _ => .error (.unsupportedEncoding byte)

/-- The encoding that a byte stands for, where a pointer has to be present. -/
def decodePresent (byte : UInt8) : Except Fault PointerEncoding := do
  match ← decode byte with
  | some encoding => .ok encoding
  | none => .error (.unsupportedEncoding byte)

/-- The encoding that a byte stands for, where plain addresses stand in for omitted ones. -/
def decodeOrPlain (byte : UInt8) : Except Fault PointerEncoding := do
  return (← decode byte).getD plain

/-- The encoding of the length of a range of addresses that starts with a pointer: the value
alone, relative to nothing. -/
def valueOnly (encoding : PointerEncoding) : PointerEncoding :=
  ⟨encoding.format, .absolute, false⟩

/-- The text of an encoding in listings. -/
def text (encoding : PointerEncoding) : String :=
  (if encoding.indirect then "indirect | " else "") ++
    s!"{encoding.application.name} | {encoding.format.name}"

/-- The byte that stands for an encoding is decoded as it. -/
theorem decode_bits (encoding : PointerEncoding) : decode encoding.bits = .ok (some encoding) := by
  obtain ⟨format, application, indirect⟩ := encoding
  cases format <;> cases application <;> cases indirect <;> rfl

/-- A byte that stands for an encoding is not the one for omitted pointers, and its highest bit says
whether pointers are indirect. -/
theorem indirect_of_decode {byte : UInt8} {encoding : PointerEncoding}
    (h : decode byte = .ok (some encoding)) :
    byte ≠ omitted ∧ encoding.indirect = (byte &&& indirectBit != 0) := by
  unfold decode at h
  split at h
  · simp at h
  · next hne =>
      refine ⟨hne, ?_⟩
      split at h
      · rw [← Option.some.inj (Except.ok.inj h)]
      · simp at h

/-- One byte alone says that pointers are omitted. -/
theorem omitted_of_decode {byte : UInt8} (h : decode byte = .ok none) : byte = omitted := by
  unfold decode at h
  split at h
  · assumption
  · split at h <;> simp at h

end PointerEncoding

end UnwindTables
