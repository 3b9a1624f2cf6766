/-
UnwindTables.Text.Utf8 — bytes as text, where they may not be UTF-8.

* `Utf8.decodeLossy` — the text of some bytes. Each longest run of bytes that starts the encoding
  of a character but is not one becomes a single replacement character, and so does each byte that
  cannot start one.

The decoder takes one byte at a time: between two bytes it only remembers which bytes may come
next, and how much of the character is known.
-/

namespace UnwindTables.Utf8

/-- A character whose encoding has begun. -/
structure Pending where
  /-- How many more bytes it takes. -/
  missing : Nat
  /-- The smallest byte that may come next. -/
  low : UInt8
  /-- The largest byte that may come next. -/
  high : UInt8
  /-- The bits that are known. -/
  bits : Nat
deriving DecidableEq, Repr

/-- The character that stands for bytes without a meaning. -/
def replacement : Char := '\uFFFD'

/-- What a byte gives where a character may start. The second byte of a character is limited
further wherever that rules out numbers with a shorter encoding, surrogates, and numbers above the
last code point. -/
def start (b : UInt8) : List Char × Option Pending :=
  if b < 0x80 then ([Char.ofNat b.toNat], none)
  else if b < 0xc2 then ([replacement], none)
  else if b < 0xe0 then ([], some ⟨1, 0x80, 0xbf, b.toNat - 0xc0⟩)
  else if b < 0xf0 then
    let low := if b = 0xe0 then 0xa0 else 0x80
    let high := if b = 0xed then 0x9f else 0xbf
    ([], some ⟨2, low, high, b.toNat - 0xe0⟩)
  else if b < 0xf5 then
    let low := if b = 0xf0 then 0x90 else 0x80
    let high := if b = 0xf4 then 0x8f else 0xbf
    ([], some ⟨3, low, high, b.toNat - 0xf0⟩)
  else ([replacement], none)

/-- What a byte gives after what has begun before it. -/
def step (pending : Option Pending) (b : UInt8) : List Char × Option Pending :=
  match pending with
  | none => start b
  | some pending =>
    if pending.low ≤ b ∧ b ≤ pending.high then
      let bits := pending.bits * 64 + (b.toNat - 0x80)
      if pending.missing ≤ 1 then
        ([Char.ofNat bits], none)
      else
        ([], some ⟨pending.missing - 1, 0x80, 0xbf, bits⟩)
    else
      let (characters, next) := start b
      (replacement :: characters, next)

/-- The characters of some bytes after what has begun before them. -/
def decodeFrom (pending : Option Pending) : List UInt8 → List Char
  | [] => if pending.isSome then [replacement] else []
  | b :: bytes =>
    let (characters, next) := step pending b
    characters ++ decodeFrom next bytes

/-- The text of some bytes. -/
def decodeLossy (bytes : List UInt8) : String := String.ofList (decodeFrom none bytes)

end UnwindTables.Utf8
