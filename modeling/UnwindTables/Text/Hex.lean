/-
UnwindTables.Text.Hex — hexadecimal numerals, in lower case.

* `Hex.digits` — the digits alone; `Hex.padded` — with zeros in front up to a width.
* `Hex.literal` — the digits after `0x`; `Hex.byte` — the same with always two digits.
-/

namespace UnwindTables.Hex

/-- The hexadecimal digits of `n`, without leading zeros. -/
def digits (n : Nat) : List Char := Nat.toDigits 16 n

/-- The hexadecimal digits of `n`, with zeros in front up to at least `width` digits. -/
def paddedDigits (width n : Nat) : List Char :=
  List.replicate (width - (digits n).length) '0' ++ digits n

/-- `Hex.paddedDigits` as text. -/
def padded (width n : Nat) : String := String.ofList (paddedDigits width n)

/-- The numeral of `n` marked as hexadecimal. -/
def literal (n : Nat) : String := "0x" ++ String.ofList (digits n)

/-- The marked numeral of a byte, always two digits wide. -/
def byte (b : UInt8) : String := "0x" ++ padded 2 b.toNat

end UnwindTables.Hex
