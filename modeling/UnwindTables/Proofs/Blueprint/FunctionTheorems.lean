/-
UnwindTables.Proofs.Blueprint.FunctionTheorems — an FDE that was written is read back.

An FDE does not say how it is stored: its CIE does. The writer goes by the layout of the blueprint of
that CIE, and a reader by what the CIE declares after it has been read. `FdeBlueprint.FramedAs` says that
the two agree, for any CIE that was read back: the FDE has the addresses that it was written with, at
the section offset that it was written at.

## How the proof goes

`CieBlueprint.layout_fdeEncoding` and `CieBlueprint.layout_data` take the layout back to the string that
the CIE was written with, which is where the declarations are known from. The fields are then read one
after the other, each where it was put (`FdeBlueprint.read_write`). Nothing is asked of the
language-specific data, because a reader keeps the function whatever is wrong with it.
-/
import UnwindTables.Proofs.Blueprint.ReadBackTheorems

namespace UnwindTables

/-! ## 1. The layout and the declarations -/

namespace CieBlueprint

open AugmentationState (askedFields)

variable {target : Target} {cie : CieBlueprint} {cieAt : Nat} {parsed : Cie}

theorem layout_data (cie : CieBlueprint) :
    cie.layout.data = true ↔ cie.codes.head? = some 'z'.toUInt8 := by
  rw [← AugmentationState.readLength_mem_actions_iff]
  exact List.contains_iff_mem

/-- The encoding that FDEs are written in is the one that is declared. -/
theorem layout_fdeEncoding (cie : CieBlueprint) :
    cie.layout.fdeEncoding =
      (cie.fdeDeclared (askedFields cie.codes)).getD PointerEncoding.plain.bits := by
  have hcontains : (AugmentationState.start.actions cie.codes).contains .readFdeEncoding = true ↔
      'R'.toUInt8 ∈ askedFields cie.codes :=
    List.contains_iff_mem.trans (AugmentationState.readFdeEncoding_mem_actions_iff cie.codes)
  by_cases hR : 'R'.toUInt8 ∈ askedFields cie.codes
  · simp only [layout, fdeDeclared, if_pos hR, if_pos (hcontains.mpr hR)]
    cases cie.fdeEncoding <;> rfl
  · simp only [layout, fdeDeclared, if_neg hR, if_neg (mt hcontains.mp hR)]
    rfl

/-- A reader takes the addresses of functions as they are written. -/
theorem ReadsBackAs.pointerEncoding (h : cie.ReadsBackAs target cieAt parsed)
    {decoded : Option PointerEncoding}
    (hdecoded : PointerEncoding.decode cie.layout.fdeEncoding = .ok decoded) :
    parsed.pointerEncoding = .ok (decoded.getD .plain) := by
  rw [layout_fdeEncoding] at hdecoded
  unfold Cie.pointerEncoding
  rw [h.declared.fdeEncoding]
  cases hdeclared : cie.fdeDeclared (askedFields cie.codes) with
  | none =>
      rw [hdeclared, Option.getD_none, PointerEncoding.decode_bits] at hdecoded
      obtain rfl := Except.ok.inj hdecoded
      rfl
  | some byte =>
      rw [hdeclared, Option.getD_some] at hdecoded
      simp only [PointerEncoding.decodeOrPlain, hdecoded]
      rfl

end CieBlueprint

/-! ## 2. The augmentation data -/

/-- A function is kept if its augmentation data has a block where there should be one. -/
theorem Fde.exists_readExtra {target : Target} {declared : Declared} {window : Window}
    (function : UInt64)
    (h : declared.features.data = true → ∃ content rest, window.block = .ok (content, rest)) :
    ∃ extra rest, readExtra target declared function window = .ok (extra, rest) := by
  unfold readExtra
  split
  · next hdata =>
      obtain ⟨content, rest, hblock⟩ := h hdata
      rw [hblock]
      simp only
      split
      · exact ⟨_, _, rfl⟩
      · split <;> exact ⟨_, _, rfl⟩
  · exact ⟨_, _, rfl⟩

namespace FdeBlueprint

variable {target : Target} {fde : FdeBlueprint} {cie : CieBlueprint}

/-- Augmentation data that was written starts with its length, if there is any. -/
theorem exists_block_of_write {offset : Nat} {data : List UInt8}
    (h : fde.writeAugmentationData target cie.layout offset = .ok data)
    (hfits : data.length < capacity 8) (hdata : cie.layout.data = true) (rest : List UInt8) :
    ∃ content after, (⟨data ++ rest, offset⟩ : Window).block = .ok (content, after) := by
  rw [writeAugmentationData, if_pos hdata] at h
  obtain ⟨content, -, rfl⟩ := settleBlock_eq_ok h
  rw [List.length_append] at hfits
  exact ⟨_, _, Window.block_ofNat rest offset (by omega)⟩

/-! ## 3. An FDE -/

/-- An FDE is what was written for the blueprint at a section offset, with its CIE at `cieAt`. -/
structure ReadsBackAs (target : Target) (fde : FdeBlueprint) (cieAt fdeAt : Nat) (parsed : Fde) :
    Prop where
  offset : parsed.offset = fdeAt
  cie : parsed.cie = cieAt
  pcBegin : parsed.pcBegin = target.addressSize.truncate fde.pcBegin
  pcRange : parsed.pcRange = target.addressSize.truncate fde.pcRange

/-- A record is what was written for the blueprint at a section offset, with its CIE at `cieAt`: if it
may start where it does, it is read with any CIE that was read back from there. -/
structure FramedAs (target : Target) (fde : FdeBlueprint) (cie : CieBlueprint) (cieAt fdeAt : Nat)
    (framed : Record) : Prop where
  offset : framed.offset = fdeAt
  kind : framed.kind = .fde cieAt
  readable : ∀ image parsed, cie.ReadsBackAs target cieAt parsed →
    (parsed.declared.features.data = true ↔ cie.layout.data = true) →
    Fde.validStart image (target.addressSize.truncate fde.pcBegin) = true →
    ∃ f problem, Fde.read target image parsed framed = .ok (f, problem) ∧
      fde.ReadsBackAs target cieAt fdeAt f

/-- **An FDE that was written is read back**, if its CIE is. -/
theorem read_write {cieOffset : Option Nat} {offset : Nat} {record : List UInt8}
    (h : fde.write target cie cieOffset offset = .ok record) (hforced : fde.ciePointer = none)
    (hkeeps : PaddingKeeps fde.padding fde.instructions)
    (hbefore : ∀ cieAt, cieOffset = some cieAt → cieAt ≤ offset) (rest : List UInt8) :
    ∃ framed cieAt, cieOffset = some cieAt ∧
      Record.read target.order ⟨record ++ rest, offset⟩ =
          .ok (some (framed, ⟨rest, offset + record.length⟩)) ∧
        fde.FramedAs target cie cieAt offset framed := by
  obtain ⟨distance, decoded, pcBegin, pcRange, data, start, rfl, hdistance, hdecoded, hbegin, hrange,
    hdata, hrecord⟩ := write_eq_ok h
  obtain ⟨tail, hcontent, rfl⟩ := writeRecord_keeps hrecord hkeeps
  simp only [List.append_assoc] at hcontent ⊢
  obtain ⟨cieAt, hcie, hreal, hnear⟩ := distance_eq_ok hforced hdistance
  have hkind : Record.kindOf distance (offset + fde.format.lengthSize) = some (.fde cieAt) := by
    have hat := hbefore cieAt hcie
    have hsize := fde.format.lengthSize_pos
    unfold Record.kindOf
    rw [if_neg (by omega), if_pos (by omega)]
    congr 2
    omega
  have hfits : data.length < capacity 8 := by
    have hlimit : fde.format.limit ≤ capacity 8 := by
      cases fde.format <;> decide
    simp only [List.length_append] at hcontent
    omega
  have hframed := Record.read_framed target.order rest offset hcontent hnear hkind
  simp only [List.append_assoc] at hframed
  refine ⟨_, cieAt, hcie, hframed, rfl, rfl, ?_⟩
  intro image parsed hparsed hsame hvalid
  obtain ⟨_, hbeginRead⟩ := Window.pointer_store (pcRange ++ (data ++ tail)) _ hbegin
  obtain ⟨_, hrangeRead⟩ := Window.pointer_store (data ++ tail) _ hrange
  obtain ⟨extra, after, hextra⟩ := Fde.exists_readExtra
    (target.addressSize.truncate fde.pcBegin) fun hd =>
      exists_block_of_write hdata hfits (hsame.mp hd) tail
  exact ⟨_, _, Fde.read_of_fields (hparsed.pointerEncoding hdecoded) hbeginRead hrangeRead hvalid
    hextra, rfl, hparsed.offset, rfl, rfl⟩

end FdeBlueprint

end UnwindTables
