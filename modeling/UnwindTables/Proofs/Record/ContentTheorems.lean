/-
UnwindTables.Proofs.Record.ContentTheorems — what the readers of CIEs and FDEs keep to.

A record is read through its body alone. Whatever is wrong with it is therefore a fault of its body
and never one of the section (`Record.Reports`), and a record that is kept in spite of a fault says
so: a CIE by the flag that part of its block is missing, an FDE by having no language-specific data.

`Cie.read_eq_ok_iff` and `Fde.read_eq_ok` list the steps of a successful read, so that no other proof
has to open the readers.
-/
import UnwindTables.Fde
import UnwindTables.Proofs.Augmentation.BlockTheorems
import UnwindTables.Proofs.Bytes.WindowTheorems

namespace UnwindTables

open Window (Blames)

/-- A fault that is reported for a record: it is one of the record's body and damages no framing. -/
structure Record.Reports (record : Record) (fault : Fault) : Prop where
  inBody : fault.BlamesIn record.body
  recoverable : fault.isFatal = false

theorem Record.Reports.of_blames {record : Record} {fault : Fault}
    (h : fault.BlamesIn record.body) : record.Reports fault.withinRecord :=
  ⟨h.withinRecord, Fault.isFatal_withinRecord fault⟩

/-! ## 1. CIEs -/

theorem CieVersion.ofNumber?_eq_some_iff {number : UInt8} {version : CieVersion} :
    ofNumber? number = some version ↔ number = version.number := by
  constructor
  · intro h
    unfold ofNumber? at h
    split at h
    · next hone =>
        obtain rfl := Option.some.inj h
        exact hone
    · split at h
      · next hthree =>
          obtain rfl := Option.some.inj h
          exact hthree
      · simp at h
  · rintro rfl
    exact ofNumber?_number version

namespace Cie

variable {target : Target} {record : Record} {cie : Cie} {ending : BlockEnding}

theorem stays_readRegister (version : CieVersion) (window : Window) :
    window.Stays (readRegister version window) := by
  cases version with
  | one =>
      have h := Window.stays_byte window
      refine ⟨?_, ?_⟩
      · intro value rest hr
        obtain ⟨⟨byte, afterByte⟩, hbyte, hr⟩ := Steps.bind_eq_ok.mp hr
        obtain ⟨-, rfl⟩ := Prod.mk.inj (Steps.pure_eq_ok.mp hr)
        exact h.rest byte afterByte hbyte
      · exact Blames.read (.refl window) h fun _ _ _ _ => Window.blames_pure window _
  | three => exact Window.stays_unsigned window

/-- A CIE that cannot be read has a field that its body is too short for, or another version. -/
theorem blames_read (target : Target) (record : Record) : record.body.Blames (read target record) := by
  refine Blames.read (.refl _) (Window.stays_byte _) ?_
  intro number rest _ hw
  simp only
  split
  · exact Window.blames_error ⟨by simp [Fault.place?], by simp, by simp⟩
  · refine Blames.read hw (Window.stays_text _) ?_
    intro augmentation rest _ hw
    refine Blames.read hw (Window.stays_unsigned _) ?_
    intro codeAlignment rest _ hw
    refine Blames.read hw (Window.stays_signed _) ?_
    intro dataAlignment rest _ hw
    refine Blames.read hw (stays_readRegister _ _) ?_
    intro register rest _ _
    exact Window.blames_pure _ _

/-- The fields of a CIE are those at the start of a record's body, and `window` is what comes after
them: the augmentation data, if there is any. -/
def HeadIn (cie : Cie) (record : Record) (window : Window) : Prop :=
  ∃ afterVersion afterText afterCode afterData,
    record.body.byte = .ok (cie.version.number, afterVersion) ∧
      afterVersion.text = .ok (cie.augmentation, afterText) ∧
      afterText.unsigned = .ok (cie.codeAlignment, afterCode) ∧
      afterCode.signed = .ok (cie.dataAlignment, afterData) ∧
      readRegister cie.version afterData = .ok (cie.returnAddressRegister, window)

theorem HeadIn.within {window : Window} (h : cie.HeadIn record window) :
    window.Within record.body := by
  obtain ⟨_, _, _, _, hversion, htext, hcode, hdata, hregister⟩ := h
  have hw := (Window.stays_byte _).rest _ _ hversion
  have hw := ((Window.stays_text _).rest _ _ htext).trans hw
  have hw := ((Window.stays_unsigned _).rest _ _ hcode).trans hw
  have hw := ((Window.stays_signed _).rest _ _ hdata).trans hw
  exact ((stays_readRegister _ _).rest _ _ hregister).trans hw

theorem leaves_readRegister {version : CieVersion} {window rest : Window} {register : UInt64}
    (h : readRegister version window = .ok (register, rest)) : window.Leaves rest := by
  cases version with
  | one =>
      obtain ⟨⟨byte, afterByte⟩, hbyte, h⟩ := Steps.bind_eq_ok.mp h
      obtain ⟨-, rfl⟩ := Prod.mk.inj (Steps.pure_eq_ok.mp h)
      exact Window.leaves_byte hbyte
  | three => exact Window.leaves_unsigned h

/-- What comes after the fields of a CIE ends where the body of its record does. -/
theorem HeadIn.stop {window : Window} (h : cie.HeadIn record window) :
    window.stop = record.body.stop := by
  obtain ⟨_, _, _, _, hversion, htext, hcode, hdata, hregister⟩ := h
  have hleaves := (Window.leaves_byte hversion).trans (Window.leaves_text htext)
  have hleaves := (hleaves.trans (Window.leaves_unsigned hcode)).trans (Window.leaves_signed hdata)
  exact (hleaves.trans (leaves_readRegister hregister)).stop

theorem HeadIn.unique {window window' : Window} (h : cie.HeadIn record window)
    (h' : cie.HeadIn record window') : window = window' := by
  obtain ⟨_, _, _, _, hversion, htext, hcode, hdata, hregister⟩ := h
  obtain ⟨_, _, _, _, hversion', htext', hcode', hdata', hregister'⟩ := h'
  obtain ⟨-, rfl⟩ := Prod.mk.inj (Except.ok.inj (hversion.symm.trans hversion'))
  obtain ⟨-, rfl⟩ := Prod.mk.inj (Except.ok.inj (htext.symm.trans htext'))
  obtain ⟨-, rfl⟩ := Prod.mk.inj (Except.ok.inj (hcode.symm.trans hcode'))
  obtain ⟨-, rfl⟩ := Prod.mk.inj (Except.ok.inj (hdata.symm.trans hdata'))
  exact (Prod.mk.inj (Except.ok.inj (hregister.symm.trans hregister'))).2

/-- A CIE is read where its fields are at the start of the body and its declarations come after
them. -/
theorem read_eq_ok_iff :
    read target record = .ok (cie, ending) ↔
      ∃ window rest, cie.HeadIn record window ∧
        Declared.read target cie.augmentation window = (cie.declared, ending, rest) ∧
        cie.offset = record.offset ∧ cie.format = record.format ∧ cie.length = record.length ∧
        cie.instructions = ⟨rest.offset, record.stop⟩ := by
  constructor
  · intro h
    obtain ⟨⟨number, afterVersion⟩, hnumber, h⟩ := Steps.bind_eq_ok.mp h
    simp only at h
    split at h
    · exact absurd h Steps.throw_ne_ok
    · next version hversion =>
        obtain rfl := CieVersion.ofNumber?_eq_some_iff.mp hversion
        obtain ⟨⟨augmentation, afterText⟩, htext, h⟩ := Steps.bind_eq_ok.mp h
        obtain ⟨⟨codeAlignment, afterCode⟩, hcode, h⟩ := Steps.bind_eq_ok.mp h
        obtain ⟨⟨dataAlignment, afterData⟩, hdata, h⟩ := Steps.bind_eq_ok.mp h
        obtain ⟨⟨register, window⟩, hregister, h⟩ := Steps.bind_eq_ok.mp h
        obtain ⟨rfl, rfl⟩ := Prod.mk.inj (Steps.pure_eq_ok.mp h)
        exact ⟨window, _, ⟨_, _, _, _, hnumber, htext, hcode, hdata, hregister⟩, rfl, rfl, rfl, rfl,
          rfl⟩
  · obtain ⟨offset, format, length, version, augmentation, codeAlignment, dataAlignment, register,
      declared, instructions⟩ := cie
    rintro ⟨window, rest, ⟨_, _, _, _, hnumber, htext, hcode, hdata, hregister⟩, hdeclared, rfl, rfl,
      rfl, rfl⟩
    refine Steps.bind_eq_ok.mpr ⟨_, hnumber, ?_⟩
    simp only [CieVersion.ofNumber?_number]
    refine Steps.bind_eq_ok.mpr ⟨_, htext, ?_⟩
    refine Steps.bind_eq_ok.mpr ⟨_, hcode, ?_⟩
    refine Steps.bind_eq_ok.mpr ⟨_, hdata, ?_⟩
    refine Steps.bind_eq_ok.mpr ⟨_, hregister, ?_⟩
    simp only at hdeclared ⊢
    rw [hdeclared]
    rfl

/-- The fault that ended the reading of the augmentation data is one of the record, and the CIE is
marked as read in part. -/
theorem reports_of_read {fault : Fault} (h : read target record = .ok (cie, .failed fault)) :
    cie.declared.features.skipped = true ∧ record.Reports fault := by
  obtain ⟨window, rest, hhead, hd, -⟩ := read_eq_ok_iff.mp h
  obtain ⟨hskip, hin, hfatal⟩ := Declared.read_failed hd
  exact ⟨hskip, hin.mono hhead.within, hfatal⟩

end Cie

/-! ## 2. FDEs -/

namespace Fde

variable {target : Target} {image : Option Image} {cie : Cie} {record : Record} {fde : Fde}

theorem blames_readLsda (target : Target) (byte : UInt8) (function : UInt64) (block : Window) :
    block.Blames (readLsda target byte function block) := by
  refine Blames.bind (Window.blames_decode block byte) ?_
  intro decoded _
  cases decoded with
  | none => exact Window.blames_pure block _
  | some encoding =>
      refine Blames.read (.refl block) (Window.stays_pointer _ _ _ _) ?_
      intro _ _ _ _
      exact Window.blames_pure block _

/-- Augmentation data that does not fit is a fault of the record; language-specific data that
cannot be read is one as well, and there is none of it then. -/
theorem readExtra_spec (target : Target) (declared : Declared) (function : UInt64)
    (window : Window) :
    window.Blames (readExtra target declared function window) ∧
      ∀ extra rest, readExtra target declared function window = .ok (extra, rest) →
        ∀ fault, extra.fault = some fault →
          extra.lsda = none ∧ fault.BlamesIn window ∧ fault.isFatal = false := by
  unfold readExtra
  split
  · split
    · refine ⟨Window.blames_error (Fault.blamesIn_fault window .unexpectedEnd).withinBlock, ?_⟩
      intro extra rest h
      simp at h
    · next block afterBlock hblock =>
        simp only
        split
        · refine ⟨Window.blames_ok window _, ?_⟩
          rintro extra rest h fault hf
          obtain ⟨rfl, -⟩ := Prod.mk.inj (Except.ok.inj h)
          simp at hf
        · next byte _ =>
            split
            · refine ⟨Window.blames_ok window _, ?_⟩
              rintro extra rest h fault hf
              obtain ⟨rfl, -⟩ := Prod.mk.inj (Except.ok.inj h)
              simp at hf
            · next reason hl =>
                refine ⟨Window.blames_ok window _, ?_⟩
                rintro extra rest h fault hf
                obtain ⟨rfl, -⟩ := Prod.mk.inj (Except.ok.inj h)
                obtain rfl := Option.some.inj hf
                have hin := blames_readLsda target byte function block reason hl
                exact ⟨rfl, (hin.mono (Window.within_of_block hblock)).withinBlock,
                  Fault.isFatal_withinBlock reason⟩
  · refine ⟨Window.blames_ok window _, ?_⟩
    rintro extra rest h fault hf
    obtain ⟨rfl, -⟩ := Prod.mk.inj (Except.ok.inj h)
    simp at hf

theorem blames_pointerEncoding (window : Window) (cie : Cie) :
    window.Blames cie.pointerEncoding := by
  unfold Cie.pointerEncoding
  split
  · refine Blames.bind (Window.blames_decode window _) ?_
    intro _ _
    exact Window.blames_pure window _
  · exact Window.blames_ok window _

/-- An FDE that cannot be read has a field that its body is too short for, a pointer that has no
meaning, or a start that is not valid. -/
theorem blames_read (target : Target) (image : Option Image) (cie : Cie) (record : Record) :
    record.body.Blames (read target image cie record) := by
  refine Blames.bind (blames_pointerEncoding _ cie) ?_
  intro encoding _
  refine Blames.read (.refl _) (Window.stays_pointer _ _ _ _) ?_
  intro pcBegin rest _ hw
  refine Blames.read hw (Window.stays_pointer _ _ _ _) ?_
  intro pcRange rest _ hw
  simp only
  split
  · refine Blames.bind ((readExtra_spec _ _ _ _).1.mono hw) ?_
    intro _ _
    exact Window.blames_pure _ _
  · exact Window.blames_error ⟨by simp [Fault.place?], by simp, by simp⟩

/-- The steps of reading an FDE. -/
theorem read_eq_ok {problem : Option Fault}
    (h : read target image cie record = .ok (fde, problem)) :
    ∃ encoding pcBegin afterBegin pcRange afterRange extra afterExtra,
      cie.pointerEncoding = .ok encoding ∧
      record.body.pointer target encoding none = .ok (pcBegin, afterBegin) ∧
      afterBegin.pointer target encoding.valueOnly none = .ok (pcRange, afterRange) ∧
      validStart image pcBegin.address = true ∧
      readExtra target cie.declared pcBegin.address afterRange = .ok (extra, afterExtra) ∧
      problem = extra.fault ∧
      fde = { offset := record.offset
              format := record.format
              length := record.length
              cie := cie.offset
              pcBegin := pcBegin.address
              pcRange := pcRange.address
              lsda := extra.lsda
              augmentationData := extra.span
              instructions := ⟨afterExtra.offset, record.stop⟩ } := by
  obtain ⟨encoding, hencoding, h⟩ := Steps.bind_eq_ok.mp h
  obtain ⟨⟨pcBegin, afterBegin⟩, hbegin, h⟩ := Steps.bind_eq_ok.mp h
  obtain ⟨⟨pcRange, afterRange⟩, hrange, h⟩ := Steps.bind_eq_ok.mp h
  simp only at h
  split at h
  · next hvalid =>
      obtain ⟨⟨extra, afterExtra⟩, hextra, h⟩ := Steps.bind_eq_ok.mp h
      obtain ⟨rfl, rfl⟩ := Prod.mk.inj (Steps.pure_eq_ok.mp h)
      exact ⟨encoding, pcBegin, afterBegin, pcRange, afterRange, extra, afterExtra, hencoding,
        hbegin, hrange, hvalid, hextra, rfl, rfl⟩
  · exact absurd h Steps.throw_ne_ok

/-- An FDE whose fields can be read is read. -/
theorem read_of_fields {encoding : PointerEncoding} {pcBegin pcRange : Pointer}
    {afterBegin afterRange afterExtra : Window} {extra : Extra}
    (hencoding : cie.pointerEncoding = .ok encoding)
    (hbegin : record.body.pointer target encoding none = .ok (pcBegin, afterBegin))
    (hrange : afterBegin.pointer target encoding.valueOnly none = .ok (pcRange, afterRange))
    (hvalid : validStart image pcBegin.address = true)
    (hextra : readExtra target cie.declared pcBegin.address afterRange = .ok (extra, afterExtra)) :
    read target image cie record = .ok (
      { offset := record.offset
        format := record.format
        length := record.length
        cie := cie.offset
        pcBegin := pcBegin.address
        pcRange := pcRange.address
        lsda := extra.lsda
        augmentationData := extra.span
        instructions := ⟨afterExtra.offset, record.stop⟩ }, extra.fault) := by
  refine Steps.bind_eq_ok.mpr ⟨_, hencoding, ?_⟩
  refine Steps.bind_eq_ok.mpr ⟨_, hbegin, ?_⟩
  refine Steps.bind_eq_ok.mpr ⟨_, hrange, ?_⟩
  simp only
  rw [if_pos hvalid]
  exact Steps.bind_eq_ok.mpr ⟨_, hextra, rfl⟩

/-- A fault beside an FDE is one of the record, and the FDE has no language-specific data. -/
theorem reports_of_read {fault : Fault}
    (h : read target image cie record = .ok (fde, some fault)) :
    fde.lsda = none ∧ record.Reports fault := by
  obtain ⟨_, pcBegin, afterBegin, _, afterRange, extra, _, -, hbegin, hrange, -, hextra, hf, rfl⟩ :=
    read_eq_ok h
  have hw := ((Window.stays_pointer _ _ _ _).rest _ _ hrange).trans
    ((Window.stays_pointer _ _ _ _).rest _ _ hbegin)
  obtain ⟨hnone, hin, hfatal⟩ := (readExtra_spec _ _ _ _).2 _ _ hextra fault hf.symm
  exact ⟨hnone, hin.mono hw, hfatal⟩

end Fde

end UnwindTables
