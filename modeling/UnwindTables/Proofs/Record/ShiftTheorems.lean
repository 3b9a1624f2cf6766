/-
UnwindTables.Proofs.Record.ShiftTheorems — the same record further on in a section.

A record that is `n` bytes further on holds the same, with `n` added to every section offset: its own,
that of the CIE it refers to, those of its parts, and those that its faults name. It is read as if the
section were loaded `n` bytes further on, which is `Target.advance n`.

This is said of records that are there. A record on its own may be damaged because it refers to
something before the start of the section; further on it is not (`Record.read_shift` asks for a record).

## How the proofs go

Every reader of a record is a sequence of readers of fields, and `shifted_bind` follows it with the
lemma for each field. Augmentation data is read by recursion on the augmentation string, so
`Declared.readBlock_shift` is the one induction.
-/
import UnwindTables.Proofs.Bytes.ShiftTheorems
import UnwindTables.Proofs.Record.HeaderTheorems
import UnwindTables.Fde

namespace UnwindTables

variable (n : Nat)

/-! ## 1. One record further on -/

/-- The same `n` bytes further on in the section. -/
def RecordKind.shift : RecordKind → RecordKind
  | cie => cie
  | fde owner => fde (owner + n)

namespace Record

variable {order : ByteOrder} {window rest : Window} {record : Record}

/-- The same record `n` bytes further on in the section. -/
def shift (record : Record) : Record :=
  { record with
    offset := record.offset + n
    kind := record.kind.shift n
    body := record.body.shift n }

theorem kind_shift (record : Record) : (record.shift n).kind = record.kind.shift n := rfl

theorem stop_shift (record : Record) : (record.shift n).stop = record.stop + n := by
  simp only [stop, shift]
  omega

theorem kindOf_shift {id field : Nat} {kind : RecordKind} (h : kindOf id field = some kind) :
    kindOf id (field + n) = some (kind.shift n) := by
  unfold kindOf at h ⊢
  split at h
  · next hzero =>
      obtain rfl := Option.some.inj h
      rw [if_pos hzero]
      rfl
  · next hzero =>
      split at h
      · next hle =>
          obtain rfl := Option.some.inj h
          rw [if_neg hzero, if_pos (Nat.le_add_right_of_le hle), Nat.sub_add_comm hle]
          rfl
      · simp at h

theorem readLength_shift (order : ByteOrder) (window : Window) :
    readLength order (window.shift n) =
      shifted n (Option.map (Prod.map id (Window.shiftRest n))) (readLength order window) := by
  refine shifted_bind n (Window.word_shift n window order 4) ?_
  rintro ⟨first, rest⟩
  by_cases hzero : first = 0
  · simp only [Window.shiftRest, hzero, ↓reduceIte]
    rfl
  · by_cases hescape : first = RecordFormat.escape
    · simp only [Window.shiftRest, hescape, ↓reduceIte]
      exact shifted_bind n (Window.word_shift n rest order 8) fun _ => rfl
    · simp only [Window.shiftRest, hzero, hescape, ↓reduceIte]
      rfl

theorem read_shift (h : read order window = .ok (some (record, rest))) :
    read order (window.shift n) = .ok (some (record.shift n, rest.shift n)) := by
  obtain ⟨afterLength, content, id, hlength, hcontent, hid, hkind, hoffset⟩ := read_eq_some_iff.mp h
  refine read_eq_some_iff.mpr ⟨afterLength.shift n, content.shift n, id, ?_, ?_, ?_, ?_, ?_⟩
  · rw [readLength_shift, hlength]
    rfl
  · rw [show (record.shift n).length = record.length from rfl, Window.split_shift, hcontent]
    rfl
  · rw [Window.word_shift, hid]
    rfl
  · exact kindOf_shift n hkind
  · exact congrArg (· + n) hoffset

theorem read_shift_of_none (h : read order window = .ok none) :
    read order (window.shift n) = .ok none := by
  unfold read at h ⊢
  rw [Window.size_shift]
  split at h
  · next hempty => rw [if_pos hempty]
  · next hsome =>
      rw [if_neg hsome, readLength_shift]
      obtain ⟨_ | ⟨format, length, afterLength⟩, hlength, h⟩ := Steps.bind_eq_ok.mp h
      · rw [hlength]
        rfl
      · simp only at h
        split at h
        · exact absurd h Steps.throw_ne_ok
        · obtain ⟨⟨content, after⟩, hcontent, h⟩ := Steps.bind_eq_ok.mp h
          obtain ⟨⟨id, body⟩, hid, h⟩ := Steps.bind_eq_ok.mp h
          simp only at h
          split at h
          · exact absurd h Steps.throw_ne_ok
          · simp [Steps.pure_eq_ok] at h

end Record

/-! ## 2. Augmentations further on -/

/-- The same ending of a block that is `n` bytes further on in the section. -/
def BlockEnding.shift : BlockEnding → BlockEnding
  | failed fault => failed (fault.shift n)
  | ending => ending

@[simp] theorem BlockEnding.fault?_shift (ending : BlockEnding) :
    (ending.shift n).fault? = ending.fault?.map (Fault.shift n) := by
  cases ending <;> rfl

namespace Declared

variable (target : Target) (declared : Declared) (block : Window)

theorem readLsdaEncoding_shift :
    declared.readLsdaEncoding (block.shift n) =
      Prod.map id (shifted n (Window.shift n)) (declared.readLsdaEncoding block) := by
  unfold readLsdaEncoding
  rw [Window.byte_shift]
  cases block.byte <;> rfl

theorem readFdeEncoding_shift :
    declared.readFdeEncoding (block.shift n) =
      Prod.map id (shifted n (Window.shift n)) (declared.readFdeEncoding block) := by
  unfold readFdeEncoding
  rw [Window.byte_shift]
  cases block.byte <;> rfl

theorem readPersonality_shift :
    declared.readPersonality target (block.shift n) =
      Prod.map id (shifted n (Window.shift n))
        (declared.readPersonality (target.advance n) block) := by
  unfold readPersonality
  rw [Window.byte_shift]
  cases block.byte with
  | error fault => rfl
  | ok read =>
      obtain ⟨byte, rest⟩ := read
      simp only [shifted_ok, Window.shiftRest]
      cases hdecode : PointerEncoding.decode byte with
      | error fault =>
          have hsame := PointerEncoding.shift_fault_of_decode n hdecode
          simp only [Prod.map_apply, id_eq, shifted_error, hsame]
      | ok encoding =>
          cases encoding with
          | none => rfl
          | some encoding =>
              simp only [Window.pointer_shift]
              cases rest.pointer (target.advance n) encoding none <;> rfl

theorem readField_shift (action : AugmentationAction) :
    declared.readField target action (block.shift n) =
      Prod.map id (shifted n (Window.shift n))
        (declared.readField (target.advance n) action block) := by
  cases action with
  | readPersonality => exact readPersonality_shift n target declared block
  | readLsdaEncoding => exact readLsdaEncoding_shift n declared block
  | readFdeEncoding => exact readFdeEncoding_shift n declared block
  | _ => rfl

theorem readBlock_shift (state : AugmentationState) (codes : List UInt8) :
    readBlock target state codes declared (block.shift n) =
      Prod.map id (BlockEnding.shift n)
        (readBlock (target.advance n) state codes declared block) := by
  induction codes generalizing state declared block with
  | nil => rfl
  | cons code codes ih =>
      simp only [readBlock]
      split
      · rfl
      · rw [readField_shift]
        obtain ⟨found, result⟩ :=
          declared.readField (target.advance n) (state.transition code).2 block
        cases result with
        | ok rest => exact ih found rest (state.transition code).1
        | error fault =>
            simp only [Prod.map_apply, id_eq, shifted_error, Fault.withinBlock_shift]
            rfl

theorem read_shift (codes : List UInt8) (window : Window) :
    read target codes (window.shift n) =
      Prod.map id (Prod.map (BlockEnding.shift n) (Window.shift n))
        (read (target.advance n) codes window) := by
  unfold read
  cases codes with
  | nil => rfl
  | cons code codes =>
      simp only
      split
      · rw [Window.block_shift]
        cases window.block with
        | error fault =>
            simp only [shifted_error, Window.dropAll_shift]
            rfl
        | ok read =>
            obtain ⟨block, rest⟩ := read
            simp only [shifted_ok, Prod.map_apply, readBlock_shift]
            rfl
      · rfl

end Declared

/-! ## 3. CIEs further on -/

/-- The same part `n` bytes further on in the section. -/
def Span.shift (span : Span) : Span := ⟨span.start + n, span.stop + n⟩

namespace Cie

/-- The same CIE `n` bytes further on in the section. -/
def shift (cie : Cie) : Cie :=
  { cie with offset := cie.offset + n, instructions := cie.instructions.shift n }

theorem readRegister_shift (version : CieVersion) (window : Window) :
    readRegister version (window.shift n) =
      shifted n (Window.shiftRest n) (readRegister version window) := by
  cases version with
  | one => exact shifted_bind n (Window.byte_shift n window) fun _ => rfl
  | three => exact Window.unsigned_shift n window

theorem read_shift (target : Target) (record : Record) :
    read target (record.shift n) =
      shifted n (Prod.map (shift n) (BlockEnding.shift n)) (read (target.advance n) record) := by
  refine shifted_bind n (Window.byte_shift n record.body) ?_
  rintro ⟨number, rest⟩
  simp only [Window.shiftRest]
  cases CieVersion.ofNumber? number with
  | none => rfl
  | some version =>
      refine shifted_bind n (Window.text_shift n rest) ?_
      rintro ⟨augmentation, rest⟩
      refine shifted_bind n (Window.unsigned_shift n rest) ?_
      rintro ⟨codeAlignment, rest⟩
      refine shifted_bind n (Window.signed_shift n rest) ?_
      rintro ⟨dataAlignment, rest⟩
      refine shifted_bind n (readRegister_shift n version rest) ?_
      rintro ⟨returnAddressRegister, rest⟩
      simp only [Window.shiftRest, Declared.read_shift, Record.stop_shift]
      rfl

theorem pointerEncoding_shift (cie : Cie) :
    (cie.shift n).pointerEncoding = shifted n id cie.pointerEncoding := by
  show cie.pointerEncoding = shifted n id cie.pointerEncoding
  unfold pointerEncoding
  split
  · exact shifted_bind n (PointerEncoding.decode_shift n _) fun _ => rfl
  · rfl

end Cie

/-! ## 4. FDEs further on -/

namespace Fde

variable (target : Target)

/-- The same FDE `n` bytes further on in the section. -/
def shift (fde : Fde) : Fde :=
  { fde with
    offset := fde.offset + n
    cie := fde.cie + n
    augmentationData := fde.augmentationData.shift n
    instructions := fde.instructions.shift n }

/-- The same augmentation data `n` bytes further on in the section. -/
def Extra.shift (extra : Extra) : Extra :=
  { extra with fault := extra.fault.map (Fault.shift n), span := extra.span.shift n }

theorem readLsda_shift (byte : UInt8) (function : UInt64) (block : Window) :
    readLsda target byte function (block.shift n) =
      shifted n id (readLsda (target.advance n) byte function block) := by
  refine shifted_bind n (PointerEncoding.decode_shift n byte) ?_
  rintro (_ | encoding)
  · rfl
  · exact shifted_bind n (Window.pointer_shift n target block encoding _) fun _ => rfl

theorem readExtra_shift (declared : Declared) (function : UInt64) (window : Window) :
    readExtra target declared function (window.shift n) =
      shifted n (Prod.map (Extra.shift n) (Window.shift n))
        (readExtra (target.advance n) declared function window) := by
  unfold readExtra
  split
  · rw [Window.block_shift]
    cases window.block with
    | error fault => rfl
    | ok read =>
        obtain ⟨block, rest⟩ := read
        simp only [shifted_ok, Prod.map_apply]
        cases declared.lsdaEncoding with
        | none => rfl
        | some byte =>
            simp only [readLsda_shift]
            cases readLsda (target.advance n) byte function block with
            | ok lsda => rfl
            | error fault =>
                simp only [shifted_error, Fault.withinBlock_shift]
                rfl
  · rfl

theorem read_shift (image : Option Image) (cie : Cie) (record : Record) :
    read target image (cie.shift n) (record.shift n) =
      shifted n (Prod.map (shift n) (Option.map (Fault.shift n)))
        (read (target.advance n) image cie record) := by
  refine shifted_bind n (Cie.pointerEncoding_shift n cie) ?_
  intro encoding
  refine shifted_bind n (Window.pointer_shift n target record.body encoding none) ?_
  rintro ⟨pcBegin, rest⟩
  refine shifted_bind n (Window.pointer_shift n target rest encoding.valueOnly none) ?_
  rintro ⟨pcRange, rest⟩
  simp only [Window.shiftRest]
  split
  · refine shifted_bind n (readExtra_shift n target cie.declared pcBegin.address rest) ?_
    rintro ⟨extra, rest⟩
    simp only [Record.stop_shift, Prod.map_apply]
    rfl
  · rfl

end Fde

end UnwindTables
