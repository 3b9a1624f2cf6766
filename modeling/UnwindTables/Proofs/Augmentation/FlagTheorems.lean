/-
UnwindTables.Proofs.Augmentation.FlagTheorems — what a string and its block make of the flags of a CIE.

`Declared.Reads` says what is declared without following the string: nothing where there is no string, and
nothing but a flag where it has no leading `z` or its block does not fit; otherwise what the fields of the
block declare, and what the end of the reading adds to it. A flag is a property of `Declared.Reads`, proved
by the same four cases each time. That no encoding is declared without its flag holds of nothing
(`Consistent.nothing`), is kept by every field (`Consistent.declare`) and so by a whole block.
-/
import UnwindTables.Proofs.Augmentation.FieldTheorems

namespace UnwindTables

open AugmentationState (isField isField_cases HasUnknown)

variable {target : Target} {declared : Declared} {block rest : Window} {field : BlockField}
  {fields : List BlockField} {code : UInt8} {codes : List UInt8}

/-! ## 1. The end of a block -/

/-- No field says anything about the block as a whole. -/
theorem foldl_declare_features (fields : List BlockField) (declared : Declared) :
    (fields.foldl BlockField.declare declared).features.data = declared.features.data ∧
      (fields.foldl BlockField.declare declared).features.malformed = declared.features.malformed ∧
      (fields.foldl BlockField.declare declared).features.skipped = declared.features.skipped := by
  induction fields generalizing declared with
  | nil => exact ⟨rfl, rfl, rfl⟩
  | cons field fields ih =>
      obtain ⟨hdata, hmalformed, hskipped⟩ := ih (field.declare declared)
      rw [List.foldl_cons, hdata, hmalformed, hskipped]
      unfold BlockField.declare
      split
      · cases field.pointer <;> exact ⟨rfl, rfl, rfl⟩
      · split <;> exact ⟨rfl, rfl, rfl⟩

theorem malformed_afterField_of_error {fault : Fault} (hcode : isField code)
    (h : Declared.fieldEnd target code block = .error fault) (declared : Declared) :
    (Declared.afterField target code declared block).features.malformed =
      declared.features.malformed := by
  rcases isField_cases code with rfl | rfl | rfl | hno
  · rw [afterField_P_of_error h []]
  · rw [afterField_L_of_error h]
  · rw [afterField_R_of_error h]
  · simp [hno] at hcode

/-- A block that is not read to its end is marked, and no other one. -/
theorem EndsReading.features {result : Declared × BlockEnding}
    (h : EndsReading target declared rest codes result) :
    result.1.features.data = declared.features.data ∧
      result.1.features.malformed = declared.features.malformed ∧
      (result.1.features.skipped = true ↔
        declared.features.skipped = true ∨ result.2 ≠ .complete) := by
  cases h with
  | complete => simp
  | unknown codes hunknown => simp [Declared.skip]
  | @failed code codes fault hcode hend =>
      have hdata : (Declared.afterField target code declared rest).features.data =
          declared.features.data := Declared.data_afterField hcode declared rest
      have hmalformed := malformed_afterField_of_error hcode hend declared
      simp [Declared.skip, hdata, hmalformed]

/-! ## 2. Declared encodings -/

namespace Declared

/-- Whatever is declared was met in the string, and what is declared as an encoding is one. -/
structure Consistent (declared : Declared) : Prop where
  fdeEncoding : ∀ byte, declared.fdeEncoding = some byte →
    declared.features.fdeEncoding = true ∧ byte ≠ PointerEncoding.omitted
  lsdaEncoding : ∀ byte, declared.lsdaEncoding = some byte →
    declared.features.lsda = true ∧ byte ≠ PointerEncoding.omitted
  personalityEncoding : ∀ byte, declared.personalityEncoding = some byte →
    declared.features.personality = true ∧
      ∃ encoding, PointerEncoding.decode byte = .ok (some encoding)
  personality : ∀ pointer, declared.personality = some pointer →
    declared.features.personality = true

theorem ne_omitted_of_declaredByte {byte found : UInt8} (h : declaredByte byte = some found) :
    found ≠ PointerEncoding.omitted := by
  unfold declaredByte at h
  split at h
  · cases h
  · next hne =>
      obtain rfl := Option.some.inj h
      exact hne

theorem Consistent.nothing (features : Features) : (Declared.nothing features).Consistent := by
  constructor <;> simp [Declared.nothing]

theorem Consistent.declare (h : declared.Consistent) (hat : field.At target block rest) :
    (field.declare declared).Consistent := by
  cases hat with
  | lsdaEncoding byte bytes offset =>
      exact ⟨h.fdeEncoding, fun _ hbyte => ⟨rfl, ne_omitted_of_declaredByte hbyte⟩,
        h.personalityEncoding, h.personality⟩
  | fdeEncoding byte bytes offset =>
      exact ⟨fun _ hbyte => ⟨rfl, ne_omitted_of_declaredByte hbyte⟩, h.lsdaEncoding,
        h.personalityEncoding, h.personality⟩
  | omitted bytes offset =>
      exact ⟨h.fdeEncoding, h.lsdaEncoding,
        fun byte hbyte => ⟨rfl, (h.personalityEncoding byte hbyte).2⟩, fun _ _ => rfl⟩
  | @personality byte bytes offset size encoding pointer hdecode hresolve =>
      refine ⟨h.fdeEncoding, h.lsdaEncoding, ?_, fun _ _ => rfl⟩
      intro found hfound
      obtain rfl := Option.some.inj hfound
      exact ⟨rfl, encoding, hdecode⟩

theorem Consistent.foldl (h : declared.Consistent) (hfields : FieldsAt target fields block rest) :
    (fields.foldl BlockField.declare declared).Consistent := by
  induction hfields generalizing declared with
  | nil window => exact h
  | cons hat _ ih => exact ih (h.declare hat)

theorem Consistent.skip (h : declared.Consistent) : declared.skip.Consistent :=
  ⟨h.fdeEncoding, h.lsdaEncoding, h.personalityEncoding, h.personality⟩

theorem Consistent.afterField_of_error {fault : Fault} (h : declared.Consistent)
    (hcode : AugmentationState.isField code) (hend : fieldEnd target code block = .error fault) :
    (Declared.afterField target code declared block).Consistent := by
  rcases isField_cases code with rfl | rfl | rfl | hno
  · rw [afterField_P_of_error hend []]
    refine ⟨h.fdeEncoding, h.lsdaEncoding, ?_, fun _ _ => rfl⟩
    intro byte hbyte
    refine ⟨rfl, ?_⟩
    -- Either the byte is the one that was declared before, or its own pointer is missing.
    cases hhalf : halfByte? target ['P'.toUInt8] block with
    | none =>
        rw [hhalf, Option.none_or] at hbyte
        exact (h.personalityEncoding byte hbyte).2
    | some half =>
        rw [hhalf, Option.some_or] at hbyte
        obtain rfl := Option.some.inj hbyte
        obtain ⟨_, _, encoding, _, -, -, hdecode, -⟩ := halfByte?_eq_some_iff.mp hhalf
        exact ⟨encoding, hdecode⟩
  · rw [afterField_L_of_error hend]
    exact ⟨h.fdeEncoding, fun byte hbyte => ⟨rfl, (h.lsdaEncoding byte hbyte).2⟩,
      h.personalityEncoding, h.personality⟩
  · rw [afterField_R_of_error hend]
    exact ⟨fun byte hbyte => ⟨rfl, (h.fdeEncoding byte hbyte).2⟩, h.lsdaEncoding,
      h.personalityEncoding, h.personality⟩
  · simp [hno] at hcode

theorem Consistent.endsReading {result : Declared × BlockEnding} (h : declared.Consistent)
    (hends : EndsReading target declared rest codes result) : result.1.Consistent := by
  cases hends with
  | complete => exact h
  | unknown codes hunknown => exact h.skip
  | failed codes hcode hend => exact (h.afterField_of_error hcode hend).skip

/-! ## 3. A string and the bytes after the fields of its CIE -/

/-- What is declared where there is a block of which nothing has been read. -/
def opened : Declared := nothing { Features.none with data := true }

/-- What is declared by a string without a leading `z`. -/
def refused : Declared := nothing { Features.none with malformed := true }

/-- What a string declares together with a window, why the reading ended, and the window after it. -/
inductive Reads (target : Target) (window : Window) :
    List UInt8 → Declared × BlockEnding × Window → Prop
  /-- Without a string nothing is declared. -/
  | absent : Reads target window [] (nothing .none, .complete, window)
  /-- Without a leading `z` nothing is read. -/
  | refused {code : UInt8} (codes : List UInt8) : code ≠ 'z'.toUInt8 →
      Reads target window (code :: codes) (refused, .complete, window)
  /-- A block that does not fit leaves nothing that could be located. -/
  | overrun (codes : List UInt8) {fault : Fault} : window.block = .error fault →
      Reads target window ('z'.toUInt8 :: codes)
        (opened.skip, .failed (.invalidAugmentation window.offset), window.dropAll)
  /-- A block that fits is read as fields from its start on. -/
  | block {fields : List BlockField} {more : List UInt8} {block left rest : Window}
      {result : Declared × BlockEnding} :
      window.block = .ok (block, rest) → FieldsAt target fields block left →
      EndsReading target (fields.foldl BlockField.declare opened) left more result →
      Reads target window ('z'.toUInt8 :: (fields.map BlockField.code ++ more))
        (result.1, result.2, rest)

variable {window : Window} {result : Declared × BlockEnding × Window}

/-- The reader does what `Reads` says. -/
theorem reads (target : Target) (codes : List UInt8) (window : Window) :
    Reads target window codes (read target codes window) := by
  cases codes with
  | nil => exact .absent
  | cons code codes =>
      by_cases hz : code = 'z'.toUInt8
      · subst hz
        cases hblock : window.block with
        | error fault =>
            simp only [read, AugmentationState.transition_z, hblock]
            exact .overrun codes hblock
        | ok halves =>
            obtain ⟨block, rest⟩ := halves
            obtain ⟨fields, more, left, rfl, hfields, hends⟩ :=
              exists_reading target codes opened block
            simp only [read, AugmentationState.transition_z, hblock]
            exact .block hblock hfields hends
      · simp only [read, AugmentationState.transition_not_z hz]
        exact .refused codes hz

theorem Reads.consistent (h : Reads target window codes result) : result.1.Consistent := by
  cases h with
  | absent => exact .nothing _
  | refused codes hz => exact .nothing _
  | overrun codes hblock => exact (Consistent.nothing _).skip
  | block hblock hfields hends => exact ((Consistent.nothing _).foldl hfields).endsReading hends

/-- A string with a leading `z` says that there is a block. -/
theorem Reads.data (h : Reads target window codes result) :
    result.1.features.data = true ↔ codes.head? = some 'z'.toUInt8 := by
  cases h with
  | absent => simp [nothing, Features.none]
  | refused codes hz => simp [Declared.refused, nothing, Features.none, hz]
  | overrun codes hblock => simp [skip, opened, nothing]
  | @block fields more block left rest result hblock hfields hends =>
      have hdata := hends.features.1.trans (foldl_declare_features fields opened).1
      simp [hdata, opened, nothing]

/-- A string is malformed if it has characters but no leading `z`. -/
theorem Reads.malformed (h : Reads target window codes result) :
    result.1.features.malformed = true ↔ codes ≠ [] ∧ codes.head? ≠ some 'z'.toUInt8 := by
  cases h with
  | absent => simp [nothing, Features.none]
  | refused codes hz => simp [Declared.refused, nothing, hz]
  | overrun codes hblock => simp [skip, opened, nothing, Features.none]
  | @block fields more block left rest result hblock hfields hends =>
      have hmalformed := hends.features.2.1.trans (foldl_declare_features fields opened).2.1
      simp [hmalformed, opened, nothing, Features.none]

/-- Part of a block is skipped unless it is followed to its end. -/
theorem Reads.skipped (h : Reads target window codes result) :
    result.1.features.skipped = true ↔ result.2.1 ≠ .complete := by
  cases h with
  | absent => simp [nothing, Features.none]
  | refused codes hz => simp [Declared.refused, nothing, Features.none]
  | overrun codes hblock => simp [skip]
  | @block fields more block left rest result hblock hfields hends =>
      rw [hends.features.2.2, (foldl_declare_features fields opened).2.2]
      simp [opened, nothing, Features.none]

/-- A string that is followed to its end has no unknown character, and one whose reading ends at such a
character has one. -/
theorem Reads.hasUnknown (h : Reads target window codes result) :
    (result.2.1 = .complete → ¬ AugmentationState.HasUnknown codes) ∧
      ∀ code, result.2.1 = .unknownCode code → AugmentationState.HasUnknown codes := by
  cases h with
  | absent => exact ⟨fun _ => AugmentationState.not_hasUnknown_of_not_z (by simp), by simp⟩
  | refused codes hz =>
      exact ⟨fun _ => AugmentationState.not_hasUnknown_of_not_z (by simpa using hz), by simp⟩
  | overrun codes hblock => exact ⟨by simp, by simp⟩
  | block hblock hfields hends =>
      rw [AugmentationState.hasUnknown_z_iff]
      cases hends with
      | complete =>
          rw [List.append_nil, List.all_eq_true.mpr hfields.isField]
          simp
      | unknown more hunknown => simp [hunknown]
      | failed more hcode hend => simp

/-- Without a leading `z` nothing is read. -/
theorem Reads.of_not_z (h : Reads target window codes (declared, ending, rest))
    (hz : codes.head? ≠ some 'z'.toUInt8) :
    declared = nothing declared.features ∧ ending = .complete ∧ rest = window := by
  cases h with
  | absent => exact ⟨rfl, rfl, rfl⟩
  | refused codes hne => exact ⟨rfl, rfl, rfl⟩
  | overrun codes hblock => exact absurd rfl hz
  | block hblock hfields hends => exact absurd rfl hz

/-- So something that was read is there because of a leading `z`. -/
theorem Reads.head_of_some {α : Type} {found : α} (h : Reads target window codes (declared, ending, rest))
    (field : Declared → Option α) (hnothing : ∀ features, field (nothing features) = none)
    (hfound : field declared = some found) : codes.head? = some 'z'.toUInt8 := by
  apply Decidable.byContradiction
  intro hz
  rw [(h.of_not_z hz).1, hnothing] at hfound
  cases hfound

theorem Reads.of_nil (h : Reads target window codes (declared, ending, rest)) (hcodes : codes = []) :
    declared = nothing .none := by
  cases h with
  | absent => rfl
  | refused codes hne => cases hcodes
  | overrun codes hblock => cases hcodes
  | block hblock hfields hends => cases hcodes

theorem Reads.of_malformed (h : Reads target window codes (declared, ending, rest))
    (hmalformed : declared.features.malformed = true) : declared = Declared.refused := by
  obtain ⟨hne, hz⟩ := h.malformed.mp hmalformed
  cases h with
  | absent => exact absurd rfl hne
  | refused codes hne => rfl
  | overrun codes hblock => exact absurd rfl hz
  | block hblock hfields hends => exact absurd rfl hz

/-- Part of a block is skipped at an unknown character and at damage. -/
theorem Reads.skipped_iff (h : Reads target window codes (declared, ending, rest)) :
    declared.features.skipped = true ↔
      codes.head? = some 'z'.toUInt8 ∧ (HasUnknown codes ∨ ∃ fault, ending = .failed fault) := by
  obtain ⟨hcomplete, hunknown⟩ := h.hasUnknown
  rw [h.skipped]
  by_cases hz : codes.head? = some 'z'.toUInt8
  · cases ending with
    | complete => simp [hcomplete rfl]
    | unknownCode code => simp [hz, hunknown code rfl]
    | failed fault => simp [hz]
  · simp [hz, (h.of_not_z hz).2.1]

end Declared

end UnwindTables
