/-
UnwindTables.Proofs.Augmentation.FieldTheorems — the fields that a block of augmentation data consists of.

`BlockField.At` says without the reader what a field is: which bytes at the start of a window belong to it,
and which window comes after it. `FieldsAt` puts fields one after the other. Whatever the characters and the
bytes are, a block is read as some fields from its start on, one for each character, up to where the string
ends, a character is unknown, or a field is not there (`exists_reading`); and what is declared then is what
these fields say one after the other (`BlockField.declare`), so that the last one of a kind counts.
`EndsReading` says what becomes of the field at which the reading ends.
-/
import UnwindTables.Proofs.Augmentation.BlockTheorems
import UnwindTables.Proofs.Bytes.ReadBackTheorems

namespace UnwindTables

open AugmentationState (isField isField_cases)

/-! ## 1. Fields -/

/-- A field of a block of augmentation data. -/
structure BlockField where
  /-- The character that asks for it. -/
  code : UInt8
  /-- The byte that it starts with. -/
  byte : UInt8
  /-- The pointer after the byte, if there is one. -/
  pointer : Option Pointer
deriving DecidableEq, Repr

namespace BlockField

/-- A field is at the start of a window, and another window is what comes after it. -/
inductive At (target : Target) : BlockField → Window → Window → Prop
  /-- An `L` asks for a byte. -/
  | lsdaEncoding (byte : UInt8) (bytes : List UInt8) (offset : Nat) :
      At target ⟨'L'.toUInt8, byte, none⟩ ⟨byte :: bytes, offset⟩ ⟨bytes, offset + 1⟩
  /-- An `R` asks for a byte. -/
  | fdeEncoding (byte : UInt8) (bytes : List UInt8) (offset : Nat) :
      At target ⟨'R'.toUInt8, byte, none⟩ ⟨byte :: bytes, offset⟩ ⟨bytes, offset + 1⟩
  /-- A `P` asks for no more than a byte if the byte says that there is no pointer. -/
  | omitted (bytes : List UInt8) (offset : Nat) :
      At target ⟨'P'.toUInt8, PointerEncoding.omitted, none⟩
        ⟨PointerEncoding.omitted :: bytes, offset⟩ ⟨bytes, offset + 1⟩
  /-- Otherwise a `P` asks for the pointer after the byte as well, in the encoding that the byte says. -/
  | personality {byte : UInt8} {bytes : List UInt8} {offset size : Nat} {encoding : PointerEncoding}
      {pointer : Pointer} :
      PointerEncoding.decode byte = .ok (some encoding) →
      encoding.resolve target.order (target.site (offset + 1) none) bytes = .ok (pointer, size) →
      At target ⟨'P'.toUInt8, byte, some pointer⟩ ⟨byte :: bytes, offset⟩
        ⟨bytes.drop size, offset + 1 + size⟩

/-- What is declared once a field has been read. -/
def declare (declared : Declared) (field : BlockField) : Declared :=
  if field.code = 'P'.toUInt8 then
    let met := { declared with features := { declared.features with personality := true } }
    match field.pointer with
    | some pointer =>
      { met with personalityEncoding := some field.byte, personality := some pointer }
    | none => met
  else if field.code = 'L'.toUInt8 then
    { declared with
      features := { declared.features with lsda := true }
      lsdaEncoding := Declared.declaredByte field.byte }
  else
    { declared with
      features := { declared.features with fdeEncoding := true }
      fdeEncoding := Declared.declaredByte field.byte }

end BlockField

/-- Fields one after the other, from the start of a window to where another one starts. -/
inductive FieldsAt (target : Target) : List BlockField → Window → Window → Prop
  | nil (window : Window) : FieldsAt target [] window window
  | cons {field : BlockField} {fields : List BlockField} {window next rest : Window} :
      field.At target window next → FieldsAt target fields next rest →
      FieldsAt target (field :: fields) window rest

/-- An encoded pointer is read where it can be resolved. -/
theorem Window.pointer_eq_ok_iff {window rest : Window} {target : Target} {encoding : PointerEncoding}
    {function : Option UInt64} {pointer : Pointer} :
    window.pointer target encoding function = .ok (pointer, rest) ↔
      ∃ size, encoding.resolve target.order (target.site window.offset function) window.bytes =
        .ok (pointer, size) ∧ rest = window.drop size := by
  unfold Window.pointer
  constructor
  · intro h
    split at h
    · next hresolve =>
        obtain ⟨rfl, rfl⟩ := Prod.mk.inj (Except.ok.inj h)
        exact ⟨_, hresolve, rfl⟩
    · cases h
    · cases h
  · rintro ⟨size, hresolve, rfl⟩
    simp [hresolve]

variable {target : Target} {declared : Declared} {block rest : Window} {field : BlockField}
  {fields : List BlockField} {code : UInt8} {codes : List UInt8}

namespace BlockField

theorem At.isField (h : field.At target block rest) : isField field.code := by
  cases h <;> rfl

/-- Where a field is, the reader finds its end. -/
theorem At.fieldEnd (h : field.At target block rest) :
    Declared.fieldEnd target field.code block = .ok rest := by
  cases h with
  | lsdaEncoding byte bytes offset => rfl
  | fdeEncoding byte bytes offset => rfl
  | omitted bytes offset => rfl
  | @personality byte bytes offset size encoding pointer hdecode hresolve =>
      have hpointer : (⟨bytes, offset + 1⟩ : Window).pointer target encoding none =
          .ok (pointer, ⟨bytes.drop size, offset + 1 + size⟩) :=
        Window.pointer_eq_ok_iff.mpr ⟨size, hresolve, rfl⟩
      simp [Declared.fieldEnd, Window.byte_cons, hdecode, hpointer, bind, Except.bind, pure,
        Except.pure]

/-- Where the reader finds the end of a field, the field is. -/
theorem exists_at_of_fieldEnd (hcode : AugmentationState.isField code)
    (h : Declared.fieldEnd target code block = .ok rest) :
    ∃ field : BlockField, field.code = code ∧ field.At target block rest := by
  obtain ⟨⟨byte, afterByte⟩, hbyte, h⟩ := Steps.bind_eq_ok.mp h
  obtain ⟨_ | ⟨first, bytes⟩, offset⟩ := block
  · cases hbyte
  rw [Window.byte_cons] at hbyte
  obtain ⟨rfl, rfl⟩ := Prod.mk.inj (Except.ok.inj hbyte)
  rcases isField_cases code with rfl | rfl | rfl | hno
  · obtain ⟨decoded, hdecode, h⟩ := Steps.bind_eq_ok.mp h
    cases decoded with
    | none =>
        obtain rfl := Steps.pure_eq_ok.mp h
        obtain rfl := PointerEncoding.omitted_of_decode hdecode
        exact ⟨_, rfl, .omitted bytes offset⟩
    | some encoding =>
        obtain ⟨⟨pointer, afterPointer⟩, hpointer, h⟩ := Steps.bind_eq_ok.mp h
        obtain rfl := Steps.pure_eq_ok.mp h
        obtain ⟨size, hresolve, rfl⟩ := Window.pointer_eq_ok_iff.mp hpointer
        exact ⟨_, rfl, .personality hdecode hresolve⟩
  · obtain rfl := Steps.pure_eq_ok.mp h
    exact ⟨_, rfl, .lsdaEncoding first bytes offset⟩
  · obtain rfl := Steps.pure_eq_ok.mp h
    exact ⟨_, rfl, .fdeEncoding first bytes offset⟩
  · simp [hno] at hcode

/-- A field cannot be read exactly where there is none. -/
theorem not_at_of_fieldEnd_error {fault : Fault}
    (h : Declared.fieldEnd target field.code block = .error fault) : ¬ field.At target block rest := by
  intro hat
  rw [hat.fieldEnd] at h
  cases h

/-- Reading a field declares what the field says. -/
theorem At.afterField (h : field.At target block rest) (declared : Declared) :
    Declared.afterField target field.code declared block = field.declare declared := by
  cases h with
  | lsdaEncoding byte bytes offset => rfl
  | fdeEncoding byte bytes offset => rfl
  | omitted bytes offset => rfl
  | @personality byte bytes offset size encoding pointer hdecode hresolve =>
      have hpointer : (⟨bytes, offset + 1⟩ : Window).pointer target encoding none =
          .ok (pointer, ⟨bytes.drop size, offset + 1 + size⟩) :=
        Window.pointer_eq_ok_iff.mpr ⟨size, hresolve, rfl⟩
      show (declared.readPersonality target ⟨byte :: bytes, offset⟩).1 = _
      simp [Declared.readPersonality, Window.byte_cons, hdecode, hpointer, declare]

end BlockField

/-! ## 2. A block -/

/-- How the reading of a block ends where some characters are left to follow and a window is left to read:
with what is declared by then and why it ended. -/
inductive EndsReading (target : Target) (declared : Declared) (rest : Window) :
    List UInt8 → Declared × BlockEnding → Prop
  /-- No character is left. -/
  | complete : EndsReading target declared rest [] (declared, .complete)
  /-- The next character is unknown. -/
  | unknown {code : UInt8} (codes : List UInt8) : isField code = false →
      EndsReading target declared rest (code :: codes) (declared.skip, .unknownCode code)
  /-- The field that the next character asks for cannot be read. -/
  | failed {code : UInt8} (codes : List UInt8) {fault : Fault} : isField code →
      Declared.fieldEnd target code rest = .error fault →
      EndsReading target declared rest (code :: codes)
        ((Declared.afterField target code declared rest).skip, .failed fault.withinBlock)

/-- A character that is left to follow asks for a field that is not there. -/
theorem EndsReading.not_at {result : Declared × BlockEnding} {after : Window}
    (h : EndsReading target declared rest codes result) (hcode : codes.head? = some code)
    (hfield : field.code = code) : ¬ field.At target rest after := by
  intro hat
  cases h with
  | complete => cases hcode
  | unknown codes hunknown =>
      obtain rfl := Option.some.inj hcode
      rw [← hfield, hat.isField] at hunknown
      cases hunknown
  | failed codes hasked hend =>
      obtain rfl := Option.some.inj hcode
      rw [← hfield] at hend
      exact BlockField.not_at_of_fieldEnd_error hend hat

/-- A block is read as fields from its start on, one for each character, until the reading ends. -/
theorem exists_reading (target : Target) (codes : List UInt8) (declared : Declared) (block : Window) :
    ∃ fields more rest, codes = fields.map BlockField.code ++ more ∧ FieldsAt target fields block rest ∧
      EndsReading target (fields.foldl BlockField.declare declared) rest more
        (Declared.readBlock target .fields codes declared block) := by
  -- On the string, as the reader goes: a field that is there changes what is declared and what is left.
  induction codes generalizing declared block with
  | nil => exact ⟨[], [], block, rfl, .nil block, .complete⟩
  | cons code codes ih =>
      by_cases hcode : isField code = true
      · cases hend : Declared.fieldEnd target code block with
        | error fault =>
            refine ⟨[], code :: codes, block, rfl, .nil block, ?_⟩
            simp only [Declared.readBlock_field hcode, hend]
            exact .failed codes hcode hend
        | ok next =>
            obtain ⟨field, rfl, hat⟩ := BlockField.exists_at_of_fieldEnd hcode hend
            obtain ⟨fields, more, rest, hcodes, hfields, hends⟩ := ih (field.declare declared) next
            refine ⟨field :: fields, more, rest, by simp [hcodes], .cons hat hfields, ?_⟩
            simp only [Declared.readBlock_field hcode, hend, hat.afterField]
            exact hends
      · have hunknown : isField code = false := by simpa using hcode
        refine ⟨[], code :: codes, block, rfl, .nil block, ?_⟩
        rw [Declared.readBlock_unknown hunknown]
        exact .unknown codes hunknown

theorem FieldsAt.isField (h : FieldsAt target fields block rest) :
    ∀ code ∈ fields.map BlockField.code, isField code := by
  induction h with
  | nil window => simp
  | cons hat _ ih =>
      intro code hcode
      rcases List.mem_cons.mp hcode with rfl | hcode
      · exact hat.isField
      · exact ih code hcode

/-- Fields stay in their block. -/
theorem FieldsAt.within (h : FieldsAt target fields block rest) : rest.Within block := by
  induction h with
  | nil window => exact .refl window
  | cons hat _ ih =>
      exact ih.trans ((Declared.fieldEnd_stays target _ _).1 _ hat.fieldEnd)

/-! ## 3. What the fields of a block declare -/

/-- The byte of the last field that a character has asked for. -/
def lastByte? (code : UInt8) (fields : List BlockField) : Option UInt8 :=
  (fields.reverse.find? (·.code == code)).map BlockField.byte

theorem lastByte?_cons (code : UInt8) (field : BlockField) (fields : List BlockField) :
    lastByte? code (field :: fields) =
      (lastByte? code fields).or (if field.code = code then some field.byte else none) := by
  unfold lastByte?
  rw [List.reverse_cons, List.find?_append, Option.map_or]
  by_cases h : field.code = code <;> simp [h]

/-- Of the fields that declare one and the same thing, the last one counts. -/
theorem FieldsAt.last_counts (h : FieldsAt target fields block rest) (code : UInt8)
    (declares : Declared → Option UInt8)
    (hstep : ∀ (field : BlockField) (window next : Window), field.At target window next →
      ∀ declared, declares (field.declare declared) =
        if field.code = code then Declared.declaredByte field.byte else declares declared)
    (declared : Declared) :
    declares (fields.foldl BlockField.declare declared) =
      (lastByte? code fields).elim (declares declared) Declared.declaredByte := by
  induction h generalizing declared with
  | nil window => rfl
  | @cons field fields window next rest hat _ ih =>
      rw [List.foldl_cons, ih, hstep field window next hat, lastByte?_cons]
      cases lastByte? code fields with
      | some byte => rfl
      | none => by_cases hcode : field.code = code <;> simp [hcode]

/-- The last `L` of a block counts. -/
theorem FieldsAt.lsdaEncoding (h : FieldsAt target fields block rest) (declared : Declared) :
    (fields.foldl BlockField.declare declared).lsdaEncoding =
      (lastByte? 'L'.toUInt8 fields).elim declared.lsdaEncoding Declared.declaredByte := by
  refine h.last_counts 'L'.toUInt8 Declared.lsdaEncoding ?_ declared
  intro field window next hat declared
  cases hat <;> rfl

/-- The last `R` of a block counts. -/
theorem FieldsAt.fdeEncoding (h : FieldsAt target fields block rest) (declared : Declared) :
    (fields.foldl BlockField.declare declared).fdeEncoding =
      (lastByte? 'R'.toUInt8 fields).elim declared.fdeEncoding Declared.declaredByte := by
  refine h.last_counts 'R'.toUInt8 Declared.fdeEncoding ?_ declared
  intro field window next hat declared
  cases hat <;> rfl

/-- The pointer of the last field that has one, with its encoding. -/
def lastPointer? (fields : List BlockField) : Option (UInt8 × Pointer) :=
  fields.reverse.findSome? fun field => field.pointer.map fun pointer => (field.byte, pointer)

theorem lastPointer?_cons (field : BlockField) (fields : List BlockField) :
    lastPointer? (field :: fields) =
      (lastPointer? fields).or (field.pointer.map fun pointer => (field.byte, pointer)) := by
  unfold lastPointer?
  rw [List.reverse_cons, List.findSome?_append, List.findSome?_singleton]

/-- The last pointer of a block counts, together with its encoding. -/
theorem FieldsAt.personality (h : FieldsAt target fields block rest) (declared : Declared) :
    (fields.foldl BlockField.declare declared).personalityEncoding =
        ((lastPointer? fields).map Prod.fst).or declared.personalityEncoding ∧
      (fields.foldl BlockField.declare declared).personality =
        ((lastPointer? fields).map Prod.snd).or declared.personality := by
  -- A field with a pointer declares both of its parts at once, so one argument does for the two.
  induction h generalizing declared with
  | nil window => simp [lastPointer?]
  | @cons field fields window next rest hat _ ih =>
      obtain ⟨hencoding, hpointer⟩ := ih (field.declare declared)
      rw [List.foldl_cons, hencoding, hpointer, lastPointer?_cons]
      cases lastPointer? fields with
      | some last => simp
      | none => cases hat <;> exact ⟨rfl, rfl⟩

/-! ## 4. A field that cannot be read -/

/-- The byte of a `P` field whose pointer cannot be resolved, where the characters `codes` are left to
follow and a window is left to read. -/
def halfByte? (target : Target) (codes : List UInt8) (window : Window) : Option UInt8 :=
  match codes, window.bytes with
  | code :: _, byte :: bytes =>
    if code = 'P'.toUInt8 then
      match PointerEncoding.decode byte with
      | .ok (some encoding) =>
        match encoding.resolve target.order (target.site (window.offset + 1) none) bytes with
        | .ok _ => none
        | .error _ => some byte
      | _ => none
    else none
  | _, _ => none

theorem halfByte?_of_ne (h : code ≠ 'P'.toUInt8) (codes : List UInt8) (window : Window) :
    halfByte? target (code :: codes) window = none := by
  unfold halfByte?
  cases window.bytes <;> simp [h]

/-- Such a field is a `P`, a byte that stands for an encoding, and bytes that do not hold a pointer in it. -/
theorem halfByte?_eq_some_iff {byte : UInt8} :
    halfByte? target codes block = some byte ↔
      ∃ more bytes encoding fault, codes = 'P'.toUInt8 :: more ∧ block.bytes = byte :: bytes ∧
        PointerEncoding.decode byte = .ok (some encoding) ∧
        encoding.resolve target.order (target.site (block.offset + 1) none) bytes = .error fault := by
  obtain ⟨window, offset⟩ := block
  constructor
  · intro h
    unfold halfByte? at h
    split at h
    · next code more first bytes hbytes =>
        split at h
        · next hcode =>
            split at h
            · next encoding hdecode =>
                split at h
                · cases h
                · next fault hresolve =>
                    obtain rfl := Option.some.inj h
                    exact ⟨more, bytes, encoding, fault, by rw [hcode], hbytes, hdecode, hresolve⟩
            · cases h
        · cases h
    · cases h
  · rintro ⟨more, bytes, encoding, fault, rfl, hbytes, hdecode, hresolve⟩
    simp only at hbytes hresolve
    simp [halfByte?, hbytes, hdecode, hresolve]

/-- A pointer that cannot be read cannot be resolved. -/
theorem Window.exists_fault_of_pointer {window : Window} {encoding : PointerEncoding} {fault : Fault}
    (h : window.pointer target encoding none = .error fault) :
    ∃ reason, encoding.resolve target.order (target.site window.offset none) window.bytes =
      .error reason := by
  cases hresolve : encoding.resolve target.order (target.site window.offset none) window.bytes with
  | error reason => exact ⟨reason, rfl⟩
  | ok resolved =>
      rw [Window.pointer_eq_ok_iff.mpr ⟨resolved.2, hresolve, rfl⟩] at h
      cases h

/-- A `P` field that cannot be read declares its encoding if it is the pointer that is missing. -/
theorem afterField_P_of_error {fault : Fault}
    (h : Declared.fieldEnd target 'P'.toUInt8 block = .error fault) (codes : List UInt8)
    (declared : Declared) :
    Declared.afterField target 'P'.toUInt8 declared block =
      { declared with
        features := { declared.features with personality := true }
        personalityEncoding :=
          (halfByte? target ('P'.toUInt8 :: codes) block).or declared.personalityEncoding } := by
  rw [← Declared.readPersonality_end target declared] at h
  show (declared.readPersonality target block).1 = _
  -- Three ways to fail: no byte, a byte that stands for nothing, and a pointer that cannot be read.
  obtain ⟨_ | ⟨byte, bytes⟩, offset⟩ := block
  · rfl
  simp only [Declared.readPersonality, Window.byte_cons] at h ⊢
  cases hdecode : PointerEncoding.decode byte with
  | error reason => simp [halfByte?, hdecode]
  | ok decoded =>
      cases decoded with
      | none => simp [hdecode] at h
      | some encoding =>
          simp only [hdecode] at h ⊢
          cases hpointer : (⟨bytes, offset + 1⟩ : Window).pointer target encoding none with
          | ok read => simp [hpointer] at h
          | error reason =>
              obtain ⟨reason', hresolve⟩ := Window.exists_fault_of_pointer hpointer
              simp only at hresolve
              simp [halfByte?, hdecode, hresolve]

theorem afterField_L_of_error {fault : Fault}
    (h : Declared.fieldEnd target 'L'.toUInt8 block = .error fault) (declared : Declared) :
    Declared.afterField target 'L'.toUInt8 declared block =
      { declared with features := { declared.features with lsda := true } } := by
  obtain ⟨_ | ⟨byte, bytes⟩, offset⟩ := block
  · rfl
  · cases h

theorem afterField_R_of_error {fault : Fault}
    (h : Declared.fieldEnd target 'R'.toUInt8 block = .error fault) (declared : Declared) :
    Declared.afterField target 'R'.toUInt8 declared block =
      { declared with features := { declared.features with fdeEncoding := true } } := by
  obtain ⟨_ | ⟨byte, bytes⟩, offset⟩ := block
  · rfl
  · cases h

/-- Where the reading of a block ends, nothing is declared any more but the encoding of a routine whose
pointer is missing. -/
theorem EndsReading.keeps {result : Declared × BlockEnding}
    (h : EndsReading target declared rest codes result) :
    result.1.fdeEncoding = declared.fdeEncoding ∧ result.1.lsdaEncoding = declared.lsdaEncoding ∧
      result.1.personality = declared.personality ∧
      result.1.personalityEncoding =
        (halfByte? target codes rest).or declared.personalityEncoding := by
  cases h with
  | complete => exact ⟨rfl, rfl, rfl, rfl⟩
  | @unknown code codes hunknown =>
      have hne : code ≠ 'P'.toUInt8 := by
        rintro rfl
        cases hunknown
      rw [halfByte?_of_ne hne]
      exact ⟨rfl, rfl, rfl, rfl⟩
  | @failed code codes fault hcode hend =>
      rcases isField_cases code with rfl | rfl | rfl | hno
      · rw [afterField_P_of_error hend codes]
        exact ⟨rfl, rfl, rfl, rfl⟩
      · rw [afterField_L_of_error hend, halfByte?_of_ne (by decide)]
        exact ⟨rfl, rfl, rfl, rfl⟩
      · rw [afterField_R_of_error hend, halfByte?_of_ne (by decide)]
        exact ⟨rfl, rfl, rfl, rfl⟩
      · simp [hno] at hcode

end UnwindTables
