/-
UnwindTables.Proofs.Blueprint.ReadBackTheorems — a record that was written is read back.

The reader follows an augmentation string, the writer follows it, and so does the layout that FDEs
are written in. Here the first two are compared, for one CIE: whatever the string is, the reader
finds each field where the writer has put it.

## How the proof goes

1. A record with its length in front is framed as it was written (`Record.read_framed`).
2. `CieBlueprint.DeclaredAs` says what a reader has to find after some characters of the string, in
   terms of the blueprint alone. `declaredAs_field` is the step for one character and
   `readBlock_writeFields` the induction over the string; it ends at the first unknown character, in
   the reader and in the writer alike.
3. The fields in front of the block are read one after the other, and the block starts where the
   writer has put it, so pointers that are relative to their own place resolve to what they were
   stored for (`CieBlueprint.read_write`).
-/
import UnwindTables.Proofs.Augmentation.BlockTheorems
import UnwindTables.Proofs.Blueprint.EmissionTheorems
import UnwindTables.Proofs.Bytes.ReadBackTheorems
import UnwindTables.Proofs.Bytes.WordTheorems
import UnwindTables.Proofs.Record.ContentTheorems
import UnwindTables.Proofs.Record.FormatTheorems
import UnwindTables.Proofs.Text.Utf8Theorems

namespace UnwindTables

/-! ## 1. The framing of a record -/

namespace Record

variable (order : ByteOrder) (rest : List UInt8) (offset : Nat)

/-- A record is framed as it was written. -/
theorem read_framed {format : RecordFormat} {id : Nat} {kind : RecordKind} {body : List UInt8}
    (hfits : (order.bytes 4 id ++ body).length < format.limit) (hid : id < capacity 4)
    (hkind : kindOf id (offset + format.lengthSize) = some kind) :
    read order ⟨format.lengthField order (order.bytes 4 id ++ body).length ++
        (order.bytes 4 id ++ body) ++ rest, offset⟩ =
      .ok (some (⟨offset, format, (order.bytes 4 id ++ body).length, kind,
        ⟨body, offset + format.lengthSize + 4⟩⟩, ⟨rest, offset +
          (format.lengthField order (order.bytes 4 id ++ body).length ++
            (order.bytes 4 id ++ body)).length⟩)) := by
  have hlength : (order.bytes 4 id ++ body).length = 4 + body.length := by
    rw [List.length_append, ByteOrder.length_bytes]
  have hframed : (⟨offset, format, (order.bytes 4 id ++ body).length, kind,
      ⟨body, offset + format.lengthSize + 4⟩⟩ : Record).Framed := by
    refine ⟨rfl, ?_, ?_⟩ <;> simp only [hlength, Window.stop, Window.size, stop] <;> omega
  obtain ⟨hstorable, hfield⟩ := storable_of_kindOf hframed hfits hid hkind
  have hread := read_write hstorable order rest
  have hstop := hstorable.length_write order
  simp only [write, hfield, List.append_assoc] at hread hstop
  rw [List.append_assoc, List.append_assoc, hread, ← hstop]

end Record

/-! ## 2. The augmentation block -/

namespace CieBlueprint

open AugmentationState (isField isField_cases askedFields)

variable {target : Target} {cie : CieBlueprint} {declared : Declared}

/-- What a string that asks for the fields `asked` declares about the addresses of functions. -/
def fdeDeclared (cie : CieBlueprint) (asked : List UInt8) : Option UInt8 :=
  if 'R'.toUInt8 ∈ asked then
    Declared.declaredByte (cie.fdeEncoding.getD PointerEncoding.plain.bits)
  else
    none

/-- What it declares about pointers to language-specific data. -/
def lsdaDeclared (cie : CieBlueprint) (asked : List UInt8) : Option UInt8 :=
  if 'L'.toUInt8 ∈ asked then cie.lsdaEncoding.bind Declared.declaredByte else none

/-- The personality routine that it declares, if it is not omitted. -/
def personalityDeclared (cie : CieBlueprint) (asked : List UInt8) : Option (UInt8 × UInt64) :=
  if 'P'.toUInt8 ∈ asked then
    cie.personality.filter fun personality => personality.1 != PointerEncoding.omitted
  else
    none

/-- The declarations are those of the blueprint, as far as the fields `asked` go. -/
structure DeclaredAs (target : Target) (cie : CieBlueprint) (asked : List UInt8)
    (declared : Declared) : Prop where
  fdeEncoding : declared.fdeEncoding = cie.fdeDeclared asked
  lsdaEncoding : declared.lsdaEncoding = cie.lsdaDeclared asked
  personalityEncoding : declared.personalityEncoding = (cie.personalityDeclared asked).map Prod.fst
  personality : declared.personality.map (fun pointer => (pointer.address, pointer.indirect)) =
    (cie.personalityDeclared asked).map fun personality =>
      (target.addressSize.truncate personality.2,
        personality.1 &&& PointerEncoding.indirectBit != 0)

theorem declaredAs_nothing (target : Target) (cie : CieBlueprint) (features : Features) :
    cie.DeclaredAs target [] (.nothing features) :=
  ⟨rfl, rfl, rfl, rfl⟩

/-- The bytes of the field that a character asks for. -/
def writeField (target : Target) (cie : CieBlueprint) (code : UInt8) (offset : Nat) :
    Except WriteFault (List UInt8) :=
  if code = 'P'.toUInt8 then cie.writePersonality target offset
  else if code = 'L'.toUInt8 then .ok [cie.lsdaEncoding.getD PointerEncoding.omitted]
  else .ok [cie.fdeEncoding.getD PointerEncoding.plain.bits]

theorem writeFields_field {code : UInt8} (hcode : isField code) {codes : List UInt8}
    {offset : Nat} {data : List UInt8}
    (h : cie.writeFields target (code :: codes) offset = .ok data) :
    ∃ field more, cie.writeField target code offset = .ok field ∧
      cie.writeFields target codes (offset + field.length) = .ok more ∧ data = field ++ more := by
  rcases isField_cases code with rfl | rfl | rfl | hno
  · rw [writeFields_P] at h
    obtain ⟨field, hfield, h⟩ := Steps.bind_eq_ok.mp h
    obtain ⟨more, hmore, h⟩ := Steps.bind_eq_ok.mp h
    exact ⟨field, more, hfield, hmore, (Steps.pure_eq_ok.mp h).symm⟩
  · rw [writeFields_L] at h
    obtain ⟨more, hmore, h⟩ := Steps.bind_eq_ok.mp h
    exact ⟨_, more, rfl, hmore, (Steps.pure_eq_ok.mp h).symm⟩
  · rw [writeFields_R] at h
    obtain ⟨more, hmore, h⟩ := Steps.bind_eq_ok.mp h
    exact ⟨_, more, rfl, hmore, (Steps.pure_eq_ok.mp h).symm⟩
  · simp [hno] at hcode

/-! What one more field adds to what was asked for. -/

theorem fdeDeclared_append {code : UInt8} (h : code ≠ 'R'.toUInt8) (asked : List UInt8) :
    cie.fdeDeclared (asked ++ [code]) = cie.fdeDeclared asked := by
  simp [fdeDeclared, Ne.symm h]

theorem lsdaDeclared_append {code : UInt8} (h : code ≠ 'L'.toUInt8) (asked : List UInt8) :
    cie.lsdaDeclared (asked ++ [code]) = cie.lsdaDeclared asked := by
  simp [lsdaDeclared, Ne.symm h]

theorem personalityDeclared_append {code : UInt8} (h : code ≠ 'P'.toUInt8) (asked : List UInt8) :
    cie.personalityDeclared (asked ++ [code]) = cie.personalityDeclared asked := by
  simp [personalityDeclared, Ne.symm h]

theorem fdeDeclared_R (asked : List UInt8) :
    cie.fdeDeclared (asked ++ ['R'.toUInt8]) =
      Declared.declaredByte (cie.fdeEncoding.getD PointerEncoding.plain.bits) := by
  simp [fdeDeclared]

/-- An encoding that was not set is written as an omitted one. -/
theorem lsdaDeclared_L (asked : List UInt8) :
    cie.lsdaDeclared (asked ++ ['L'.toUInt8]) =
      Declared.declaredByte (cie.lsdaEncoding.getD PointerEncoding.omitted) := by
  cases h : cie.lsdaEncoding <;> simp [lsdaDeclared, h, Declared.declaredByte]

theorem personalityDeclared_omitted {address : UInt64}
    (h : cie.personality.getD (PointerEncoding.omitted, 0) = (PointerEncoding.omitted, address))
    (asked : List UInt8) : cie.personalityDeclared asked = none := by
  unfold personalityDeclared
  split
  · cases hset : cie.personality with
    | none => rfl
    | some personality =>
        rw [hset] at h
        obtain rfl : personality = (PointerEncoding.omitted, address) := h
        rfl
  · rfl

theorem personalityDeclared_P {byte : UInt8} {address : UInt64}
    (h : cie.personality.getD (PointerEncoding.omitted, 0) = (byte, address))
    (hne : byte ≠ PointerEncoding.omitted) (asked : List UInt8) :
    cie.personalityDeclared (asked ++ ['P'.toUInt8]) = some (byte, address) := by
  unfold personalityDeclared
  rw [if_pos (by simp)]
  cases hset : cie.personality with
  | none =>
      rw [hset] at h
      exact absurd (Prod.mk.inj h).1.symm hne
  | some personality =>
      rw [hset] at h
      obtain rfl : personality = (byte, address) := h
      simp [hne]

/-- The field of the personality routine is read to its end, and declares the routine. -/
theorem readPersonality_written {asked : List UInt8} (h : cie.DeclaredAs target asked declared)
    {offset : Nat} {field : List UInt8} (hfield : cie.writePersonality target offset = .ok field)
    (rest : List UInt8) :
    ∃ after, declared.readPersonality target ⟨field ++ rest, offset⟩ =
        (after, .ok ⟨rest, offset + field.length⟩) ∧
      cie.DeclaredAs target (asked ++ ['P'.toUInt8]) after := by
  have hfde : cie.fdeDeclared (asked ++ ['P'.toUInt8]) = cie.fdeDeclared asked :=
    fdeDeclared_append (by decide) asked
  have hlsda : cie.lsdaDeclared (asked ++ ['P'.toUInt8]) = cie.lsdaDeclared asked :=
    lsdaDeclared_append (by decide) asked
  obtain ⟨byte, address, hset, ⟨hdecode, rfl⟩ | ⟨encoding, stored, hdecode, hstore, rfl⟩⟩ :=
    writePersonality_eq_ok_iff.mp hfield
  · obtain rfl := PointerEncoding.omitted_of_decode hdecode
    have hnone := personalityDeclared_omitted hset
    refine ⟨{ declared with features := { declared.features with personality := true } }, ?_, ?_⟩
    · simp only [Declared.readPersonality, List.cons_append, Window.byte_cons, hdecode]
      rfl
    · refine ⟨h.fdeEncoding.trans hfde.symm, h.lsdaEncoding.trans hlsda.symm, ?_, ?_⟩
      · rw [hnone, ← hnone asked]
        exact h.personalityEncoding
      · rw [hnone, ← hnone asked]
        exact h.personality
  · obtain ⟨hne, hindirect⟩ := PointerEncoding.indirect_of_decode hdecode
    obtain ⟨raw, hpointer⟩ := Window.pointer_store rest (offset + 1) hstore
    refine ⟨{ declared with
      features := { declared.features with personality := true }
      personalityEncoding := some byte
      personality := some ⟨target.addressSize.truncate address, raw, encoding.indirect⟩ }, ?_, ?_⟩
    · simp only [Declared.readPersonality, List.cons_append, Window.byte_cons, hdecode, hpointer,
        List.length_cons, Nat.add_assoc, Nat.add_comm 1]
    · refine ⟨h.fdeEncoding.trans hfde.symm, h.lsdaEncoding.trans hlsda.symm, ?_, ?_⟩
      · rw [personalityDeclared_P hset hne]
        rfl
      · rw [personalityDeclared_P hset hne, Option.map_some, Option.map_some, hindirect]

/-- A field that was written is read to its end, and declares what it was written for. -/
theorem readField_written {asked : List UInt8} (h : cie.DeclaredAs target asked declared)
    {code : UInt8} (hcode : isField code) {offset : Nat} {field : List UInt8}
    (hfield : cie.writeField target code offset = .ok field) (rest : List UInt8) :
    Declared.fieldEnd target code ⟨field ++ rest, offset⟩ = .ok ⟨rest, offset + field.length⟩ ∧
      cie.DeclaredAs target (asked ++ [code])
        (Declared.afterField target code declared ⟨field ++ rest, offset⟩) := by
  rw [← Declared.readField_end target hcode declared]
  rcases isField_cases code with rfl | rfl | rfl | hno
  · obtain ⟨after, hread, hafter⟩ := readPersonality_written h hfield rest
    refine ⟨congrArg Prod.snd hread, ?_⟩
    show cie.DeclaredAs target _ (declared.readPersonality target ⟨field ++ rest, offset⟩).1
    rw [hread]
    exact hafter
  · obtain rfl := Except.ok.inj hfield
    refine ⟨rfl, ?_, ?_, ?_, ?_⟩
    · rw [fdeDeclared_append (by decide)]
      exact h.fdeEncoding
    · rw [lsdaDeclared_L]
      rfl
    · rw [personalityDeclared_append (by decide)]
      exact h.personalityEncoding
    · rw [personalityDeclared_append (by decide)]
      exact h.personality
  · obtain rfl := Except.ok.inj hfield
    refine ⟨rfl, ?_, ?_, ?_, ?_⟩
    · rw [fdeDeclared_R]
      rfl
    · rw [lsdaDeclared_append (by decide)]
      exact h.lsdaEncoding
    · rw [personalityDeclared_append (by decide)]
      exact h.personalityEncoding
    · rw [personalityDeclared_append (by decide)]
      exact h.personality
  · simp [hno] at hcode

/-- What is skipped declares nothing more. -/
theorem DeclaredAs.skip {asked : List UInt8} (h : cie.DeclaredAs target asked declared) :
    cie.DeclaredAs target asked declared.skip :=
  ⟨h.fdeEncoding, h.lsdaEncoding, h.personalityEncoding, h.personality⟩

/-- The fields of a block that was written are found where they were put. -/
theorem readBlock_writeFields {asked : List UInt8} (h : cie.DeclaredAs target asked declared)
    {codes : List UInt8} {offset : Nat} {data : List UInt8}
    (hdata : cie.writeFields target codes offset = .ok data) :
    cie.DeclaredAs target (asked ++ codes.takeWhile isField)
      (Declared.readBlock target .fields codes declared ⟨data, offset⟩).1 := by
  induction codes generalizing asked declared offset data with
  | nil => simpa [Declared.readBlock] using h
  | cons code codes ih =>
      by_cases hcode : isField code = true
      · obtain ⟨field, more, hfield, hmore, rfl⟩ := writeFields_field hcode hdata
        obtain ⟨hend, hafter⟩ := readField_written h hcode hfield more
        rw [Declared.readBlock_field hcode, hend, List.takeWhile_cons_of_pos hcode]
        simpa using ih hafter hmore
      · rw [Declared.readBlock_unknown (by simpa using hcode), List.takeWhile_cons_of_neg hcode,
          List.append_nil]
        exact h.skip

/-- The same for a whole block with its length in front, and for a string that asks for none. -/
theorem read_writeAugmentationData {offset : Nat} {data : List UInt8}
    (hdata : cie.writeAugmentationData target offset = .ok data) (hfits : data.length < capacity 8)
    (rest : List UInt8) :
    cie.DeclaredAs target (askedFields cie.codes)
      (Declared.read target cie.codes ⟨data ++ rest, offset⟩).1 := by
  cases hcodes : cie.codes with
  | nil => exact declaredAs_nothing target cie _
  | cons code codes =>
      by_cases hz : code = 'z'.toUInt8
      · subst hz
        rw [writeAugmentationData_z hcodes] at hdata
        obtain ⟨block, hblock, rfl⟩ := settleBlock_eq_ok hdata
        have hshort : block.length < capacity 8 := by
          rw [List.length_append] at hfits
          omega
        simp only [Declared.read, AugmentationState.transition_z,
          Window.block_ofNat rest offset hshort]
        rw [askedFields, if_pos rfl]
        exact readBlock_writeFields (declaredAs_nothing target cie _) hblock
      · simp only [Declared.read, AugmentationState.transition_not_z hz]
        rw [askedFields, if_neg hz]
        exact declaredAs_nothing target cie _

/-! ## 3. A CIE -/

/-- A CIE is what was written for the blueprint at a section offset. -/
structure ReadsBackAs (target : Target) (cie : CieBlueprint) (offset : Nat) (parsed : Cie) :
    Prop where
  offset : parsed.offset = offset
  format : parsed.format = cie.format
  version : parsed.version.number = cie.version
  augmentation : parsed.augmentation = cie.codes
  augmentationText : ∀ text : String, cie.codes = text.toUTF8.data.toList →
    parsed.augmentationText = text
  codeAlignment : parsed.codeAlignment = cie.codeAlignment
  dataAlignment : parsed.dataAlignment = cie.dataAlignment
  returnAddressRegister : parsed.returnAddressRegister = cie.returnAddressRegister
  declared : cie.DeclaredAs target (askedFields cie.codes) parsed.declared

/-- The register is read back in the versions that a reader knows. -/
theorem readRegister_written {version : CieVersion} (hversion : version.number = cie.version)
    {register : List UInt8} (h : cie.writeRegister = .ok register) (rest : List UInt8)
    (offset : Nat) :
    Cie.readRegister version ⟨register ++ rest, offset⟩ =
      .ok (cie.returnAddressRegister, ⟨rest, offset + register.length⟩) := by
  unfold writeRegister at h
  rw [← hversion] at h
  cases version with
  | one =>
      rw [if_pos (by decide)] at h
      split at h
      · next hsmall =>
          obtain rfl := Except.ok.inj h
          have hback : cie.returnAddressRegister.toUInt8.toUInt64 = cie.returnAddressRegister := by
            apply UInt64.toNat_inj.mp
            rw [UInt8.toNat_toUInt64, UInt64.toNat_toUInt8]
            omega
          show Except.ok (cie.returnAddressRegister.toUInt8.toUInt64, _) = _
          rw [hback]
          rfl
      · simp at h
  | three =>
      rw [if_neg (by decide)] at h
      obtain rfl := Except.ok.inj h
      exact Window.unsigned_writeUnsigned rest offset _

/-! The record of a CIE, field by field, as the reader takes it apart. -/

/-- What follows the id, where `tail` follows the augmentation data. -/
def body (cie : CieBlueprint) (register data tail : List UInt8) : List UInt8 :=
  cie.version :: (cie.codes ++ 0 :: (Leb128.writeUnsigned cie.codeAlignment ++
    (Leb128.writeSigned cie.dataAlignment ++ (register ++ (data ++ tail)))))

/-- The record at a section offset as it is framed. -/
def framed (target : Target) (cie : CieBlueprint) (offset : Nat) (register data tail : List UInt8) :
    Record where
  offset
  format := cie.format
  length := (target.order.bytes 4 0 ++ cie.body register data tail).length
  kind := .cie
  body := ⟨cie.body register data tail, offset + cie.format.lengthSize + 4⟩

/-- The section offset of the augmentation data, where the body starts at `start`. -/
def dataOffset (cie : CieBlueprint) (register : List UInt8) (start : Nat) : Nat :=
  start + 1 + (cie.codes.length + 1) + (Leb128.writeUnsigned cie.codeAlignment).length +
    (Leb128.writeSigned cie.dataAlignment).length + register.length

/-- The CIE that is read from a record that was written. -/
def readBack (cie : CieBlueprint) (version : CieVersion) (record : Record) (declared : Declared)
    (rest : Window) : Cie where
  offset := record.offset
  format := record.format
  length := record.length
  version
  augmentation := cie.codes
  codeAlignment := cie.codeAlignment
  dataAlignment := cie.dataAlignment
  returnAddressRegister := cie.returnAddressRegister
  declared
  instructions := ⟨rest.offset, record.stop⟩

theorem exists_body_of_write {offset : Nat} {record : List UInt8}
    (h : cie.write target offset = .ok record)
    (hkeeps : PaddingKeeps cie.padding cie.instructions) :
    ∃ register data tail, cie.writeRegister = .ok register ∧
      cie.writeAugmentationData target
        (cie.dataOffset register (offset + cie.format.lengthSize + 4)) = .ok data ∧
      (target.order.bytes 4 0 ++ cie.body register data tail).length < cie.format.limit ∧
      record = cie.format.lengthField target.order
        (target.order.bytes 4 0 ++ cie.body register data tail).length ++
          (target.order.bytes 4 0 ++ cie.body register data tail) := by
  obtain ⟨head, data, hhead, hdata, hrecord⟩ := write_eq_ok_iff.mp h
  obtain ⟨register, hregister, rfl⟩ := writeHead_eq_ok_iff.mp hhead
  obtain ⟨tail, hfits, rfl⟩ := writeRecord_keeps hrecord hkeeps
  have hoffset : cie.dataOffset register (offset + cie.format.lengthSize + 4) =
      offset + cie.format.lengthSize + (target.order.bytes 4 0 ++ [cie.version] ++ cie.codes ++
        [0] ++ Leb128.writeUnsigned cie.codeAlignment ++ Leb128.writeSigned cie.dataAlignment ++
        register).length := by
    simp only [dataOffset, List.length_append, ByteOrder.length_bytes, List.length_singleton]
    omega
  have hbody : target.order.bytes 4 0 ++ [cie.version] ++ cie.codes ++ [0] ++
      Leb128.writeUnsigned cie.codeAlignment ++ Leb128.writeSigned cie.dataAlignment ++ register ++
        data ++ tail = target.order.bytes 4 0 ++ cie.body register data tail := by
    simp [body]
  rw [hbody] at hfits ⊢
  exact ⟨register, data, tail, hregister, hoffset ▸ hdata, hfits, rfl⟩

theorem headIn_written {version : CieVersion} (hversion : version.number = cie.version)
    (hcodes : 0 ∉ cie.codes) {register : List UInt8} (hregister : cie.writeRegister = .ok register)
    (data tail : List UInt8) {record : Record} {start : Nat}
    (hbody : record.body = ⟨cie.body register data tail, start⟩) (declared : Declared)
    (rest : Window) :
    (cie.readBack version record declared rest).HeadIn record
      ⟨data ++ tail, cie.dataOffset register start⟩ := by
  refine ⟨_, _, _, _, ?_, Window.text_append _ _ hcodes, Window.unsigned_writeUnsigned _ _ _,
    Window.signed_writeSigned _ _ _, readRegister_written hversion hregister _ _⟩
  rw [hbody, readBack, hversion]
  exact Window.byte_cons _ start cie.version

/-- **A CIE that was written is read back**, whatever follows it. -/
theorem read_write {offset : Nat} {record : List UInt8}
    (h : cie.write target offset = .ok record) (hversion : cie.version = 1 ∨ cie.version = 3)
    (hcodes : 0 ∉ cie.codes) (hkeeps : PaddingKeeps cie.padding cie.instructions)
    (rest : List UInt8) :
    ∃ framed parsed ending,
      Record.read target.order ⟨record ++ rest, offset⟩ =
          .ok (some (framed, ⟨rest, offset + record.length⟩)) ∧
        framed.kind = .cie ∧ Cie.read target framed = .ok (parsed, ending) ∧
        cie.ReadsBackAs target offset parsed := by
  obtain ⟨register, data, tail, hregister, hdata, hfits, rfl⟩ := exists_body_of_write h hkeeps
  obtain ⟨version, hnumber⟩ : ∃ version : CieVersion, version.number = cie.version := by
    rcases hversion with hone | hthree
    · exact ⟨.one, hone.symm⟩
    · exact ⟨.three, hthree.symm⟩
  have hshort : data.length < capacity 8 := by
    have hlimit : cie.format.limit ≤ capacity 8 := by
      cases cie.format <;> decide
    have hless : data.length ≤ (target.order.bytes 4 0 ++ cie.body register data tail).length := by
      simp only [body, List.length_append, List.length_cons]
      omega
    omega
  have hdeclared := read_writeAugmentationData hdata hshort tail
  rcases hread : Declared.read target cie.codes ⟨data ++ tail,
    cie.dataOffset register (offset + cie.format.lengthSize + 4)⟩ with ⟨declared, ending, after⟩
  rw [hread] at hdeclared
  refine ⟨cie.framed target offset register data tail,
    cie.readBack version (cie.framed target offset register data tail) declared after, ending, ?_,
    rfl, ?_, ?_⟩
  · exact Record.read_framed target.order rest offset hfits (by decide) rfl
  · exact Cie.read_eq_ok_iff.mpr ⟨_, after,
      headIn_written hnumber hcodes hregister data tail rfl declared after, hread, rfl, rfl, rfl, rfl⟩
  · refine ⟨rfl, rfl, hnumber, rfl, ?_, rfl, rfl, rfl, hdeclared⟩
    intro text htext
    show Utf8.decodeLossy cie.codes = text
    rw [htext, Utf8.decodeLossy_toUTF8]

end CieBlueprint

end UnwindTables
