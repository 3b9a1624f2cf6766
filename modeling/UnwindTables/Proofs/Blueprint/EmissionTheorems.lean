/-
UnwindTables.Proofs.Blueprint.EmissionTheorems — what a successful write is made of.

Each writer is a sequence of steps that may fail. The lemmas here say once, for each of them, that
it succeeds exactly when its steps do and what its bytes are then; the proofs about what is written
start from these and do not open the writers again.
-/
import UnwindTables.Blueprint.Emission
import UnwindTables.Proofs.Augmentation.CodeTheorems

namespace UnwindTables

/-! ## 1. Records and blocks -/

/-- Resizing to no less than some bytes leaves them as they are. -/
theorem resize_append {front : List UInt8} {length : Nat} (h : front.length ≤ length)
    (bytes : List UInt8) :
    resize (front ++ bytes) length = front ++ resize bytes (length - front.length) := by
  rw [resize, resize, List.take_append, List.take_of_length_le h, List.length_append,
    Nat.sub_add_eq, List.append_assoc]

theorem length_resize (bytes : List UInt8) (length : Nat) : (resize bytes length).length = length := by
  rw [resize, List.length_append, List.length_take, List.length_replicate]
  omega

/-- A record that was written has some length, and its content is resized to it. The section offset
after it is the sum of words that is resized to, and the section is short of what memory holds. -/
theorem writeRecord_eq_ok {order : ByteOrder} {format : RecordFormat} {offset : Nat}
    {content record : List UInt8} {padding : UInt64}
    (h : writeRecord order format offset content padding = .ok record) :
    ∃ length, offset + format.lengthSize + length =
        (UInt64.ofNat (offset + format.lengthSize + content.length) + padding).toNat ∧
      offset + format.lengthSize + content.length < memoryLimit ∧
      offset + format.lengthSize + length < memoryLimit ∧ length < format.limit ∧
      record = format.lengthField order length ++ resize content length := by
  unfold writeRecord at h
  simp only at h
  split at h
  · cases h
  · next hmemory =>
      split at h
      · cases format <;> cases h
      · split at h
        · cases h
        · exact ⟨_, by omega, by omega, by omega, by omega, (Except.ok.inj h).symm⟩

/-- Padding leaves everything before the instructions as it is: either it is added, or the sum starts
over and what is cut off is instructions only. -/
def PaddingKeeps (padding : UInt64) (instructions : List UInt8) : Prop :=
  padding.toNat < memoryLimit ∨ 2 * memoryLimit ≤ padding.toNat + instructions.length

instance (padding : UInt64) (instructions : List UInt8) :
    Decidable (PaddingKeeps padding instructions) :=
  inferInstanceAs (Decidable (_ ∨ _))

section
variable {order : ByteOrder} {format : RecordFormat} {offset : Nat} {padding : UInt64}
  {front instructions record : List UInt8}

/-- That is so exactly if the record is long enough for it. -/
theorem paddingKeeps_iff
    (h : writeRecord order format offset (front ++ instructions) padding = .ok record) :
    PaddingKeeps padding instructions ↔ format.lengthSize + front.length ≤ record.length := by
  obtain ⟨length, hstop, hcontent, hmemory, -, rfl⟩ := writeRecord_eq_ok h
  have hpadding := padding.toNat_lt
  rw [UInt64.toNat_add, UInt64.toNat_ofNat', List.length_append] at hstop
  rw [List.length_append] at hcontent
  rw [List.length_append, RecordFormat.length_lengthField, length_resize, PaddingKeeps]
  simp only [memoryLimit] at hcontent hmemory ⊢
  omega

/-- A record whose padding keeps what is in front of its instructions starts with that. -/
theorem writeRecord_keeps
    (h : writeRecord order format offset (front ++ instructions) padding = .ok record)
    (hkeeps : PaddingKeeps padding instructions) :
    ∃ tail, (front ++ tail).length < format.limit ∧
      record = format.lengthField order (front ++ tail).length ++ (front ++ tail) := by
  have hlong := (paddingKeeps_iff h).mp hkeeps
  obtain ⟨length, -, -, -, hlimit, rfl⟩ := writeRecord_eq_ok h
  rw [List.length_append, RecordFormat.length_lengthField, length_resize] at hlong
  refine ⟨resize instructions (length - front.length), ?_⟩
  rw [← resize_append (by omega), length_resize]
  exact ⟨hlimit, rfl⟩

end

/-- A block that settled is one that starts after its length. -/
theorem settleBlock_eq_ok {offset attempts size : Nat}
    {block : Nat → Except WriteFault (List UInt8)} {bytes : List UInt8}
    (h : settleBlock offset block attempts size = .ok bytes) :
    ∃ data, block (offset + (Leb128.ofNat data.length).length) = .ok data ∧
      bytes = Leb128.ofNat data.length ++ data := by
  induction attempts generalizing size with
  | zero => simp [settleBlock] at h
  | succ attempts ih =>
      rw [settleBlock] at h
      obtain ⟨data, hdata, h⟩ := Steps.bind_eq_ok.mp h
      simp only at h
      split at h
      · next hsize =>
          exact ⟨data, hsize ▸ hdata, (Steps.pure_eq_ok.mp h).symm⟩
      · exact ih h

/-! ## 2. CIEs -/

theorem decodeForWriting_eq_ok_iff {byte : UInt8} {encoding : Option PointerEncoding} :
    decodeForWriting byte = .ok encoding ↔ PointerEncoding.decode byte = .ok encoding := by
  unfold decodeForWriting
  cases PointerEncoding.decode byte with
  | error fault => constructor <;> rintro ⟨⟩
  | ok found => constructor <;> rintro ⟨⟩ <;> rfl

namespace CieBlueprint

variable {target : Target} {cie : CieBlueprint}

/-- The field of the personality routine is its encoding, followed by the pointer unless the
encoding says that there is none. -/
theorem writePersonality_eq_ok_iff {offset : Nat} {field : List UInt8} :
    cie.writePersonality target offset = .ok field ↔
      ∃ byte address, cie.personality.getD (PointerEncoding.omitted, 0) = (byte, address) ∧
        ((PointerEncoding.decode byte = .ok none ∧ field = [byte]) ∨
          ∃ encoding stored, PointerEncoding.decode byte = .ok (some encoding) ∧
            encoding.store target.order (target.site (offset + 1) none) address = .ok stored ∧
            field = byte :: stored) := by
  unfold writePersonality
  obtain ⟨byte, address⟩ := cie.personality.getD (PointerEncoding.omitted, 0)
  simp only [Prod.mk.injEq, Steps.bind_eq_ok, decodeForWriting_eq_ok_iff]
  constructor
  · rintro ⟨decoded, hd, h⟩
    refine ⟨byte, address, ⟨rfl, rfl⟩, ?_⟩
    cases decoded with
    | none => exact Or.inl ⟨hd, (Steps.pure_eq_ok.mp h).symm⟩
    | some encoding =>
        obtain ⟨stored, hs, h⟩ := Steps.bind_eq_ok.mp h
        exact Or.inr ⟨encoding, stored, hd, hs, (Steps.pure_eq_ok.mp h).symm⟩
  · rintro ⟨_, _, ⟨rfl, rfl⟩, ⟨hd, rfl⟩ | ⟨encoding, stored, hd, hs, rfl⟩⟩
    · exact ⟨none, hd, rfl⟩
    · exact ⟨some encoding, hd, Steps.bind_eq_ok.mpr ⟨stored, hs, rfl⟩⟩

/-! What one character adds to the block. The characters `L` and `R` add a byte each, and neither
they nor an unknown character can be refused. -/

theorem writeFields_P (codes : List UInt8) (offset : Nat) :
    cie.writeFields target ('P'.toUInt8 :: codes) offset = (do
      let field ← cie.writePersonality target offset
      return field ++ (← cie.writeFields target codes (offset + field.length))) := rfl

theorem writeFields_L (codes : List UInt8) (offset : Nat) :
    cie.writeFields target ('L'.toUInt8 :: codes) offset = (do
      return cie.lsdaEncoding.getD PointerEncoding.omitted ::
        (← cie.writeFields target codes (offset + 1))) := rfl

theorem writeFields_R (codes : List UInt8) (offset : Nat) :
    cie.writeFields target ('R'.toUInt8 :: codes) offset = (do
      return cie.fdeEncoding.getD PointerEncoding.plain.bits ::
        (← cie.writeFields target codes (offset + 1))) := rfl

theorem writeFields_unknown {code : UInt8} (h : AugmentationState.isField code = false)
    (codes : List UInt8) (offset : Nat) :
    cie.writeFields target (code :: codes) offset = .ok cie.unknownData := by
  rw [writeFields, AugmentationState.transition_unknown h]
  rfl

theorem writeAugmentationData_z {codes : List UInt8} {offset : Nat}
    (h : cie.codes = 'z'.toUInt8 :: codes) :
    cie.writeAugmentationData target offset = writeBlock offset (cie.writeFields target codes) := by
  rw [writeAugmentationData, h]
  rfl

theorem writeHead_eq_ok_iff {head : List UInt8} :
    cie.writeHead target = .ok head ↔ ∃ register, cie.writeRegister = .ok register ∧
      head = target.order.bytes 4 0 ++ [cie.version] ++ cie.codes ++ [0] ++
        Leb128.writeUnsigned cie.codeAlignment ++ Leb128.writeSigned cie.dataAlignment ++
        register := by
  unfold writeHead
  constructor
  · intro h
    obtain ⟨register, hr, h⟩ := Steps.bind_eq_ok.mp h
    exact ⟨register, hr, (Steps.pure_eq_ok.mp h).symm⟩
  · rintro ⟨register, hr, rfl⟩
    exact Steps.bind_eq_ok.mpr ⟨register, hr, rfl⟩

theorem write_eq_ok_iff {offset : Nat} {record : List UInt8} :
    cie.write target offset = .ok record ↔
      ∃ head data, cie.writeHead target = .ok head ∧
        cie.writeAugmentationData target (offset + cie.format.lengthSize + head.length) = .ok data ∧
        writeRecord target.order cie.format offset (head ++ data ++ cie.instructions) cie.padding =
          .ok record := by
  unfold write
  constructor
  · intro h
    obtain ⟨head, hh, h⟩ := Steps.bind_eq_ok.mp h
    obtain ⟨data, hd, h⟩ := Steps.bind_eq_ok.mp h
    exact ⟨head, data, hh, hd, h⟩
  · rintro ⟨head, data, hh, hd, h⟩
    exact Steps.bind_eq_ok.mpr ⟨head, hh, Steps.bind_eq_ok.mpr ⟨data, hd, h⟩⟩

end CieBlueprint

/-! ## 3. FDEs -/

namespace FdeBlueprint

/-- An FDE is the distance to its CIE, two pointers in the encoding that the layout asks for, and the
augmentation data. -/
theorem write_eq_ok {target : Target} {fde : FdeBlueprint} {cie : CieBlueprint}
    {cieOffset : Option Nat} {offset : Nat} {record : List UInt8}
    (h : fde.write target cie cieOffset offset = .ok record) :
    ∃ distance decoded pcBegin pcRange data start, start = offset + fde.format.lengthSize + 4 ∧
      fde.distance cieOffset (offset + fde.format.lengthSize) = .ok distance ∧
      PointerEncoding.decode cie.layout.fdeEncoding = .ok decoded ∧
      (decoded.getD .plain).store target.order (target.site start none) fde.pcBegin = .ok pcBegin ∧
      (decoded.getD .plain).valueOnly.store target.order
        (target.site (start + pcBegin.length) none) fde.pcRange = .ok pcRange ∧
      fde.writeAugmentationData target cie.layout (start + pcBegin.length + pcRange.length) =
        .ok data ∧
      writeRecord target.order fde.format offset
        (target.order.bytes 4 distance ++ pcBegin ++ pcRange ++ data ++ fde.instructions)
          fde.padding = .ok record := by
  obtain ⟨distance, hdistance, h⟩ := Steps.bind_eq_ok.mp h
  obtain ⟨decoded, hdecoded, h⟩ := Steps.bind_eq_ok.mp h
  obtain ⟨pcBegin, hbegin, h⟩ := Steps.bind_eq_ok.mp h
  obtain ⟨pcRange, hrange, h⟩ := Steps.bind_eq_ok.mp h
  obtain ⟨data, hdata, h⟩ := Steps.bind_eq_ok.mp h
  exact ⟨distance, decoded, pcBegin, pcRange, data, _, rfl, hdistance,
    decodeForWriting_eq_ok_iff.mp hdecoded, hbegin, hrange, hdata, h⟩

/-- A distance that is not forced is the real one, to a CIE that has been written. -/
theorem distance_eq_ok {fde : FdeBlueprint} {cieOffset : Option Nat} {offset distance : Nat}
    (hforced : fde.ciePointer = none) (h : fde.distance cieOffset offset = .ok distance) :
    ∃ cieAt, cieOffset = some cieAt ∧ distance = offset - cieAt ∧ distance < capacity 4 := by
  cases cieOffset with
  | none => simp [FdeBlueprint.distance, hforced] at h
  | some cieAt =>
      simp only [FdeBlueprint.distance, hforced] at h
      split at h
      · next hfits =>
          obtain rfl := Except.ok.inj h
          exact ⟨cieAt, rfl, rfl, hfits⟩
      · simp at h

end FdeBlueprint

/-! ## 4. Sections -/

namespace Blueprint

variable {target : Target} {known : List CieBlueprint} {items : List BlueprintItem}
  {placed : List Nat} {offset : Nat} {emission : Emission}

theorem emitItems_nil_eq_ok_iff :
    emitItems target known [] placed offset = .ok emission ↔ emission = ⟨[], [], []⟩ := by
  rw [emitItems, Except.ok.injEq]
  exact eq_comm

theorem emitItems_cie_eq_ok_iff {cie : CieBlueprint} :
    emitItems target known (.cie cie :: items) placed offset = .ok emission ↔
      ∃ record rest, cie.write target offset = .ok record ∧
        emitItems target known items (placed ++ [offset]) (offset + record.length) = .ok rest ∧
        emission = ⟨record ++ rest.bytes, offset :: rest.cies, rest.fdes⟩ := by
  rw [emitItems]
  constructor
  · intro h
    obtain ⟨record, hw, h⟩ := Steps.bind_eq_ok.mp h
    obtain ⟨rest, hr, h⟩ := Steps.bind_eq_ok.mp h
    exact ⟨record, rest, hw, hr, (Steps.pure_eq_ok.mp h).symm⟩
  · rintro ⟨record, rest, hw, hr, rfl⟩
    exact Steps.bind_eq_ok.mpr ⟨record, hw, Steps.bind_eq_ok.mpr ⟨rest, hr, rfl⟩⟩

theorem emitItems_fde_eq_ok_iff {fde : FdeBlueprint} :
    emitItems target known (.fde fde :: items) placed offset = .ok emission ↔
      ∃ cie record rest, known[fde.cie]? = some cie ∧
        fde.write target cie placed[fde.cie]? offset = .ok record ∧
        emitItems target known items placed (offset + record.length) = .ok rest ∧
        emission = ⟨record ++ rest.bytes, rest.cies, ⟨fde.pcBegin, offset⟩ :: rest.fdes⟩ := by
  rw [emitItems]
  cases known[fde.cie]? with
  | none => simp
  | some cie =>
      simp only [Option.some.injEq, exists_and_left, exists_eq_left']
      constructor
      · intro h
        obtain ⟨record, hw, h⟩ := Steps.bind_eq_ok.mp h
        obtain ⟨rest, hr, h⟩ := Steps.bind_eq_ok.mp h
        exact ⟨record, hw, rest, hr, (Steps.pure_eq_ok.mp h).symm⟩
      · rintro ⟨record, hw, rest, hr, rfl⟩
        exact Steps.bind_eq_ok.mpr ⟨record, hw, Steps.bind_eq_ok.mpr ⟨rest, hr, rfl⟩⟩

theorem emitItems_cie_eq_error_iff {cie : CieBlueprint} {fault : WriteFault} :
    emitItems target known (.cie cie :: items) placed offset = .error fault ↔
      cie.write target offset = .error fault ∨
      ∃ record, cie.write target offset = .ok record ∧
        emitItems target known items (placed ++ [offset]) (offset + record.length)
          = .error fault := by
  rw [emitItems, Steps.bind_eq_error]
  simp only [Steps.bind_pure_eq_error]

theorem emitItems_fde_eq_error_iff {fde : FdeBlueprint} {fault : WriteFault} :
    emitItems target known (.fde fde :: items) placed offset = .error fault ↔
      (known[fde.cie]? = none ∧ fault = .unknownCie) ∨
      ∃ cie, known[fde.cie]? = some cie ∧
        (fde.write target cie placed[fde.cie]? offset = .error fault ∨
        ∃ record, fde.write target cie placed[fde.cie]? offset = .ok record ∧
          emitItems target known items placed (offset + record.length) = .error fault) := by
  rw [emitItems]
  cases known[fde.cie]? with
  | none => simp [eq_comm]
  | some cie =>
      simp only [reduceCtorEq, false_and, false_or, Option.some.injEq, exists_eq_left']
      rw [Steps.bind_eq_error]
      simp only [Steps.bind_pure_eq_error]

/-- The end of a section: nothing, or a terminator. -/
def IsEnding (bytes : List UInt8) : Prop := bytes = [] ∨ bytes = [0, 0, 0, 0]

theorem exists_ending_of_emit {blueprint : Blueprint} {order : ByteOrder}
    (h : blueprint.emit order = .ok emission) :
    ∃ items ending, emitItems (blueprint.target order) blueprint.cies blueprint.items [] 0 =
        .ok items ∧ IsEnding ending ∧
      emission = { items with bytes := items.bytes ++ ending } := by
  obtain ⟨items, hitems, h⟩ := Steps.bind_eq_ok.mp h
  refine ⟨items, _, hitems, ?_, (Steps.pure_eq_ok.mp h).symm⟩
  split
  · exact Or.inr rfl
  · exact Or.inl rfl

theorem build_eq_ok_iff {blueprint : Blueprint} {order : ByteOrder} {bytes : List UInt8} :
    blueprint.build order = .ok bytes ↔
      ∃ emission, blueprint.emit order = .ok emission ∧ emission.bytes = bytes := by
  unfold build
  cases blueprint.emit order <;> simp [Except.map]

end Blueprint

end UnwindTables
