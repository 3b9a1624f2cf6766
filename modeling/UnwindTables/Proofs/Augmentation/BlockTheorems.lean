/-
UnwindTables.Proofs.Augmentation.BlockTheorems — what reading an augmentation block leaves behind.

`fieldEnd` says how many bytes the field of one character takes, whatever has been declared before
it. Reading a block is then one step for each character: `readBlock_field` for those that ask for a
field and `readBlock_unknown` for the others, and the proofs about blocks are inductions on the
string with these two steps.

A block that could not be read to its end is skipped from there on, and the fault that stopped the
reading stays with the CIE. Such a fault is one of the block and damages no framing, and the CIE
carries the flag that part of its block is missing (`read_failed`). In particular, no `R` field is
left out silently: `fdeBytes` are those that are read, and if there are none, the block has failed
(`read_fdeEncoding`).
-/
import UnwindTables.Augmentation
import UnwindTables.Proofs.Augmentation.CodeTheorems
import UnwindTables.Proofs.Bytes.WindowTheorems

namespace UnwindTables.Declared

open AugmentationState (isField isField_cases)

variable {target : Target} {declared found : Declared} {block window rest : Window}
  {code : UInt8} {codes : List UInt8} {fault : Fault}

/-! ## 1. One field -/

/-- The window after the field that a character asks for. An encoding is a byte, and the one of the
personality routine is followed by a pointer unless it says that there is none. -/
def fieldEnd (target : Target) (code : UInt8) (block : Window) : Except Fault Window := do
  let (byte, rest) ← block.byte
  if code = 'P'.toUInt8 then
    match ← PointerEncoding.decode byte with
    | none => return rest
    | some encoding => return (← rest.pointer target encoding none).2
  else
    return rest

/-- What is declared once the field that a character asks for has been read. -/
def afterField (target : Target) (code : UInt8) (declared : Declared) (block : Window) :
    Declared :=
  (declared.readField target (AugmentationState.fields.transition code).2 block).1

theorem readPersonality_end (target : Target) (declared : Declared) (block : Window) :
    (declared.readPersonality target block).2 = fieldEnd target 'P'.toUInt8 block := by
  unfold readPersonality fieldEnd
  cases block.byte with
  | error fault => rfl
  | ok read =>
      obtain ⟨byte, rest⟩ := read
      cases hd : PointerEncoding.decode byte with
      | error fault => simp [bind, Except.bind, hd]
      | ok decoded =>
          cases decoded with
          | none => simp [bind, Except.bind, pure, Except.pure, hd]
          | some encoding =>
              cases hp : rest.pointer target encoding none <;>
                simp [bind, Except.bind, pure, Except.pure, hd, hp]

theorem readLsdaEncoding_end (target : Target) (declared : Declared) (block : Window) :
    (declared.readLsdaEncoding block).2 = fieldEnd target 'L'.toUInt8 block := by
  unfold readLsdaEncoding fieldEnd
  cases block.byte <;> rfl

theorem readFdeEncoding_end (target : Target) (declared : Declared) (block : Window) :
    (declared.readFdeEncoding block).2 = fieldEnd target 'R'.toUInt8 block := by
  unfold readFdeEncoding fieldEnd
  cases block.byte <;> rfl

/-- How far a field reaches does not depend on what has been declared before it. -/
theorem readField_end (target : Target) (h : isField code) (declared : Declared) (block : Window) :
    (declared.readField target (AugmentationState.fields.transition code).2 block).2 =
      fieldEnd target code block := by
  rcases isField_cases code with rfl | rfl | rfl | hno
  · exact readPersonality_end target declared block
  · exact readLsdaEncoding_end target declared block
  · exact readFdeEncoding_end target declared block
  · simp [hno] at h

/-- Reading a personality routine declares nothing but the routine and its encoding. -/
theorem exists_readPersonality (target : Target) (declared : Declared) (block : Window) :
    ∃ encoding personality, (declared.readPersonality target block).1 =
      { declared with
        features := { declared.features with personality := true }
        personalityEncoding := encoding
        personality := personality } := by
  unfold readPersonality
  cases block.byte with
  | error fault => exact ⟨_, _, rfl⟩
  | ok read =>
      obtain ⟨byte, rest⟩ := read
      simp only
      cases PointerEncoding.decode byte with
      | error fault => exact ⟨_, _, rfl⟩
      | ok decoded =>
          cases decoded with
          | none => exact ⟨_, _, rfl⟩
          | some encoding =>
              simp only
              cases rest.pointer target encoding none <;> exact ⟨_, _, rfl⟩

/-- Reading an encoding of pointers to language-specific data declares nothing else. -/
theorem exists_readLsdaEncoding (declared : Declared) (block : Window) :
    ∃ encoding, (declared.readLsdaEncoding block).1 =
      { declared with
        features := { declared.features with lsda := true }
        lsdaEncoding := encoding } := by
  unfold readLsdaEncoding
  cases block.byte <;> exact ⟨_, rfl⟩

/-- Reading an encoding of the addresses of functions declares nothing else. -/
theorem exists_readFdeEncoding (declared : Declared) (block : Window) :
    ∃ encoding, (declared.readFdeEncoding block).1 =
      { declared with
        features := { declared.features with fdeEncoding := true }
        fdeEncoding := encoding } := by
  unfold readFdeEncoding
  cases block.byte <;> exact ⟨_, rfl⟩

/-- A field stays in its block. -/
theorem fieldEnd_stays (target : Target) (code : UInt8) (block : Window) :
    (∀ rest, fieldEnd target code block = .ok rest → rest.Within block) ∧
      block.Blames (fieldEnd target code block) := by
  constructor
  · intro rest h
    obtain ⟨⟨byte, afterByte⟩, hbyte, h⟩ := Steps.bind_eq_ok.mp h
    have hw := (Window.stays_byte block).rest byte afterByte hbyte
    simp only at h
    split at h
    · obtain ⟨_ | encoding, -, h⟩ := Steps.bind_eq_ok.mp h
      · obtain rfl := Steps.pure_eq_ok.mp h
        exact hw
      · obtain ⟨⟨pointer, afterPointer⟩, hp, h⟩ := Steps.bind_eq_ok.mp h
        obtain rfl := Steps.pure_eq_ok.mp h
        exact ((Window.stays_pointer _ _ _ _).rest _ _ hp).trans hw
    · obtain rfl := Steps.pure_eq_ok.mp h
      exact hw
  · refine Window.Blames.read (.refl block) (Window.stays_byte block) ?_
    intro byte afterByte _ hw
    simp only
    split
    · refine Window.Blames.bind (Window.blames_decode block byte) ?_
      intro decoded _
      cases decoded with
      | none => exact Window.blames_pure block _
      | some encoding =>
          refine Window.Blames.read hw (Window.stays_pointer _ _ _ _) ?_
          intro _ _ _ _
          exact Window.blames_pure block _
    · exact Window.blames_pure block _

/-! ## 2. One character -/

theorem readBlock_unknown (h : isField code = false) (codes : List UInt8) (declared : Declared)
    (block : Window) :
    readBlock target .fields (code :: codes) declared block =
      (declared.skip, .unknownCode code) := by
  rw [readBlock, AugmentationState.transition_unknown h]
  rfl

theorem readBlock_field (h : isField code) (codes : List UInt8) (declared : Declared)
    (block : Window) :
    readBlock target .fields (code :: codes) declared block =
      match fieldEnd target code block with
      | .ok rest => readBlock target .fields codes (afterField target code declared block) rest
      | .error fault =>
        ((afterField target code declared block).skip, .failed fault.withinBlock) := by
  have hend := readField_end target h declared block
  have hstep : (AugmentationState.fields.transition code).1 = .fields ∧
      (AugmentationState.fields.transition code).2 ≠ .skipRest := by
    rcases isField_cases code with rfl | rfl | rfl | hno
    · exact ⟨rfl, by decide⟩
    · exact ⟨rfl, by decide⟩
    · exact ⟨rfl, by decide⟩
    · simp [hno] at h
  simp only [readBlock, if_neg hstep.2, afterField, hstep.1]
  rw [← hend]
  split <;> simp [*]

/-! ## 3. A block that could not be read -/

/-- A fault that stops the reading of a block is one of the block, and what follows is skipped. -/
theorem readBlock_failed (h : readBlock target .fields codes declared block = (found, .failed fault)) :
    found.features.skipped = true ∧ fault.BlamesIn block ∧ fault.isFatal = false := by
  induction codes generalizing declared block with
  | nil => simp [readBlock] at h
  | cons code codes ih =>
      by_cases hcode : isField code = true
      · rw [readBlock_field hcode] at h
        obtain ⟨hrest, hblames⟩ := fieldEnd_stays target code block
        split at h
        · next rest hend =>
            obtain ⟨hskip, hin, hfatal⟩ := ih h
            exact ⟨hskip, hin.mono (hrest rest hend), hfatal⟩
        · next reason hend =>
            obtain ⟨rfl, hf⟩ := Prod.mk.inj h
            obtain rfl := BlockEnding.failed.inj hf
            exact ⟨rfl, (hblames reason hend).withinBlock, Fault.isFatal_withinBlock reason⟩
      · rw [readBlock_unknown (by simpa using hcode)] at h
        simp at h

/-- The same for a whole block with its length in front. -/
theorem read_failed (h : read target codes window = (found, .failed fault, rest)) :
    found.features.skipped = true ∧ fault.BlamesIn window ∧ fault.isFatal = false := by
  cases codes with
  | nil => simp [read] at h
  | cons code codes =>
      by_cases hz : code = 'z'.toUInt8
      · subst hz
        simp only [read, AugmentationState.transition_z] at h
        split at h
        · next block afterBlock hblock =>
            simp only [Prod.mk.injEq] at h
            obtain ⟨hskip, hin, hfatal⟩ := readBlock_failed (Prod.ext h.1 h.2.1)
            exact ⟨hskip, hin.mono (Window.within_of_block hblock), hfatal⟩
        · simp only [Prod.mk.injEq, BlockEnding.failed.injEq] at h
          obtain ⟨rfl, rfl, -⟩ := h
          exact ⟨rfl, (Fault.blamesIn_fault window .unexpectedEnd).withinBlock, rfl⟩
      · simp [read, AugmentationState.transition_not_z hz] at h

/-! ## 4. The encoding of the addresses of functions -/

/-- The window after the fields that the characters of a string ask for. -/
def fieldsEnd (target : Target) : List UInt8 → Window → Except Fault Window
  | [], block => .ok block
  | code :: codes, block => do fieldsEnd target codes (← fieldEnd target code block)

/-- The bytes of the `R` fields that a string asks for, as far as the block can be followed. -/
def fdeBytes (target : Target) : List UInt8 → Window → List UInt8
  | [], _ => []
  | code :: codes, block =>
    if isField code then
      match fieldEnd target code block with
      | .ok rest =>
        (if code = 'R'.toUInt8 then block.bytes.take 1 else []) ++ fdeBytes target codes rest
      | .error _ => []
    else []

theorem fdeEncoding_afterField_of_ne (hcode : isField code) (hne : code ≠ 'R'.toUInt8)
    (declared : Declared) (block : Window) :
    (afterField target code declared block).fdeEncoding = declared.fdeEncoding := by
  rcases isField_cases code with rfl | rfl | rfl | hno
  · obtain ⟨_, _, hafter⟩ := exists_readPersonality target declared block
    exact congrArg (·.fdeEncoding) hafter
  · obtain ⟨_, hafter⟩ := exists_readLsdaEncoding declared block
    exact congrArg (·.fdeEncoding) hafter
  · exact absurd rfl hne
  · simp [hno] at hcode

theorem fieldEnd_R (target : Target) (block : Window) :
    fieldEnd target 'R'.toUInt8 block = block.byte.map Prod.snd := by
  unfold fieldEnd
  cases block.byte <;> rfl

theorem exists_byte_of_fieldEnd_R (h : fieldEnd target 'R'.toUInt8 block = .ok rest) :
    ∃ byte, block.byte = .ok (byte, rest) := by
  rw [fieldEnd_R] at h
  cases hbyte : block.byte with
  | error fault => simp [hbyte, Except.map] at h
  | ok read =>
      rw [hbyte] at h
      obtain rfl := Except.ok.inj h
      exact ⟨read.1, rfl⟩

theorem take_one_of_byte {byte : UInt8} (h : block.byte = .ok (byte, rest)) :
    block.bytes.take 1 = [byte] := by
  unfold Window.byte at h
  split at h
  · simp at h
  · next hb =>
      obtain ⟨rfl, -⟩ := Prod.mk.inj (Except.ok.inj h)
      simp [hb]

theorem fdeEncoding_afterField_R {byte : UInt8} (h : block.byte = .ok (byte, rest))
    (declared : Declared) :
    (afterField target 'R'.toUInt8 declared block).fdeEncoding = declaredByte byte := by
  show (readFdeEncoding declared block).1.fdeEncoding = _
  simp [readFdeEncoding, h]

/-- Only an `R` that is read changes what is declared about the addresses of functions. -/
theorem fdeEncoding_afterField_of_error (hcode : isField code)
    (h : fieldEnd target code block = .error fault) (declared : Declared) :
    (afterField target code declared block).fdeEncoding = declared.fdeEncoding := by
  by_cases hR : code = 'R'.toUInt8
  · subst hR
    show (readFdeEncoding declared block).1.fdeEncoding = _
    unfold readFdeEncoding
    rw [fieldEnd_R] at h
    cases hbyte : block.byte with
    | error _ => rfl
    | ok read => simp [hbyte, Except.map] at h
  · exact fdeEncoding_afterField_of_ne hcode hR declared block

theorem fdeBytes_R (target : Target) (codes : List UInt8) (block : Window) :
    fdeBytes target ('R'.toUInt8 :: codes) block =
      match block.byte with
      | .ok (byte, rest) => byte :: fdeBytes target codes rest
      | .error _ => [] := by
  rw [fdeBytes, if_pos (by decide : isField 'R'.toUInt8 = true), fieldEnd_R]
  cases hbyte : block.byte with
  | error fault => rfl
  | ok read =>
      simp only [Except.map]
      rw [if_pos trivial, take_one_of_byte hbyte, List.singleton_append]

/-- The last `R` of a block is the one that counts. -/
theorem fdeEncoding_readBlock (target : Target) (codes : List UInt8) (declared : Declared)
    (block : Window) :
    (readBlock target .fields codes declared block).1.fdeEncoding =
      match (fdeBytes target codes block).getLast? with
      | some byte => declaredByte byte
      | none => declared.fdeEncoding := by
  induction codes generalizing declared block with
  | nil => rfl
  | cons code codes ih =>
      by_cases hcode : isField code = true
      · rw [readBlock_field hcode, fdeBytes, if_pos hcode]
        cases hend : fieldEnd target code block with
        | error fault => exact fdeEncoding_afterField_of_error hcode hend declared
        | ok rest =>
            simp only
            rw [ih]
            by_cases hR : code = 'R'.toUInt8
            · subst hR
              obtain ⟨byte, hbyte⟩ := exists_byte_of_fieldEnd_R hend
              rw [if_pos rfl, take_one_of_byte hbyte, fdeEncoding_afterField_R hbyte]
              cases hlast : (fdeBytes target codes rest).getLast? with
              | none => simp [List.getLast?_eq_none_iff.mp hlast]
              | some last =>
                  rw [List.getLast?_append, hlast]
                  rfl
            · rw [if_neg hR, fdeEncoding_afterField_of_ne hcode hR, List.nil_append]
      · rw [readBlock_unknown (by simpa using hcode), fdeBytes, if_neg hcode]
        rfl

/-- The reading of a block that yields none of the `R` fields of its string has failed. -/
theorem failed_of_fdeBytes_eq_nil {fields more : List UInt8} (hfields : ∀ code ∈ fields, isField code)
    (declared : Declared) (h : fdeBytes target (fields ++ 'R'.toUInt8 :: more) block = []) :
    ∃ fault, (readBlock target .fields (fields ++ 'R'.toUInt8 :: more) declared block).2 =
      .failed fault := by
  induction fields generalizing declared block with
  | nil =>
      rw [List.nil_append, fdeBytes_R] at h
      rw [List.nil_append, readBlock_field (by decide), fieldEnd_R]
      cases hbyte : block.byte with
      | error fault => exact ⟨_, rfl⟩
      | ok read => simp [hbyte] at h
  | cons code codes ih =>
      have hcode := hfields code List.mem_cons_self
      rw [List.cons_append, fdeBytes, if_pos hcode] at h
      rw [List.cons_append, readBlock_field hcode]
      cases hend : fieldEnd target code block with
      | error fault => exact ⟨_, rfl⟩
      | ok rest =>
          rw [hend] at h
          exact ih (fun c hc => hfields c (List.mem_cons_of_mem _ hc)) _
            (List.append_eq_nil_iff.mp h).2

/-- Fields without an `R` among them add none of its bytes. -/
theorem fdeBytes_append (h : ∀ code ∈ codes, isField code ∧ code ≠ 'R'.toUInt8)
    (more : List UInt8) (block : Window) :
    fdeBytes target (codes ++ more) block =
      match fieldsEnd target codes block with
      | .ok rest => fdeBytes target more rest
      | .error _ => [] := by
  induction codes generalizing block with
  | nil => rfl
  | cons code codes ih =>
      obtain ⟨hcode, hR⟩ := h code List.mem_cons_self
      rw [List.cons_append, fdeBytes, if_pos hcode, if_neg hR, fieldsEnd]
      cases hend : fieldEnd target code block with
      | error fault => rfl
      | ok rest => exact ih (fun c hc => h c (List.mem_cons_of_mem _ hc)) rest

/-- The first `R` of a string is read from the block, after the fields that come before it, and
`byte` is what the last one says. -/
def ReadsFdeByte (target : Target) (fields more : List UInt8) (window : Window) (byte : UInt8) :
    Prop :=
  ∃ block afterBlock after first afterFirst,
    window.block = .ok (block, afterBlock) ∧ fieldsEnd target fields block = .ok after ∧
      after.byte = .ok (first, afterFirst) ∧
      (first :: fdeBytes target more afterFirst).getLast? = some byte

theorem readsFdeByte_iff {fields more : List UInt8} {block afterBlock : Window} {byte : UInt8}
    (hfields : ∀ code ∈ fields, isField code ∧ code ≠ 'R'.toUInt8)
    (hblock : window.block = .ok (block, afterBlock)) :
    ReadsFdeByte target fields more window byte ↔
      (fdeBytes target (fields ++ 'R'.toUInt8 :: more) block).getLast? = some byte := by
  rw [fdeBytes_append hfields]
  constructor
  · rintro ⟨_, _, after, first, afterFirst, hblock', hafter, hread, hlast⟩
    obtain ⟨rfl, -⟩ := Prod.mk.inj (Except.ok.inj (hblock.symm.trans hblock'))
    simp only [hafter, fdeBytes_R, hread]
    exact hlast
  · intro h
    cases hend : fieldsEnd target fields block with
    | error fault => simp [hend] at h
    | ok after =>
        simp only [hend, fdeBytes_R] at h
        cases hread : after.byte with
        | error fault => simp [hread] at h
        | ok read =>
            rw [hread] at h
            exact ⟨block, afterBlock, after, read.1, read.2, hblock, hend, hread, h⟩

/-- A string that asks for the encoding of the addresses of functions gets it declared, or the
reading of its block has failed before. -/
theorem read_fdeEncoding {fields more : List UInt8} {ending : BlockEnding}
    (hfields : ∀ code ∈ fields, isField code ∧ code ≠ 'R'.toUInt8)
    (h : read target ('z'.toUInt8 :: (fields ++ 'R'.toUInt8 :: more)) window =
      (declared, ending, rest)) :
    (∃ byte, ReadsFdeByte target fields more window byte ∧
      declared.fdeEncoding = declaredByte byte) ∨
    ((∀ byte, ¬ ReadsFdeByte target fields more window byte) ∧ declared.fdeEncoding = none ∧
      ∃ fault, ending = .failed fault) := by
  simp only [read, AugmentationState.transition_z] at h
  split at h
  · next block afterBlock hblock =>
      simp only [Prod.mk.injEq] at h
      obtain ⟨hdeclared, hending, -⟩ := h
      have hencoding := fdeEncoding_readBlock target (fields ++ 'R'.toUInt8 :: more)
        (nothing { Features.none with data := true }) block
      rw [hdeclared] at hencoding
      cases hlast : (fdeBytes target (fields ++ 'R'.toUInt8 :: more) block).getLast? with
      | some byte =>
          rw [hlast] at hencoding
          exact Or.inl ⟨byte, (readsFdeByte_iff hfields hblock).mpr hlast, hencoding⟩
      | none =>
          rw [hlast] at hencoding
          refine Or.inr ⟨?_, hencoding, ?_⟩
          · intro byte hbyte
            have := (readsFdeByte_iff hfields hblock).mp hbyte
            simp [hlast] at this
          · rw [← hending]
            exact failed_of_fdeBytes_eq_nil (fun code hc => (hfields code hc).1) _
              (List.getLast?_eq_none_iff.mp hlast)
  -- without a block there is nothing to read an `R` from
  · next fault hblock =>
      simp only [Prod.mk.injEq] at h
      obtain ⟨rfl, rfl, -⟩ := h
      refine Or.inr ⟨?_, rfl, _, rfl⟩
      rintro byte ⟨_, _, _, _, _, hblock', -⟩
      rw [hblock] at hblock'
      simp at hblock'

/-! ## 5. Whether there is a block -/

theorem data_afterField (hcode : isField code) (declared : Declared) (block : Window) :
    (afterField target code declared block).features.data = declared.features.data := by
  rcases isField_cases code with rfl | rfl | rfl | hno
  · obtain ⟨_, _, hafter⟩ := exists_readPersonality target declared block
    exact congrArg (·.features.data) hafter
  · obtain ⟨_, hafter⟩ := exists_readLsdaEncoding declared block
    exact congrArg (·.features.data) hafter
  · obtain ⟨_, hafter⟩ := exists_readFdeEncoding declared block
    exact congrArg (·.features.data) hafter
  · simp [hno] at hcode

theorem data_readBlock (target : Target) (codes : List UInt8) (declared : Declared) (block : Window) :
    (readBlock target .fields codes declared block).1.features.data = declared.features.data := by
  induction codes generalizing declared block with
  | nil => rfl
  | cons code codes ih =>
      by_cases hcode : isField code = true
      · rw [readBlock_field hcode]
        have hafter : (afterField target code declared block).features.data = declared.features.data :=
          data_afterField hcode declared block
        split
        · rw [ih, hafter]
        · exact hafter
      · rw [readBlock_unknown (by simpa using hcode)]
        rfl

/-- There is a block exactly if the string has a leading `z`, whatever could be read of it. -/
theorem data_read (target : Target) (codes : List UInt8) (window : Window) :
    (read target codes window).1.features.data = true ↔ codes.head? = some 'z'.toUInt8 := by
  cases codes with
  | nil => simp [read, nothing, Features.none]
  | cons code codes =>
      rw [List.head?_cons, Option.some.injEq]
      by_cases hz : code = 'z'.toUInt8
      · subst hz
        refine iff_of_true ?_ rfl
        simp only [read, AugmentationState.transition_z]
        split
        · exact data_readBlock target codes _ _
        · rfl
      · refine iff_of_false ?_ hz
        simp [read, AugmentationState.transition_not_z hz, nothing, Features.none]

/-! ## 6. The personality routine -/

/-- The pointer of a `P` field, unless it is omitted: its encoding and the window that it starts. -/
def pointerField? (code : UInt8) (block : Window) : Option (PointerEncoding × Window) :=
  if code = 'P'.toUInt8 then
    match block.byte with
    | .ok (byte, rest) =>
      match PointerEncoding.decode byte with
      | .ok (some encoding) => some (encoding, rest)
      | _ => none
    | .error _ => none
  else none

/-- The pointers of the `P` fields that a string asks for, as far as the block can be followed. -/
def pointerFields (target : Target) : List UInt8 → Window → List (PointerEncoding × Window)
  | [], _ => []
  | code :: codes, block =>
    if isField code then
      match fieldEnd target code block with
      | .ok rest => (pointerField? code block).toList ++ pointerFields target codes rest
      | .error _ => []
    else []

/-- The pointer that an augmentation string declares as the personality routine together with the bytes
after the CIE's own fields: the last one that is read. -/
def personalitySource? (target : Target) (codes : List UInt8) (window : Window) :
    Option (PointerEncoding × Window) :=
  match codes with
  | [] => none
  | code :: codes =>
    if code = 'z'.toUInt8 then
      match window.block with
      | .ok (block, _) => (pointerFields target codes block).getLast?
      | .error _ => none
    else none

/-- The personality routine is the pointer in an encoding at the start of a window, or there is none. -/
def PersonalityAt (target : Target) (declared : Declared) :
    Option (PointerEncoding × Window) → Prop
  | none => declared.personality = none
  | some (encoding, start) => ∃ pointer rest, start.pointer target encoding none = .ok (pointer, rest) ∧
      declared.personality = some pointer

variable {source : Option (PointerEncoding × Window)}

theorem PersonalityAt.congr (h : declared.PersonalityAt target source)
    (hsame : found.personality = declared.personality) : found.PersonalityAt target source := by
  cases source with
  | none => exact hsame.trans h
  | some source =>
      obtain ⟨pointer, rest, hread, hpersonality⟩ := h
      exact ⟨pointer, rest, hread, hsame.trans hpersonality⟩

/-- Only a `P` changes what is declared about the personality routine. -/
theorem personality_afterField_of_ne (hcode : isField code) (hne : code ≠ 'P'.toUInt8)
    (declared : Declared) (block : Window) :
    (afterField target code declared block).personality = declared.personality := by
  rcases isField_cases code with rfl | rfl | rfl | hno
  · exact absurd rfl hne
  · obtain ⟨_, hafter⟩ := exists_readLsdaEncoding declared block
    exact congrArg (·.personality) hafter
  · obtain ⟨_, hafter⟩ := exists_readFdeEncoding declared block
    exact congrArg (·.personality) hafter
  · simp [hno] at hcode

/-- A `P` field that is read declares its own pointer, if it has one. -/
theorem PersonalityAt.readPersonality (h : declared.PersonalityAt target source)
    (hend : (readPersonality target declared block).2 = .ok rest) :
    (readPersonality target declared block).1.PersonalityAt target
      ((pointerField? 'P'.toUInt8 block).or source) := by
  unfold Declared.readPersonality at hend ⊢
  cases hbyte : block.byte with
  | error fault => simp [hbyte] at hend
  | ok read =>
      obtain ⟨byte, afterByte⟩ := read
      simp only [hbyte] at hend ⊢
      cases hdecode : PointerEncoding.decode byte with
      | error fault => simp [hdecode] at hend
      | ok decoded =>
          cases decoded with
          | none =>
              simp only [pointerField?, hbyte, hdecode, if_pos]
              exact h.congr rfl
          | some encoding =>
              simp only [hdecode] at hend ⊢
              cases hpointer : afterByte.pointer target encoding none with
              | error fault => simp [hpointer] at hend
              | ok read =>
                  simp only [pointerField?, hbyte, hdecode, if_pos]
                  exact ⟨read.1, read.2, hpointer, rfl⟩

/-- A `P` field that cannot be read leaves the personality routine as it was declared before. -/
theorem personality_readPersonality_of_error
    (hend : (readPersonality target declared block).2 = .error fault) :
    (readPersonality target declared block).1.personality = declared.personality := by
  unfold readPersonality at hend ⊢
  split
  · rfl
  · next hbyte =>
      simp only [hbyte] at hend
      split
      · rfl
      · rfl
      · next hdecode =>
          simp only [hdecode] at hend ⊢
          split
          · rfl
          · next hpointer => simp [hpointer] at hend

theorem PersonalityAt.afterField (h : declared.PersonalityAt target source) (hcode : isField code)
    (hend : fieldEnd target code block = .ok rest) :
    (afterField target code declared block).PersonalityAt target
      ((pointerField? code block).or source) := by
  by_cases hP : code = 'P'.toUInt8
  · subst hP
    rw [← readPersonality_end target declared block] at hend
    exact h.readPersonality hend
  · rw [pointerField?, if_neg hP, Option.none_or]
    exact h.congr (personality_afterField_of_ne hcode hP declared block)

theorem PersonalityAt.afterField_of_error (h : declared.PersonalityAt target source)
    (hcode : isField code) (hend : fieldEnd target code block = .error fault) :
    (Declared.afterField target code declared block).PersonalityAt target source := by
  refine h.congr ?_
  by_cases hP : code = 'P'.toUInt8
  · subst hP
    rw [← readPersonality_end target declared block] at hend
    exact personality_readPersonality_of_error hend
  · exact personality_afterField_of_ne hcode hP declared block

/-- The last pointer of a block is the one that counts. -/
theorem PersonalityAt.readBlock (h : declared.PersonalityAt target source) (codes : List UInt8)
    (block : Window) :
    (readBlock target .fields codes declared block).1.PersonalityAt target
      ((pointerFields target codes block).getLast?.or source) := by
  induction codes generalizing declared block source with
  | nil => exact h
  | cons code codes ih =>
      by_cases hcode : isField code = true
      · rw [readBlock_field hcode, pointerFields, if_pos hcode]
        cases hend : fieldEnd target code block with
        | error fault => exact (h.afterField_of_error hcode hend).congr rfl
        | ok rest =>
            have hlast : (pointerField? code block).toList.getLast? = pointerField? code block := by
              cases pointerField? code block <;> rfl
            simp only
            rw [List.getLast?_append, hlast, Option.or_assoc]
            exact ih (h.afterField hcode hend) rest
      · rw [readBlock_unknown (by simpa using hcode), pointerFields, if_neg hcode]
        exact h.congr rfl

/-- Where the personality routine of a CIE was read. -/
theorem personalityAt_read (target : Target) (codes : List UInt8) (window : Window) :
    (read target codes window).1.PersonalityAt target (personalitySource? target codes window) := by
  cases codes with
  | nil => rfl
  | cons code codes =>
      by_cases hz : code = 'z'.toUInt8
      · subst hz
        simp only [read, AugmentationState.transition_z, personalitySource?, if_pos]
        cases window.block with
        | error fault => rfl
        | ok read =>
            have hnothing : (nothing { Features.none with data := true }).PersonalityAt target none :=
              rfl
            have hblock := hnothing.readBlock codes read.1
            rwa [Option.or_none] at hblock
      · simp only [read, AugmentationState.transition_not_z hz, personalitySource?, if_neg hz]
        rfl

end UnwindTables.Declared
