/-
UnwindTables.Proofs.Record.CursorTheorems — records are read by cursors.

The readers of records, of CIEs and of FDEs, as the cursors go through them: which cursor is asked for which field,
where a block gets a cursor of its own, and which offsets are computed. Each comes to what the reader of windows
says, without a trap and with sound events only (`Reading.Follows`).

The two places that take care are where a fault is recovered from. A field of a block that could not be read is
reported at the place of the block's cursor, which has stayed where the field is. And after a block that does not fit
in its record the cursor passes over what is left, which is the same whether its length has been read or not.
-/
import UnwindTables.Fde
import UnwindTables.Proofs.Bytes.ReadingTheorems

namespace UnwindTables

/-- A byte that stands for no encoding is what its fault is about. -/
theorem PointerEncoding.decode_eq_error {byte : UInt8} {fault : Fault} (h : decode byte = .error fault) :
    fault = .unsupportedEncoding byte := by
  unfold decode at h
  split at h
  · cases h
  · split at h
    · cases h
    · exact (Except.error.inj h).symm

namespace Reading

variable {loaded : LoadedSection} {cursor : Cursor}

/-! ## 1. Records -/

/-- The format and the length of a record. -/
def recordLength (order : ByteOrder) : Reading (Option (RecordFormat × Nat)) := do
  let first ← word order 4
  if first = 0 then
    return none
  else if first = RecordFormat.escape then
    let length ← word order 8
    return some (.dwarf64, length)
  else
    return some (.dwarf32, first)

/-- A record, or none if there is a terminator. -/
def record (order : ByteOrder) : Reading (Option Record) := do
  let start ← offset
  match ← recordLength order with
  | none => return none
  | some (format, length) =>
    if (← len) < length then
      fail (.malformed start .lengthOverrun)
    else
      let content ← split length
      let idOffset ← content.offset
      let (id, body) ← on content (word order 4)
      match Record.kindOf id idOffset with
      | none => fail (.malformed start .ciePointerOutOfBounds)
      | some kind => return some ⟨start, format, length, kind, ⟨← body.remaining, ← body.offset⟩⟩

/-- If there is something, the cursor is where the rest of the window is. -/
inductive LeavesSome {α β : Type} (loaded : LoadedSection) (cursor : Cursor) (pick : β → α)
    (rest : β → Window) : Option α → Cursor → Option β → Prop
  | none {after : Cursor} : LeavesSome loaded cursor pick rest none after none
  | some {after : Cursor} (left : β) (hsame : after.SameSlice cursor)
      (hshows : after.Shows loaded (rest left)) :
      LeavesSome loaded cursor pick rest (some (pick left)) after (some left)

theorem follows_recordLength (hcursor : cursor.Within loaded.bytes) (order : ByteOrder) :
    (recordLength order).Follows loaded cursor
      (LeavesSome loaded cursor (fun left => (left.1, left.2.1)) fun left => left.2.2)
      (Record.readLength order cursor.window) := by
  refine (gives_word hcursor order 4).andThen ?_
  intro first after hafter hsame
  by_cases hzero : first = 0
  · simp only [hzero, ↓reduceIte]
    exact follows_pure .none
  by_cases hescape : first = RecordFormat.escape
  · simp only [hescape, ↓reduceIte]
    refine (gives_word hafter order 8).andThen ?_
    intro length last hlast hsame'
    exact follows_pure
      (.some (RecordFormat.dwarf64, length, last.window) (hsame'.trans hsame) ⟨hlast, rfl⟩)
  · simp only [hzero, hescape, ↓reduceIte]
    exact follows_pure (.some (RecordFormat.dwarf32, first, after.window) hsame ⟨hafter, rfl⟩)

theorem follows_record (hcursor : cursor.Within loaded.bytes) (order : ByteOrder)
    (hsome : cursor.window.size ≠ 0) :
    (record order).Follows loaded cursor (LeavesSome loaded cursor Prod.fst Prod.snd)
      (Record.read order cursor.window) := by
  rw [Record.read, if_neg hsome]
  refine (finds_offset hcursor).andThen ?_
  refine (follows_recordLength hcursor order).bind ?_
  intro found after left hleft
  cases hleft with
  | none => exact follows_pure .none
  | some left hsame hshows =>
      obtain ⟨format, length, rest⟩ := left
      obtain ⟨hafter, rfl⟩ := hshows
      refine (finds_len hafter).andThen ?_
      dsimp only
      by_cases hlong : after.window.size < length
      · rw [if_pos hlong, if_pos hlong]
        exact follows_fail _
      · rw [if_neg hlong, if_neg hlong]
        refine (gives_split hafter length).follows.bind ?_
        intro content behind left hleft
        obtain ⟨content', rest⟩ := left
        obtain ⟨hcontent, hsame', hshows⟩ := hleft
        obtain ⟨hcontent, rfl⟩ : content.Shows loaded content' := hcontent
        refine (finds_lift hcontent.ends_offset).andThen ?_
        refine (gives_word hcontent order 4).follows.on.bind ?_
        intro found after left hleft
        obtain ⟨id, body⟩ := found
        obtain ⟨id', body'⟩ := left
        obtain ⟨⟨hid, -, hbody⟩, rfl⟩ := hleft
        obtain rfl : id = id' := hid
        obtain ⟨hbody, rfl⟩ : body.Shows loaded body' := hbody
        have hplace : content.window.offset = content.place := rfl
        dsimp only
        rw [hplace]
        cases Record.kindOf id content.place with
        | none => exact follows_fail _
        | some kind =>
            refine (finds_lift hbody.ends_remaining).andThen ?_
            refine (finds_lift hbody.ends_offset).andThen ?_
            exact follows_pure (.some (_, rest) (hsame'.trans hsame) hshows)

/-- The section offset after a record. -/
def recordStop (record : Record) : Run Nat := do
  Run.add (← Run.add record.offset record.format.lengthSize) record.length

/-- A record lies in a section: it ends there, and its body is a slice of it. -/
structure Lies (loaded : LoadedSection) (record : Record) : Prop where
  stop_le : record.stop ≤ loaded.bytes.length
  body : Cursor.Within ⟨record.body.bytes, record.body.offset, 0⟩ loaded.bytes

theorem Lies.ends_stop {record : Record} (h : Lies loaded record) :
    (recordStop record).Ends (Event.Sound loaded) (· = record.stop) := by
  have hstop := h.stop_le
  have hfits := loaded.fits
  rw [Record.stop] at hstop
  rw [recordStop, Run.add_eq (by omega), Run.pure_bind, Run.add_eq (by omega)]
  exact Run.Ends.pure rfl

/-! ## 2. CIEs -/

/-- The register number of a CIE. -/
def register : CieVersion → Reading UInt64
  | .one => do return (← byte).toUInt64
  | .three => unsigned

/-- A byte that declares an encoding: what is declared with it, or `met` and the fault beside it. -/
def encodingByte (met : Declared) (declare : Option UInt8 → Declared) :
    Reading (Declared × Option Fault) := do
  match ← attempt byte with
  | .ok byte => return (declare (Declared.declaredByte byte), none)
  | .error fault => return (met, some fault)

/-- An encoding of pointers to language-specific data. -/
def lsdaEncoding (declared : Declared) : Reading (Declared × Option Fault) :=
  let met := { declared with features := { declared.features with lsda := true } }
  encodingByte met fun encoding => { met with lsdaEncoding := encoding }

/-- An encoding of the addresses of functions. -/
def fdeEncoding (declared : Declared) : Reading (Declared × Option Fault) :=
  let met := { declared with features := { declared.features with fdeEncoding := true } }
  encodingByte met fun encoding => { met with fdeEncoding := encoding }

/-- An encoding and the personality routine. -/
def personality (target : Target) (declared : Declared) : Reading (Declared × Option Fault) := do
  let met := { declared with features := { declared.features with personality := true } }
  match ← attempt byte with
  | .error fault => return (met, some fault)
  | .ok byte =>
    match PointerEncoding.decode byte with
    | .error fault => return (met, some fault)
    | .ok none => return (met, none)
    | .ok (some encoding) =>
      let encoded := { met with personalityEncoding := some byte }
      match ← attempt (pointer target encoding none) with
      | .error fault => return (encoded, some fault)
      | .ok pointer => return ({ encoded with personality := some pointer }, none)

/-- The field that an action asks for. -/
def field (target : Target) (action : AugmentationAction) (declared : Declared) :
    Reading (Declared × Option Fault) :=
  match action with
  | .readPersonality => personality target declared
  | .readLsdaEncoding => lsdaEncoding declared
  | .readFdeEncoding => fdeEncoding declared
  | .readLength | .skipRest | .ignore => pure (declared, none)

/-- A fault as it is reported by a block whose cursor is at an offset. -/
def reportedAt (offset : Nat) : Fault → Fault
  | .malformed .. => .invalidAugmentation offset
  | fault => fault

/-- A field of a block has been read, and the cursor is where the rest of the block is; or it could not be read, and
the cursor is still at the field. -/
inductive LeavesField (loaded : LoadedSection) :
    Declared × Option Fault → Cursor → Declared × Except Fault Window → Prop
  | read {declared : Declared} {after : Cursor} {rest : Window} (hshows : after.Shows loaded rest) :
      LeavesField loaded (declared, none) after (declared, .ok rest)
  | failed {declared : Declared} {after : Cursor} {fault : Fault} (hwithin : after.Within loaded.bytes)
      (hplace : ∀ offset reason, fault = .malformed offset reason → offset = after.place) :
      LeavesField loaded (declared, some fault) after (declared, .error fault)

theorem gives_register (hcursor : cursor.Within loaded.bytes) (version : CieVersion) :
    (register version).Gives loaded cursor Eq (Cie.readRegister version cursor.window) := by
  cases version with
  | one =>
      refine (gives_byte hcursor).bind ?_
      intro byte byte' after hbyte hafter
      exact gives_pure (by rw [hbyte]) hafter
  | three => exact gives_unsigned hcursor

theorem follows_encodingByte (hcursor : cursor.Within loaded.bytes) (met : Declared)
    (declare : Option UInt8 → Declared) :
    (encodingByte met declare).Follows loaded cursor (LeavesField loaded)
      (.ok (match cursor.window.byte with
        | .ok (byte, rest) => (declare (Declared.declaredByte byte), .ok rest)
        | .error fault => (met, .error fault))) := by
  refine (gives_byte hcursor).attempt.andThen ?_
  intro outcome after hagrees
  generalize cursor.window.byte = result at hagrees ⊢
  cases hagrees with
  | ok hbyte hafter =>
      obtain rfl := hbyte
      exact follows_pure (.read ⟨hafter, rfl⟩)
  | error hafter _ hplace => exact follows_pure (.failed hafter hplace)

theorem follows_personality (hcursor : cursor.Within loaded.bytes) (declared : Declared) :
    (personality loaded.target declared).Follows loaded cursor (LeavesField loaded)
      (.ok (declared.readPersonality loaded.target cursor.window)) := by
  refine (gives_byte hcursor).attempt.andThen ?_
  intro outcome after hagrees
  rw [Declared.readPersonality]
  generalize cursor.window.byte = result at hagrees ⊢
  cases hagrees with
  | error hafter _ hplace => exact follows_pure (.failed hafter hplace)
  | @ok byte _ _ hbyte hafter _ =>
      obtain rfl := hbyte
      dsimp only
      cases hdecode : PointerEncoding.decode byte with
      | error fault =>
          obtain rfl := PointerEncoding.decode_eq_error hdecode
          exact follows_pure (.failed hafter (by simp))
      | ok encoding =>
          cases encoding with
          | none => exact follows_pure (.read ⟨hafter, rfl⟩)
          | some encoding =>
              dsimp only
              refine (gives_pointer hafter encoding none).attempt.andThen ?_
              intro outcome last hagrees
              generalize Window.pointer _ _ encoding none = result at hagrees ⊢
              cases hagrees with
              | error hlast _ hplace => exact follows_pure (.failed hlast hplace)
              | ok hpointer hlast =>
                  obtain rfl := hpointer
                  exact follows_pure (.read ⟨hlast, rfl⟩)

theorem follows_field (hcursor : cursor.Within loaded.bytes) (action : AugmentationAction)
    (declared : Declared) :
    (field loaded.target action declared).Follows loaded cursor (LeavesField loaded)
      (.ok (declared.readField loaded.target action cursor.window)) := by
  cases action with
  | readPersonality => exact follows_personality hcursor declared
  | readLsdaEncoding =>
      rw [field, lsdaEncoding, Declared.readField, Declared.readLsdaEncoding]
      exact follows_encodingByte hcursor _ _
  | readFdeEncoding =>
      rw [field, fdeEncoding, Declared.readField, Declared.readFdeEncoding]
      exact follows_encodingByte hcursor _ _
  | readLength | skipRest | ignore => exact follows_pure (.read ⟨hcursor, rfl⟩)

/-- A fault of a field is reported where the cursor is, which is where the field is. -/
theorem reportedAt_place {fault : Fault}
    (hplace : ∀ offset reason, fault = .malformed offset reason → offset = cursor.place) :
    reportedAt cursor.place fault = fault.withinBlock := by
  cases fault with
  | malformed offset reason =>
      obtain rfl := hplace offset reason rfl
      rfl
  | _ => rfl

/-- The fields that the rest of a string asks for. -/
def fields (target : Target) : AugmentationState → List UInt8 → Declared → Reading (Declared × BlockEnding)
  | _, [], declared => return (declared, .complete)
  | state, code :: codes, declared => do
    let (next, action) := state.transition code
    if action = .skipRest then
      return (declared.skip, .unknownCode code)
    else
      match ← field target action declared with
      | (declared, none) => fields target next codes declared
      | (declared, some fault) =>
        let offset ← offset
        return (declared.skip, .failed (reportedAt offset fault))

/-- **The fields of a block are followed character by character.** -/
theorem follows_fields (hcursor : cursor.Within loaded.bytes) (state : AugmentationState)
    (codes : List UInt8) (declared : Declared) :
    (fields loaded.target state codes declared).Yields loaded cursor
      (.ok (declared.readBlock loaded.target state codes cursor.window)) := by
  induction codes generalizing state declared cursor with
  | nil => exact follows_pure rfl
  | cons code codes ih =>
      rw [fields, Declared.readBlock]
      by_cases hskip : (state.transition code).2 = .skipRest
      · simp only [hskip, ↓reduceIte]
        exact follows_pure rfl
      · simp only [hskip, ↓reduceIte]
        refine (follows_field hcursor (state.transition code).2 declared).andThen ?_
        intro found after hleaves
        generalize declared.readField _ _ _ = left at hleaves ⊢
        cases hleaves with
        | read hshows =>
            obtain ⟨hafter, rfl⟩ := hshows
            exact ih hafter _ _
        | failed hafter hplace =>
            refine (finds_offset hafter).andThen ?_
            rw [reportedAt_place hplace]
            exact follows_pure rfl

/-- What an augmentation string declares. -/
def augmentation (target : Target) (codes : List UInt8) : Reading (Declared × BlockEnding) :=
  match codes with
  | [] => pure (Declared.nothing .none, .complete)
  | code :: codes =>
    match AugmentationState.start.transition code with
    | (state, .readLength) => do
      let found := Declared.nothing { Features.none with data := true }
      let start ← offset
      match ← attempt block with
      | .ok block =>
        let (ending, _) ← on block (fields target state codes found)
        return ending
      | .error _ =>
        skip (← len)
        return (found.skip, .failed (.invalidAugmentation start))
    | (_, _) => pure (Declared.nothing { Features.none with malformed := true }, .complete)

/-- **What an augmentation string declares is what the reader of windows says, and the cursor is behind the block.** -/
theorem follows_augmentation (hcursor : cursor.Within loaded.bytes) (codes : List UInt8) :
    (augmentation loaded.target codes).Follows loaded cursor
      (fun found after left => found = (left.1, left.2.1) ∧ after.Shows loaded left.2.2)
      (.ok (Declared.read loaded.target codes cursor.window)) := by
  cases codes with
  | nil => exact follows_pure ⟨rfl, hcursor, rfl⟩
  | cons code codes =>
      rw [augmentation, Declared.read]
      generalize AugmentationState.start.transition code = next
      obtain ⟨state, action⟩ := next
      cases action with
      | readLength =>
          refine (finds_offset hcursor).andThen ?_
          refine (gives_block hcursor).attempt.andThen ?_
          intro outcome after hagrees
          have hplace : cursor.window.offset = cursor.place := rfl
          have hall := hcursor.dropAll_window
          dsimp only
          rw [hplace]
          generalize cursor.window.block = result at hagrees ⊢
          cases hagrees with
          | ok hblock hafter =>
              obtain ⟨hblock, rfl⟩ := hblock
              refine (follows_fields hblock state codes _).on.andThen ?_
              intro found last hfound
              obtain ⟨ending, block⟩ := found
              obtain ⟨rfl, rfl⟩ := hfound
              exact follows_pure ⟨rfl, hafter, rfl⟩
          | error hafter hsame =>
              -- The length may have been read or not: what is left behind the rest of the slice is the same.
              refine (finds_len hafter).andThen ?_
              refine (gives_skip hafter).follows.andThen ?_
              intro _ last hleaves
              obtain ⟨-, -, hlast, hrest⟩ := hleaves
              refine follows_pure ⟨rfl, hlast, ?_⟩
              rw [hrest, hafter.dropAll_window, hsame.base, hsame.data, hall]
      | _ => exact follows_pure ⟨rfl, hcursor, rfl⟩

/-- The CIE that a record holds. -/
def cie (target : Target) (record : Record) : Reading (Cie × BlockEnding) := do
  let number ← byte
  match CieVersion.ofNumber? number with
  | none => fail (.unsupportedCieVersion record.offset number)
  | some version =>
    let codes ← text
    let codeAlignment ← unsigned
    let dataAlignment ← signed
    let returnAddressRegister ← register version
    let (declared, ending) ← augmentation target codes
    let start ← offset
    let stop ← recordStop record
    return (
      { offset := record.offset
        format := record.format
        length := record.length
        version
        augmentation := codes
        codeAlignment
        dataAlignment
        returnAddressRegister
        declared
        instructions := ⟨start, stop⟩ },
      ending)

theorem follows_cie {record : Record} (hrecord : Lies loaded record)
    (hcursor : cursor.Shows loaded record.body) :
    (cie loaded.target record).Yields loaded cursor
      (Cie.read loaded.target record) := by
  obtain ⟨hcursor, hbody⟩ := hcursor
  rw [cie, Cie.read, ← hbody]
  refine (gives_byte hcursor).andThen ?_
  intro number after hafter _
  dsimp only
  cases CieVersion.ofNumber? number with
  | none => exact follows_fail _
  | some version =>
      refine (gives_text hafter).andThen ?_
      intro codes after hafter _
      refine (gives_unsigned hafter).andThen ?_
      intro codeAlignment after hafter _
      refine (gives_signed hafter).andThen ?_
      intro dataAlignment after hafter _
      refine (gives_register hafter version).andThen ?_
      intro returnAddressRegister after hafter _
      refine (follows_augmentation hafter codes).andThen ?_
      intro found after hfound
      obtain ⟨rfl, hafter, hrest⟩ := hfound
      refine (finds_offset hafter).andThen ?_
      refine (finds_lift hrecord.ends_stop).andThen ?_
      refine follows_pure ?_
      rw [← hrest]
      rfl

/-! ## 3. FDEs -/

/-- The language-specific data in a block. -/
def lsda (target : Target) (byte : UInt8) (function : UInt64) : Reading (Option Pointer) := do
  match ← ofExcept (PointerEncoding.decode byte) with
  | none => return none
  | some encoding =>
    let pointer ← pointer target encoding (some function)
    return if pointer.raw = 0 then none else some pointer

/-- The augmentation data of an FDE. -/
def extra (target : Target) (declared : Declared) (function : UInt64) : Reading Fde.Extra :=
  if declared.features.data then do
    let start ← offset
    match ← attempt block with
    | .error _ => fail (.invalidAugmentation start)
    | .ok block =>
      let span := ⟨← block.offset, ← offset⟩
      match declared.lsdaEncoding with
      | none => return ⟨none, none, span⟩
      | some byte =>
        match ← on block (attempt (lsda target byte function)) with
        | (.ok lsda, _) => return ⟨lsda, none, span⟩
        | (.error fault, _) => return ⟨none, some fault.withinBlock, span⟩
  else do
    return ⟨none, none, ⟨← offset, ← offset⟩⟩

/-- The FDE that a record holds. -/
def fde (target : Target) (image : Option Image) (cie : Cie) (record : Record) :
    Reading (Fde × Option Fault) := do
  let encoding ← ofExcept cie.pointerEncoding
  let pcBegin ← pointer target encoding none
  let pcRange ← pointer target encoding.valueOnly none
  if Fde.validStart image pcBegin.address then
    let extra ← extra target cie.declared pcBegin.address
    let start ← offset
    let stop ← recordStop record
    return (
      { offset := record.offset
        format := record.format
        length := record.length
        cie := cie.offset
        pcBegin := pcBegin.address
        pcRange := pcRange.address
        lsda := extra.lsda
        augmentationData := extra.span
        instructions := ⟨start, stop⟩ },
      extra.fault)
  else
    fail (.invalidStart record.offset pcBegin.address)

theorem follows_lsda (hcursor : cursor.Within loaded.bytes) (byte : UInt8) (function : UInt64) :
    (lsda loaded.target byte function).Yields loaded cursor
      (Fde.readLsda loaded.target byte function cursor.window) := by
  refine follows_ofExcept_bind _ ?_
  intro encoding
  cases encoding with
  | none => exact follows_pure rfl
  | some encoding =>
      refine (gives_pointer hcursor encoding (some function)).andThen ?_
      intro pointer after hafter _
      exact follows_pure rfl

theorem follows_extra (hcursor : cursor.Within loaded.bytes) (declared : Declared) (function : UInt64) :
    (extra loaded.target declared function).Follows loaded cursor
      (fun found after left => found = left.1 ∧ after.Shows loaded left.2)
      (Fde.readExtra loaded.target declared function cursor.window) := by
  have hplace : cursor.window.offset = cursor.place := rfl
  rw [extra, Fde.readExtra, hplace]
  by_cases hdata : declared.features.data
  · rw [if_pos hdata, if_pos hdata]
    refine (finds_offset hcursor).andThen ?_
    refine (gives_block hcursor).attempt.andThen ?_
    intro outcome after hagrees
    generalize cursor.window.block = result at hagrees ⊢
    cases hagrees with
    | error hafter => exact follows_fail _
    | ok hblock hafter =>
        obtain ⟨hblock, rfl⟩ := hblock
        refine (finds_lift hblock.ends_offset).andThen ?_
        refine (finds_offset hafter).andThen ?_
        cases declared.lsdaEncoding with
        | none => exact follows_pure ⟨rfl, hafter, rfl⟩
        | some byte =>
            refine (follows_lsda hblock byte function).attempt.on.andThen ?_
            intro found last hfound
            obtain ⟨outcome, block⟩ := found
            obtain ⟨hcomes, rfl⟩ := hfound
            dsimp only at hcomes ⊢
            generalize Fde.readLsda _ _ _ _ = result at hcomes ⊢
            cases hcomes with
            | ok hlsda =>
                obtain rfl := hlsda
                exact follows_pure ⟨rfl, hafter, rfl⟩
            | error => exact follows_pure ⟨rfl, hafter, rfl⟩
  · rw [if_neg hdata, if_neg hdata]
    refine (finds_offset hcursor).andThen ?_
    refine (finds_offset hcursor).andThen ?_
    exact follows_pure ⟨rfl, hcursor, rfl⟩

theorem follows_fde {record : Record} (hrecord : Lies loaded record)
    (hcursor : cursor.Shows loaded record.body) (image : Option Image) (cie : Cie) :
    (fde loaded.target image cie record).Yields loaded cursor
      (Fde.read loaded.target image cie record) := by
  obtain ⟨hcursor, hbody⟩ := hcursor
  rw [fde, Fde.read, ← hbody]
  refine follows_ofExcept_bind _ ?_
  intro encoding
  refine (gives_pointer hcursor encoding none).andThen ?_
  intro pcBegin after hafter _
  refine (gives_pointer hafter encoding.valueOnly none).andThen ?_
  intro pcRange after hafter _
  dsimp only
  by_cases hstart : Fde.validStart image pcBegin.address
  · rw [if_pos hstart, if_pos hstart]
    refine (follows_extra hafter cie.declared pcBegin.address).bind ?_
    intro found after left hleft
    obtain ⟨extra, rest⟩ := left
    obtain ⟨rfl, hafter, hrest⟩ := hleft
    refine (finds_offset hafter).andThen ?_
    refine (finds_lift hrecord.ends_stop).andThen ?_
    obtain rfl : after.window = rest := hrest
    exact follows_pure rfl
  · rw [if_neg hstart, if_neg hstart]
    exact follows_fail _

end Reading

end UnwindTables
