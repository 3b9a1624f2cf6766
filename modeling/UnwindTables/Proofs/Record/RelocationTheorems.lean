/-
UnwindTables.Proofs.Record.RelocationTheorems — a record of a section that is loaded somewhere else.

An image can be loaded at any address, and its section, its code and its data move together then
(`Target.relocate`). Nothing is to be read differently because of it: the addresses that are relative
to something that moved have moved as far, once and not more often, and nothing else has changed. This
module states it for one pointer, one CIE and one FDE, whatever the distance is and although addresses
wrap around.

## How the proof goes

A pointer moves as the base of its application does (`Window.pointer_relocate`), which for a pointer
relative to a function is the way that the start of the function moves. What a CIE declares, and where
its personality routine is stored, are read before any base is added (`Declared.fieldEnd_relocate`). So
everything that is read in the one image is read in the other one, from the same places, and every
address by the same pointer (`Cie.exists_relocated`, `Fde.relocated_cases`).
-/
import UnwindTables.Proofs.Pointer.StoreTheorems
import UnwindTables.Proofs.Record.ContentTheorems

namespace UnwindTables

variable (delta : UInt64)

/-! ## 1. Pointers -/

/-- The addresses of an image that is loaded `delta` bytes further on. The search table is not a part of
the section that is read. -/
def Bases.relocate (bases : Bases) : Bases :=
  { bases with
    ehFrame := bases.ehFrame + delta
    text := bases.text.map (· + delta)
    data := bases.data.map (· + delta) }

/-- A section in an image that is loaded `delta` bytes further on. -/
def Target.relocate (target : Target) : Target :=
  { target with bases := target.bases.relocate delta }

namespace Application

/-- Whether values are relative to something that is loaded. -/
def isLoaded : Application → Bool
  | pcrel | textrel | datarel => true
  | absolute | funcrel | aligned => false

/-- What decides how a pointer moves: what it is relative to itself, or what the start of the function
is relative to if it is relative to that. -/
def follow (application owner : Application) : Application :=
  match application with
  | funcrel => owner
  | application => application

/-- An address in an image that is loaded `delta` bytes further on. -/
def relocate (size : AddressSize) (application : Application) (address : UInt64) : UInt64 :=
  if application.isLoaded then size.truncate (address + delta) else address

@[simp] theorem follow_funcrel (application : Application) :
    application.follow funcrel = application := by
  cases application <;> rfl

end Application

/-- A pointer in an image that is loaded `delta` bytes further on. -/
def Pointer.relocate (size : AddressSize) (application : Application) (pointer : Pointer) : Pointer :=
  { pointer with address := application.relocate delta size pointer.address }

@[simp] theorem Target.order_relocate (target : Target) :
    (target.relocate delta).order = target.order := rfl

@[simp] theorem Target.addressSize_relocate (target : Target) :
    (target.relocate delta).addressSize = target.addressSize := rfl

/-- The way back. -/
theorem Target.relocate_neg (target : Target) : (target.relocate delta).relocate (-delta) = target := by
  have hback : ∀ address : UInt64, address + delta + -delta = address := by
    intro address
    rw [UInt64.add_assoc, UInt64.add_right_neg, UInt64.add_zero]
  obtain ⟨order, size, ⟨ehFrame, ehFrameHdr, text, data⟩⟩ := target
  cases text <;> cases data <;> simp [relocate, Bases.relocate, hback]

/-- An address that is added to may be cut before. -/
theorem AddressSize.truncate_truncate_add (size : AddressSize) (a b : UInt64) :
    size.truncate (size.truncate a + b) = size.truncate (a + b) := by
  rw [UInt64.add_comm, UInt64.add_comm a]
  exact truncate_add b (truncate_truncate size a)

/-- What is added to a base before the value of a pointer may be added to its address. -/
theorem AddressSize.truncate_base (size : AddressSize) (base raw : UInt64) :
    size.truncate (base + delta + raw) = size.truncate (size.truncate (base + raw) + delta) := by
  rw [truncate_truncate_add, UInt64.add_assoc, UInt64.add_comm delta, ← UInt64.add_assoc]

/-- What a pointer is relative to is known in both images or in none, and the pointer moves as it. -/
theorem Target.base_relocate (target : Target) (application owner : Application) (offset : Nat)
    (function : Option UInt64) :
    (∃ fault, (target.site offset function).base application = .error fault ∧
      ((target.relocate delta).site offset
        (function.map (owner.relocate delta target.addressSize))).base application = .error fault) ∨
    ∃ base base', (target.site offset function).base application = .ok base ∧
      ((target.relocate delta).site offset
        (function.map (owner.relocate delta target.addressSize))).base application = .ok base' ∧
      ∀ raw, target.addressSize.truncate (base' + raw) =
        (application.follow owner).relocate delta target.addressSize
          (target.addressSize.truncate (base + raw)) := by
  have hmoved : ∀ base raw, target.addressSize.truncate (base + delta + raw) =
      target.addressSize.truncate (target.addressSize.truncate (base + raw) + delta) :=
    target.addressSize.truncate_base delta
  cases application with
  | absolute => exact Or.inr ⟨0, 0, rfl, rfl, fun _ => rfl⟩
  | aligned => exact Or.inl ⟨_, rfl, rfl⟩
  | pcrel =>
      have hfield : (target.relocate delta).fieldAddress offset =
          target.fieldAddress offset + delta := by
        simp only [fieldAddress, relocate, Bases.relocate]
        rw [UInt64.add_assoc, UInt64.add_comm delta, ← UInt64.add_assoc]
      exact Or.inr ⟨_, _, rfl, congrArg Except.ok hfield, hmoved _⟩
  | textrel =>
      obtain ⟨order, size, ⟨ehFrame, ehFrameHdr, text, data⟩⟩ := target
      cases text with
      | none => exact Or.inl ⟨_, rfl, rfl⟩
      | some text => exact Or.inr ⟨text, text + delta, rfl, rfl, hmoved text⟩
  | datarel =>
      obtain ⟨order, size, ⟨ehFrame, ehFrameHdr, text, data⟩⟩ := target
      cases data with
      | none => exact Or.inl ⟨_, rfl, rfl⟩
      | some data => exact Or.inr ⟨data, data + delta, rfl, rfl, hmoved data⟩
  | funcrel =>
      cases function with
      | none => exact Or.inl ⟨_, rfl, rfl⟩
      | some function =>
          refine Or.inr ⟨function, _, rfl, rfl, fun raw => ?_⟩
          change target.addressSize.truncate (owner.relocate delta target.addressSize function + raw) =
            owner.relocate delta target.addressSize (target.addressSize.truncate (function + raw))
          unfold Application.relocate
          split
          · rw [AddressSize.truncate_truncate_add, hmoved]
          · rfl

theorem PointerEncoding.resolve_relocate (target : Target) (encoding : PointerEncoding)
    (owner : Application) (order : ByteOrder) (offset : Nat) (function : Option UInt64)
    (bytes : List UInt8) :
    encoding.resolve order ((target.relocate delta).site offset
        (function.map (owner.relocate delta target.addressSize))) bytes =
      (encoding.resolve order (target.site offset function) bytes).map
        (Prod.map
          (Pointer.relocate delta target.addressSize (encoding.application.follow owner)) id) := by
  have hsize : ∀ target : Target, ∀ function, (target.site offset function).addressSize =
      target.addressSize := fun _ _ => rfl
  unfold resolve
  rw [hsize, hsize, Target.addressSize_relocate]
  cases encoding.format.read? order target.addressSize bytes with
  | none => rfl
  | some read =>
      rcases target.base_relocate delta encoding.application owner offset function with
        ⟨fault, hbase, hbase'⟩ | ⟨base, base', hbase, hbase', hmoved⟩
      · simp only [hbase, hbase']
        rfl
      · simp only [hbase, hbase', hmoved]
        rfl

namespace Window

variable (window : Window) (target : Target) (encoding : PointerEncoding)

/-- **A pointer that is read moves as what it is relative to**, and nothing else about it changes. -/
theorem pointer_relocate (owner : Application) (function : Option UInt64) :
    window.pointer (target.relocate delta) encoding
        (function.map (owner.relocate delta target.addressSize)) =
      (window.pointer target encoding function).map
        (Prod.map
          (Pointer.relocate delta target.addressSize (encoding.application.follow owner)) id) := by
  unfold pointer
  rw [Target.order_relocate, PointerEncoding.resolve_relocate]
  cases encoding.resolve target.order (target.site window.offset function) window.bytes with
  | ok read => rfl
  | error fault => cases fault <;> rfl

/-- The same for a pointer that does not belong to a function. -/
theorem pointer_relocate_none :
    window.pointer (target.relocate delta) encoding none =
      (window.pointer target encoding none).map
        (Prod.map (Pointer.relocate delta target.addressSize encoding.application) id) := by
  have hpointer := window.pointer_relocate delta target encoding .funcrel none
  rwa [Application.follow_funcrel] at hpointer

end Window

/-! ## 2. CIEs -/

namespace Declared

open AugmentationState (isField isField_cases)

variable {declared declared' : Declared} {code : UInt8}

/-- The same is declared, the personality routine apart. -/
def SameApart (declared declared' : Declared) : Prop :=
  ∃ personality, declared' = { declared with personality }

theorem SameApart.skip (h : declared.SameApart declared') : declared.skip.SameApart declared'.skip := by
  obtain ⟨personality, rfl⟩ := h
  exact ⟨personality, rfl⟩

/-- How far a field reaches does not depend on where the image is loaded. -/
theorem fieldEnd_relocate (target : Target) (code : UInt8) (block : Window) :
    fieldEnd (target.relocate delta) code block = fieldEnd target code block := by
  unfold fieldEnd
  cases block.byte with
  | error fault => rfl
  | ok read =>
      obtain ⟨byte, rest⟩ := read
      simp only [bind, Except.bind]
      split
      · cases PointerEncoding.decode byte with
        | error fault => rfl
        | ok decoded =>
            cases decoded with
            | none => rfl
            | some encoding =>
                simp only [Window.pointer_relocate_none]
                cases rest.pointer target encoding none <;> rfl
      · rfl

theorem pointerFields_relocate (target : Target) (codes : List UInt8) (block : Window) :
    pointerFields (target.relocate delta) codes block = pointerFields target codes block := by
  induction codes generalizing block with
  | nil => rfl
  | cons code codes ih => simp only [pointerFields, fieldEnd_relocate, ih]

/-- The personality routine is stored in the same place. -/
theorem personalitySource?_relocate (target : Target) (codes : List UInt8) (window : Window) :
    personalitySource? (target.relocate delta) codes window =
      personalitySource? target codes window := by
  cases codes with
  | nil => rfl
  | cons code codes => simp only [personalitySource?, pointerFields_relocate]

theorem SameApart.readPersonality (h : declared.SameApart declared') (target : Target)
    (block : Window) :
    (declared.readPersonality target block).1.SameApart
      (declared'.readPersonality (target.relocate delta) block).1 := by
  obtain ⟨personality, rfl⟩ := h
  unfold Declared.readPersonality
  cases block.byte with
  | error fault => exact ⟨personality, rfl⟩
  | ok read =>
      obtain ⟨byte, rest⟩ := read
      simp only
      cases PointerEncoding.decode byte with
      | error fault => exact ⟨personality, rfl⟩
      | ok decoded =>
          cases decoded with
          | none => exact ⟨personality, rfl⟩
          | some encoding =>
              simp only [Window.pointer_relocate_none]
              cases rest.pointer target encoding none with
              | error fault => exact ⟨personality, rfl⟩
              | ok read => exact ⟨_, rfl⟩

theorem SameApart.afterField (h : declared.SameApart declared') (target : Target)
    (hcode : isField code) (block : Window) :
    (afterField target code declared block).SameApart
      (afterField (target.relocate delta) code declared' block) := by
  rcases isField_cases code with rfl | rfl | rfl | hno
  · exact h.readPersonality delta target block
  · obtain ⟨personality, rfl⟩ := h
    change (readLsdaEncoding _ block).1.SameApart (readLsdaEncoding _ block).1
    unfold readLsdaEncoding
    cases block.byte <;> exact ⟨personality, rfl⟩
  · obtain ⟨personality, rfl⟩ := h
    change (readFdeEncoding _ block).1.SameApart (readFdeEncoding _ block).1
    unfold readFdeEncoding
    cases block.byte <;> exact ⟨personality, rfl⟩
  · simp [hno] at hcode

theorem SameApart.readBlock (h : declared.SameApart declared') (target : Target)
    (codes : List UInt8) (block : Window) :
    (readBlock target .fields codes declared block).1.SameApart
        (readBlock (target.relocate delta) .fields codes declared' block).1 ∧
      (readBlock (target.relocate delta) .fields codes declared' block).2 =
        (readBlock target .fields codes declared block).2 := by
  induction codes generalizing declared declared' block with
  | nil => exact ⟨h, rfl⟩
  | cons code codes ih =>
      by_cases hcode : isField code = true
      · rw [readBlock_field hcode, readBlock_field hcode, fieldEnd_relocate]
        have hafter := h.afterField delta target hcode block
        cases fieldEnd target code block with
        | error fault => exact ⟨hafter.skip, rfl⟩
        | ok rest => exact ih hafter rest
      · have hunknown : isField code = false := by simpa using hcode
        rw [readBlock_unknown hunknown, readBlock_unknown hunknown]
        exact ⟨h.skip, rfl⟩

/-- The same is declared wherever the image is loaded, the address of the personality routine apart. -/
theorem sameApart_read (target : Target) (codes : List UInt8) (window : Window) :
    (read target codes window).1.SameApart (read (target.relocate delta) codes window).1 ∧
      (read (target.relocate delta) codes window).2 = (read target codes window).2 := by
  have hsame : ∀ declared : Declared, declared.SameApart declared :=
    fun declared => ⟨declared.personality, rfl⟩
  cases codes with
  | nil => exact ⟨hsame _, rfl⟩
  | cons code codes =>
      by_cases hz : code = 'z'.toUInt8
      · subst hz
        simp only [read, AugmentationState.transition_z]
        cases window.block with
        | error fault => exact ⟨hsame _, rfl⟩
        | ok read =>
            have hnothing := hsame (nothing { Features.none with data := true })
            obtain ⟨hdeclared, hending⟩ := hnothing.readBlock delta target codes read.1
            exact ⟨hdeclared, congrArg (·, read.2) hending⟩
      · simp only [read, AugmentationState.transition_not_z hz]
        exact ⟨hsame _, trivial⟩

end Declared

namespace Cie

variable {target : Target} {record : Record} {cie cie' : Cie}

/-- The same CIE in an image that is loaded `delta` bytes further on. -/
structure Relocated (target : Target) (record : Record) (cie cie' : Cie) : Prop where
  /-- Everything but the personality routine is the same. -/
  others : cie' = { cie with declared := { cie.declared with personality := cie'.declared.personality } }
  /-- The personality routine moves as what it is relative to, in the encoding that it was read in. -/
  personality : ∃ window, cie.HeadIn record window ∧
    match Declared.personalitySource? target cie.augmentation window with
    | none => cie.declared.personality = none ∧ cie'.declared.personality = none
    | some (encoding, start) => ∃ pointer rest,
        start.pointer target encoding none = .ok (pointer, rest) ∧
          cie.declared.personality = some pointer ∧
          cie'.declared.personality =
            some (pointer.relocate delta target.addressSize encoding.application)

theorem exists_relocated {ending : BlockEnding} (h : read target record = .ok (cie, ending)) :
    ∃ cie', read (target.relocate delta) record = .ok (cie', ending) ∧
      Relocated delta target record cie cie' := by
  obtain ⟨window, rest, hhead, hdeclared, hoffset, hformat, hlength, hinstructions⟩ :=
    read_eq_ok_iff.mp h
  obtain ⟨⟨personality, happart⟩, hrest⟩ :=
    Declared.sameApart_read delta target cie.augmentation window
  have hbefore := Declared.personalityAt_read target cie.augmentation window
  have hafter := Declared.personalityAt_read (target.relocate delta) cie.augmentation window
  rw [Declared.personalitySource?_relocate, happart] at hafter
  rw [hdeclared] at hbefore hafter happart hrest
  refine ⟨{ cie with declared := { cie.declared with personality } }, ?_, rfl, window, hhead, ?_⟩
  · exact read_eq_ok_iff.mpr ⟨window, rest, hhead, Prod.ext happart hrest, hoffset, hformat, hlength,
      hinstructions⟩
  · cases hsource : Declared.personalitySource? target cie.augmentation window with
    | none =>
        rw [hsource] at hbefore hafter
        exact ⟨hbefore, hafter⟩
    | some source =>
        rw [hsource] at hbefore hafter
        obtain ⟨pointer, after, hpointer, hpersonality⟩ := hbefore
        obtain ⟨pointer', after', hpointer', hpersonality'⟩ := hafter
        rw [Window.pointer_relocate_none, hpointer] at hpointer'
        obtain ⟨rfl, -⟩ := Prod.mk.inj (Except.ok.inj hpointer')
        exact ⟨pointer, after, hpointer, hpersonality, hpersonality'⟩

theorem Relocated.offset (h : Relocated delta target record cie cie') : cie'.offset = cie.offset := by
  rw [h.others]

theorem Relocated.pointerEncoding (h : Relocated delta target record cie cie') :
    cie'.pointerEncoding = cie.pointerEncoding := by
  rw [h.others]
  rfl

end Cie

/-! ## 3. FDEs -/

namespace Fde

variable {target : Target} {record : Record} {cie : Cie} {fde : Fde} {declared : Declared}
  {encoding : PointerEncoding} {function : UInt64} {window rest : Window} {extra : Extra}

/-- Pointers to the language-specific data of a function whose start is relative to what `owner` says,
before and after. -/
inductive LsdaRelocated (size : AddressSize) (declared : Declared) (owner : Application) :
    Option Pointer → Option Pointer → Prop
  /-- There is none. -/
  | absent : LsdaRelocated size declared owner none none
  /-- It moves as what it is relative to, and its value is the same. -/
  | moved {byte : UInt8} {encoding : PointerEncoding} (pointer : Pointer) :
      declared.lsdaEncoding = some byte → PointerEncoding.decode byte = .ok (some encoding) →
      LsdaRelocated size declared owner (some pointer)
        (some (pointer.relocate delta size (encoding.application.follow owner)))

/-- The same FDE in an image that is loaded `delta` bytes further on, where `encoding` is the one that
its CIE has for the addresses of functions. -/
structure Relocated (size : AddressSize) (cie : Cie) (encoding : PointerEncoding) (fde fde' : Fde) :
    Prop where
  /-- Everything but the start and the language-specific data is the same. -/
  others : fde' = { fde with pcBegin := fde'.pcBegin, lsda := fde'.lsda }
  /-- The start moves as what it is relative to. -/
  pcBegin : fde'.pcBegin = encoding.application.relocate delta size fde.pcBegin
  /-- So do the language-specific data. -/
  lsda : LsdaRelocated delta size cie.declared encoding.application fde.lsda fde'.lsda

/-- The language-specific data are read in both images or in none. -/
theorem readLsda_relocate (target : Target) (owner : Application) {byte : UInt8} (function : UInt64)
    (block : Window) (hbyte : declared.lsdaEncoding = some byte) :
    (∃ lsda lsda', readLsda target byte function block = .ok lsda ∧
      readLsda (target.relocate delta) byte (owner.relocate delta target.addressSize function) block =
        .ok lsda' ∧ LsdaRelocated delta target.addressSize declared owner lsda lsda') ∨
    ∃ fault, readLsda target byte function block = .error fault ∧
      readLsda (target.relocate delta) byte (owner.relocate delta target.addressSize function) block =
        .error fault := by
  unfold readLsda
  cases hdecode : PointerEncoding.decode byte with
  | error fault => exact Or.inr ⟨fault, rfl, rfl⟩
  | ok decoded =>
      cases decoded with
      | none => exact Or.inl ⟨none, none, rfl, rfl, .absent⟩
      | some encoding =>
          have hpointer := block.pointer_relocate delta target encoding owner (some function)
          rw [Option.map_some] at hpointer
          simp only [bind, Except.bind, hpointer]
          cases block.pointer target encoding (some function) with
          | error fault => exact Or.inr ⟨fault, rfl, rfl⟩
          | ok read =>
              obtain ⟨pointer, rest⟩ := read
              -- whether there are any is up to the value, which does not move
              by_cases hnull : pointer.raw = 0
              · refine Or.inl ⟨none, none, ?_, ?_, .absent⟩
                · exact congrArg Except.ok (if_pos hnull)
                · exact congrArg Except.ok (if_pos hnull)
              · refine Or.inl ⟨some pointer, _, ?_, ?_, .moved pointer hbyte hdecode⟩
                · exact congrArg Except.ok (if_neg hnull)
                · exact congrArg Except.ok (if_neg hnull)

/-- The augmentation data of an FDE are read from the same bytes. -/
theorem readExtra_relocate (owner : Application)
    (h : readExtra target declared function window = .ok (extra, rest)) :
    ∃ lsda, readExtra (target.relocate delta) declared
        (owner.relocate delta target.addressSize function) window = .ok ({ extra with lsda }, rest) ∧
      LsdaRelocated delta target.addressSize declared owner extra.lsda lsda := by
  unfold readExtra at h ⊢
  split at h
  · next hdata =>
      rw [if_pos hdata]
      cases hblock : window.block with
      | error fault => simp [hblock] at h
      | ok read =>
          obtain ⟨block, after⟩ := read
          simp only [hblock] at h ⊢
          cases hbyte : declared.lsdaEncoding with
          | none =>
              simp only [hbyte] at h ⊢
              obtain ⟨rfl, rfl⟩ := Prod.mk.inj (Except.ok.inj h)
              exact ⟨none, rfl, .absent⟩
          | some byte =>
              simp only [hbyte] at h ⊢
              rcases readLsda_relocate delta target owner function block hbyte with
                ⟨lsda, lsda', hread, hread', hmoved⟩ | ⟨fault, hread, hread'⟩
              · simp only [hread, hread'] at h ⊢
                obtain ⟨rfl, rfl⟩ := Prod.mk.inj (Except.ok.inj h)
                exact ⟨lsda', rfl, hmoved⟩
              · simp only [hread, hread'] at h ⊢
                obtain ⟨rfl, rfl⟩ := Prod.mk.inj (Except.ok.inj h)
                exact ⟨none, rfl, .absent⟩
  · next hdata =>
      rw [if_neg hdata]
      obtain ⟨rfl, rfl⟩ := Prod.mk.inj (Except.ok.inj h)
      exact ⟨none, rfl, .absent⟩

/-- An FDE that starts at zero is not read. -/
theorem read_of_zero {pcBegin pcRange : Pointer} {afterBegin afterRange : Window}
    (hencoding : cie.pointerEncoding = .ok encoding)
    (hbegin : record.body.pointer target encoding none = .ok (pcBegin, afterBegin))
    (hrange : afterBegin.pointer target encoding.valueOnly none = .ok (pcRange, afterRange))
    (hzero : pcBegin.address = 0) :
    read target none cie record = .error (.invalidStart record.offset 0) := by
  simp [read, hencoding, hbegin, hrange, hzero, validStart, bind, Except.bind, throw, throwThe,
    MonadExceptOf.throw]

/-- **An FDE is read in the other image too, unless its start moves to zero.** -/
theorem relocated_cases {problem : Option Fault} (cie' : Cie)
    (hsame : cie' =
      { cie with declared := { cie.declared with personality := cie'.declared.personality } })
    (h : read target none cie record = .ok (fde, problem)) :
    ∃ encoding, cie.pointerEncoding = .ok encoding ∧
      ((∃ fde', read (target.relocate delta) none cie' record = .ok (fde', problem) ∧
        Relocated delta target.addressSize cie encoding fde fde') ∨
      (encoding.application.relocate delta target.addressSize fde.pcBegin = 0 ∧
        read (target.relocate delta) none cie' record = .error (.invalidStart record.offset 0))) := by
  obtain ⟨encoding, pcBegin, afterBegin, pcRange, afterRange, extra, afterExtra, hencoding, hbegin,
    hrange, -, hextra, rfl, rfl⟩ := read_eq_ok h
  have hbegin' := record.body.pointer_relocate_none delta target encoding
  have hrange' := afterBegin.pointer_relocate_none delta target encoding.valueOnly
  rw [hbegin] at hbegin'
  rw [hrange] at hrange'
  have hencoding' : cie'.pointerEncoding = .ok encoding := by
    rw [hsame]
    exact hencoding
  refine ⟨encoding, hencoding, ?_⟩
  by_cases hzero : encoding.application.relocate delta target.addressSize pcBegin.address = 0
  · exact Or.inr ⟨hzero, read_of_zero hencoding' hbegin' hrange' hzero⟩
  · obtain ⟨lsda, hextra', hlsda⟩ := readExtra_relocate delta encoding.application hextra
    have hdeclared : readExtra (target.relocate delta) cie'.declared
        (encoding.application.relocate delta target.addressSize pcBegin.address) afterRange =
          .ok ({ extra with lsda }, afterExtra) := by
      rw [hsame]
      exact hextra'
    have hvalid : validStart none
        (encoding.application.relocate delta target.addressSize pcBegin.address) = true := by
      simpa [validStart] using hzero
    have hoffset : cie'.offset = cie.offset := by rw [hsame]
    have hread := read_of_fields hencoding' hbegin' hrange' hvalid hdeclared
    rw [hoffset] at hread
    exact Or.inl ⟨_, hread, rfl, rfl, hlsda⟩

end Fde

end UnwindTables
