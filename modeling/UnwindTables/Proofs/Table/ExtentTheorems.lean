/-
UnwindTables.Proofs.Table.ExtentTheorems — what a table says about places can be relied on.

A table has spans of its section, addresses and section offsets. A consumer cuts the spans out of the
section, subtracts their ends, and looks records up by their offsets, without checking any of it again.
`Table.Sound` states what it relies on and `Table.sound_of_parse` that every table has it: the spans are
in order and inside their records, no two of them overlap, a record is found exactly by its own section
offset, and addresses have no more bits than the section's addresses.

## How the proof goes

A span is made of section offsets of windows, and every window is a part of the one that it was read
from (`Window.Within`), down from the body of the record. So all that is needed of the readers is which
windows the ends come from: `Declared.within_read` for a CIE, and `Fde.readExtra_extent` for an FDE.
Records do not overlap (`Framing.apart`), and so neither do the spans in them.
-/
import UnwindTables.Proofs.Table.ConcatenationTheorems

namespace UnwindTables

/-! ## 1. Addresses -/

/-- An address has no more bits than the addresses of a section. -/
def AddressSize.Holds (size : AddressSize) (address : UInt64) : Prop :=
  address.toNat < capacity size.bytes

theorem AddressSize.holds_truncate (size : AddressSize) (value : UInt64) :
    size.Holds (size.truncate value) := by
  have hpositive : 0 < capacity size.bytes := by cases size <;> decide
  rw [Holds, toNat_truncate]
  exact Nat.mod_lt _ hpositive

/-- A pointer that is read is cut to the size of an address. -/
theorem Window.holds_of_pointer {window rest : Window} {target : Target} {encoding : PointerEncoding}
    {function : Option UInt64} {pointer : Pointer}
    (h : window.pointer target encoding function = .ok (pointer, rest)) :
    target.addressSize.Holds pointer.address := by
  unfold Window.pointer at h
  split at h
  · next hresolve =>
      obtain ⟨rfl, -⟩ := Prod.mk.inj (Except.ok.inj h)
      unfold PointerEncoding.resolve at hresolve
      split at hresolve
      · cases hresolve
      · split at hresolve
        · cases hresolve
        · obtain ⟨rfl, -⟩ := Prod.mk.inj (Except.ok.inj hresolve)
          exact AddressSize.holds_truncate target.addressSize _
  · cases h
  · cases h

/-! ## 2. CIEs -/

/-- The two sides of a block are next to each other. -/
theorem Window.stop_of_block {window content rest : Window} (h : window.block = .ok (content, rest)) :
    content.stop = rest.offset := by
  obtain ⟨⟨length, afterLength⟩, -, h⟩ := Steps.bind_eq_ok.mp h
  have hsize := (size_of_split h).1
  obtain ⟨hoffset, rfl⟩ := sides_of_split h
  rw [stop, hsize, hoffset, offset_drop]

namespace Declared

variable {target : Target} {codes : List UInt8} {declared found : Declared} {window rest : Window}
  {ending : BlockEnding}

/-- What is left after the augmentation data is a part of what was there before. -/
theorem within_read (h : read target codes window = (declared, ending, rest)) : rest.Within window := by
  cases codes with
  | nil =>
      simp only [read, Prod.mk.injEq] at h
      exact h.2.2 ▸ .refl window
  | cons code codes =>
      by_cases hz : code = 'z'.toUInt8
      · subst hz
        simp only [read, AugmentationState.transition_z] at h
        split at h
        · next hblock =>
            simp only [Prod.mk.injEq] at h
            exact h.2.2 ▸ (Window.stays_block window).rest _ _ hblock
        · simp only [Prod.mk.injEq] at h
          exact h.2.2 ▸ Window.within_drop (Nat.le_refl _)
      · simp only [read, AugmentationState.transition_not_z hz, Prod.mk.injEq] at h
        exact h.2.2 ▸ .refl window

/-- The address of the personality routine is one of the section's addresses. -/
def Addressed (target : Target) (declared : Declared) : Prop :=
  ∀ pointer, declared.personality = some pointer → target.addressSize.Holds pointer.address

theorem PersonalityAt.addressed {source : Option (PointerEncoding × Window)}
    (h : declared.PersonalityAt target source) : declared.Addressed target := by
  intro pointer hpointer
  cases source with
  | none => cases h.symm.trans hpointer
  | some source =>
      obtain ⟨found, rest, hread, hfound⟩ := h
      obtain rfl := Option.some.inj (hfound.symm.trans hpointer)
      exact Window.holds_of_pointer hread

theorem addressed_read (target : Target) (codes : List UInt8) (window : Window) :
    (read target codes window).1.Addressed target :=
  (personalityAt_read target codes window).addressed

end Declared

/-- What a CIE says about places, in a section of some bytes. -/
structure Cie.Sound (size : AddressSize) (sectionLength : Nat) (cie : Cie) : Prop where
  start : cie.offset + cie.format.lengthSize + 4 ≤ cie.instructions.start
  ordered : cie.instructions.start ≤ cie.instructions.stop
  stop : cie.instructions.stop = cie.offset + cie.format.lengthSize + cie.length
  inSection : cie.instructions.stop ≤ sectionLength
  personality : ∀ pointer, cie.declared.personality = some pointer → size.Holds pointer.address

theorem Cie.sound_of_read {target : Target} {record : Record} {cie : Cie} {ending : BlockEnding}
    {sectionLength : Nat} (h : Cie.read target record = .ok (cie, ending)) (hframed : record.Framed)
    (hstop : record.stop ≤ sectionLength) : cie.Sound target.addressSize sectionLength := by
  obtain ⟨window, rest, hhead, hdeclared, hoffset, hformat, hlength, hinstructions⟩ :=
    Cie.read_eq_ok_iff.mp h
  have hwithin := (Declared.within_read hdeclared).trans hhead.within
  have hstart := hwithin.start
  have hend := hwithin.stop
  have hbody := hframed.bodyStart
  have hbodyStop := hframed.bodyStop
  have haddressed := Declared.addressed_read target cie.augmentation window
  rw [hdeclared] at haddressed
  refine ⟨?_, ?_, ?_, ?_, haddressed⟩
  · rw [hinstructions, hoffset, hformat]
    simp only [Record.idOffset] at hbody
    show _ ≤ rest.offset
    omega
  · rw [hinstructions]
    simp only [Window.stop] at hend hbodyStop
    show rest.offset ≤ record.stop
    omega
  · rw [hinstructions, hoffset, hformat, hlength]
    rfl
  · rwa [hinstructions]

/-! ## 3. FDEs -/

namespace Fde

variable {target : Target} {declared : Declared} {function : UInt64} {window rest : Window}
  {extra : Extra}

theorem holds_of_readLsda {byte : UInt8} {block : Window} {pointer : Pointer}
    (h : readLsda target byte function block = .ok (some pointer)) :
    target.addressSize.Holds pointer.address := by
  obtain ⟨decoded, -, h⟩ := Steps.bind_eq_ok.mp h
  cases decoded with
  | none => cases h
  | some encoding =>
      obtain ⟨⟨found, after⟩, hread, h⟩ := Steps.bind_eq_ok.mp h
      have hfound := Steps.pure_eq_ok.mp h
      split at hfound
      · cases hfound
      · obtain rfl := Option.some.inj hfound
        exact Window.holds_of_pointer hread

/-- The block of augmentation data comes from the front of its window and ends where the rest starts. -/
structure Extra.Extent (target : Target) (window : Window) (extra : Extra) (rest : Window) : Prop where
  start : window.offset ≤ extra.span.start
  ordered : extra.span.start ≤ extra.span.stop
  stop : extra.span.stop = rest.offset
  within : rest.Within window
  lsda : ∀ pointer, extra.lsda = some pointer → target.addressSize.Holds pointer.address

theorem readExtra_extent (h : readExtra target declared function window = .ok (extra, rest)) :
    extra.Extent target window rest := by
  unfold readExtra at h
  split at h
  · split at h
    · cases h
    · next block afterBlock hblock =>
        have hstop := Window.stop_of_block hblock
        have hstart := (Window.within_of_block hblock).start
        have hwithin := (Window.stays_block window).rest _ _ hblock
        have hordered : block.offset ≤ afterBlock.offset := by
          rw [← hstop]
          exact Nat.le_add_right _ _
        simp only at h
        split at h
        · obtain ⟨rfl, rfl⟩ := Prod.mk.inj (Except.ok.inj h)
          exact ⟨hstart, hordered, rfl, hwithin, by simp⟩
        · split at h
          · next hlsda =>
              obtain ⟨rfl, rfl⟩ := Prod.mk.inj (Except.ok.inj h)
              refine ⟨hstart, hordered, rfl, hwithin, ?_⟩
              rintro pointer rfl
              exact holds_of_readLsda hlsda
          · obtain ⟨rfl, rfl⟩ := Prod.mk.inj (Except.ok.inj h)
            exact ⟨hstart, hordered, rfl, hwithin, by simp⟩
  · obtain ⟨rfl, rfl⟩ := Prod.mk.inj (Except.ok.inj h)
    exact ⟨Nat.le_refl _, Nat.le_refl _, rfl, .refl window, by simp⟩

end Fde

/-- What an FDE says about places, in a section of some bytes. -/
structure Fde.Sound (size : AddressSize) (image : Option Image) (sectionLength : Nat) (fde : Fde) :
    Prop where
  start : fde.offset + fde.format.lengthSize + 4 ≤ fde.augmentationData.start
  dataOrdered : fde.augmentationData.start ≤ fde.augmentationData.stop
  adjacent : fde.augmentationData.stop = fde.instructions.start
  ordered : fde.instructions.start ≤ fde.instructions.stop
  stop : fde.instructions.stop = fde.offset + fde.format.lengthSize + fde.length
  inSection : fde.instructions.stop ≤ sectionLength
  started : fde.pcBegin ≠ 0
  inImage : ∀ loaded, image = some loaded →
    loaded.start ≤ fde.pcBegin ∧ fde.pcBegin < loaded.stop
  pcBegin : size.Holds fde.pcBegin
  pcRange : size.Holds fde.pcRange
  lsda : ∀ pointer, fde.lsda = some pointer → size.Holds pointer.address

theorem Fde.sound_of_read {target : Target} {image : Option Image} {cie : Cie} {record : Record}
    {fde : Fde} {problem : Option Fault} {sectionLength : Nat}
    (h : Fde.read target image cie record = .ok (fde, problem)) (hframed : record.Framed)
    (hstop : record.stop ≤ sectionLength) : fde.Sound target.addressSize image sectionLength := by
  obtain ⟨_, pcBegin, afterBegin, pcRange, afterRange, extra, afterExtra, -, hbegin, hrange, hvalid,
    hextra, -, rfl⟩ := Fde.read_eq_ok h
  have hfields := ((Window.stays_pointer _ _ _ _).rest _ _ hrange).trans
    ((Window.stays_pointer _ _ _ _).rest _ _ hbegin)
  have hextent := readExtra_extent hextra
  have hstart := hfields.start
  have hbody := hframed.bodyStart
  have hbodyStop := hframed.bodyStop
  have hend := (hextent.within.trans hfields).stop
  rw [validStart, Bool.and_eq_true, bne_iff_ne] at hvalid
  refine ⟨?_, hextent.ordered, hextent.stop, ?_, rfl, hstop, hvalid.1, ?_,
    Window.holds_of_pointer hbegin, Window.holds_of_pointer hrange, hextent.lsda⟩
  · have hdata := hextent.start
    simp only [Record.idOffset] at hbody
    simp only
    omega
  · simp only [Window.stop] at hend hbodyStop
    simp only
    omega
  · rintro loaded rfl
    have hcontains := hvalid.2
    rw [Option.all_some, Image.contains, Bool.and_eq_true, decide_eq_true_eq, decide_eq_true_eq]
      at hcontains
    exact hcontains

/-! ## 4. Tables -/

/-- Of two spans, one ends before the other one starts. -/
def Span.Apart (first second : Span) : Prop := first.stop ≤ second.start ∨ second.stop ≤ first.start

/-- A span is inside a record. -/
structure Span.In (span : Span) (record : Record) : Prop where
  start : record.offset ≤ span.start
  stop : span.stop ≤ record.stop

/-- What is inside different records does not overlap. -/
theorem Span.apart_of_in {order : ByteOrder} {bytes : List UInt8} {record other : Record}
    {first second : Span} (hr : record ∈ (Framing.ofSection order bytes).records)
    (ho : other ∈ (Framing.ofSection order bytes).records) (hne : record ≠ other)
    (hfirst : first.In record) (hsecond : second.In other) : first.Apart second := by
  have hstop := hfirst.stop
  have hstart := hfirst.start
  have hstop' := hsecond.stop
  have hstart' := hsecond.start
  rcases Framing.apart hr ho hne with h | h
  · exact Or.inl (by omega)
  · exact Or.inr (by omega)

namespace Table

/-- The spans that a table has of its section. -/
def spans (table : Table) : List Span :=
  table.cies.map Cie.instructions ++
    table.fdes.flatMap fun fde => [fde.augmentationData, fde.instructions]

/-- What a table says about places can be relied on. -/
structure Sound (target : Target) (image : Option Image) (bytes : List UInt8) (table : Table) :
    Prop where
  cies : ∀ cie ∈ table.cies, cie.Sound target.addressSize bytes.length
  fdes : ∀ fde ∈ table.fdes, fde.Sound target.addressSize image bytes.length
  /-- Any span can be cut out of the section. -/
  inSection : ∀ span ∈ table.spans, span.start ≤ span.stop ∧ span.stop ≤ bytes.length
  /-- No two spans overlap. -/
  apart : table.spans.Pairwise Span.Apart
  /-- A CIE is found at its section offset and nowhere else. -/
  cieAt : ∀ offset cie, table.cie? offset = some cie ↔ cie ∈ table.cies ∧ cie.offset = offset
  /-- An FDE is found at its section offset and nowhere else. -/
  fdeAt : ∀ offset fde, table.fde? offset = some fde ↔ fde ∈ table.fdes ∧ fde.offset = offset

/-- Where keys increase, an item is found exactly by its key. -/
theorem find?_key_eq_some_iff {α : Type} {key : α → Nat} {items : List α}
    (h : (items.map key).Pairwise (· < ·)) {n : Nat} {a : α} :
    items.find? (fun b => key b == n) = some a ↔ a ∈ items ∧ key a = n := by
  constructor
  · intro hfound
    exact ⟨List.mem_of_find?_eq_some hfound, by simpa using List.find?_some hfound⟩
  · rintro ⟨ha, rfl⟩
    exact find?_key_eq h ha

variable {target : Target} {image : Option Image} {bytes : List UInt8} {table : Table}

theorem sound_of_mem_cies (h : parse target image bytes = .ok table) {cie : Cie}
    (hc : cie ∈ table.cies) : cie.Sound target.addressSize bytes.length := by
  obtain ⟨record, hr, -, ending, hread⟩ := exists_record_of_mem_cies h hc
  exact Cie.sound_of_read hread (Framing.framed_of_mem hr) (Framing.stop_le_of_mem hr)

theorem sound_of_mem_fdes (h : parse target image bytes = .ok table) {fde : Fde}
    (hf : fde ∈ table.fdes) : fde.Sound target.addressSize image bytes.length := by
  obtain ⟨record, hr, cie, -, problem, -, hread⟩ := exists_record_of_mem_fdes h hf
  exact Fde.sound_of_read hread (Framing.framed_of_mem hr) (Framing.stop_le_of_mem hr)

/-! Records do not overlap, and neither does what a table has of them. -/

/-- The record that a CIE was read from, which has the instructions in it. -/
theorem exists_extent_of_mem_cies (h : parse target image bytes = .ok table) {cie : Cie}
    (hc : cie ∈ table.cies) :
    ∃ record ∈ (Framing.ofSection target.order bytes).records, record.kind = .cie ∧
      record.offset = cie.offset ∧ cie.instructions.In record := by
  obtain ⟨record, hr, hkind, ending, hread⟩ := exists_record_of_mem_cies h hc
  obtain ⟨_, _, -, -, hoffset, -, -, hinstructions⟩ := Cie.read_eq_ok_iff.mp hread
  have hstart := (sound_of_mem_cies h hc).start
  refine ⟨record, hr, hkind, hoffset.symm, by omega, ?_⟩
  rw [hinstructions]

/-- The record that an FDE was read from, which has both of its spans in it. -/
theorem exists_extent_of_mem_fdes (h : parse target image bytes = .ok table) {fde : Fde}
    (hf : fde ∈ table.fdes) :
    ∃ record ∈ (Framing.ofSection target.order bytes).records, record.kind ≠ .cie ∧
      record.offset = fde.offset ∧
      ∀ span ∈ [fde.augmentationData, fde.instructions], span.In record := by
  obtain ⟨record, hr, cie, -, problem, hkind, hread⟩ := exists_record_of_mem_fdes h hf
  obtain ⟨hstart, hdata, hadjacent, hordered, -⟩ := sound_of_mem_fdes h hf
  obtain ⟨_, _, _, _, _, _, _, -, -, -, -, -, -, hfde⟩ := Fde.read_eq_ok hread
  have hoffset : record.offset = fde.offset := by rw [hfde]
  have hstop : fde.instructions.stop = record.stop := by rw [hfde]
  refine ⟨record, hr, by simp [hkind], hoffset, ?_⟩
  intro span hspan
  rcases List.mem_cons.mp hspan with rfl | hspan
  · exact ⟨by omega, by omega⟩
  · obtain rfl := List.mem_singleton.mp hspan
    exact ⟨by omega, by omega⟩

/-- No two spans of a table overlap. -/
theorem pairwise_spans (h : parse target image bytes = .ok table) :
    table.spans.Pairwise Span.Apart := by
  have haccounts := accounts_of_parse h
  refine List.pairwise_append.mpr ⟨?_, ?_, ?_⟩
  · refine List.pairwise_map.mpr (List.Pairwise.imp_of_mem ?_ (List.pairwise_map.mp haccounts.ciesIncrease))
    intro first second hfirst hsecond hless
    obtain ⟨record, hr, -, hoffset, hin⟩ := exists_extent_of_mem_cies h hfirst
    obtain ⟨other, ho, -, hoffset', hin'⟩ := exists_extent_of_mem_cies h hsecond
    exact Span.apart_of_in hr ho (by rintro rfl; omega) hin hin'
  · refine List.pairwise_flatMap.mpr ⟨?_, ?_⟩
    -- the two spans of an FDE are next to each other
    · intro fde hf
      have hadjacent := (sound_of_mem_fdes h hf).adjacent
      refine List.pairwise_pair.mpr (Or.inl (Nat.le_of_eq hadjacent))
    · refine List.Pairwise.imp_of_mem ?_ (List.pairwise_map.mp haccounts.fdesIncrease)
      intro first second hfirst hsecond hless a ha b hb
      obtain ⟨record, hr, -, hoffset, hin⟩ := exists_extent_of_mem_fdes h hfirst
      obtain ⟨other, ho, -, hoffset', hin'⟩ := exists_extent_of_mem_fdes h hsecond
      exact Span.apart_of_in hr ho (by rintro rfl; omega) (hin a ha) (hin' b hb)
  · intro a ha b hb
    obtain ⟨cie, hc, rfl⟩ := List.mem_map.mp ha
    obtain ⟨fde, hf, hb⟩ := List.mem_flatMap.mp hb
    obtain ⟨record, hr, hkind, -, hin⟩ := exists_extent_of_mem_cies h hc
    obtain ⟨other, ho, hkind', -, hin'⟩ := exists_extent_of_mem_fdes h hf
    exact Span.apart_of_in hr ho (by rintro rfl; exact hkind' hkind) hin (hin' b hb)

theorem inSection_of_mem_spans (h : parse target image bytes = .ok table) {span : Span}
    (hs : span ∈ table.spans) : span.start ≤ span.stop ∧ span.stop ≤ bytes.length := by
  rcases List.mem_append.mp hs with hs | hs
  · obtain ⟨cie, hc, rfl⟩ := List.mem_map.mp hs
    have hsound := sound_of_mem_cies h hc
    exact ⟨hsound.ordered, hsound.inSection⟩
  · obtain ⟨fde, hf, hs⟩ := List.mem_flatMap.mp hs
    obtain ⟨-, hdata, hadjacent, hordered, -, hin, -⟩ := sound_of_mem_fdes h hf
    rcases List.mem_cons.mp hs with rfl | hs
    · exact ⟨hdata, by omega⟩
    · obtain rfl := List.mem_singleton.mp hs
      exact ⟨hordered, hin⟩

/-- **Every table is sound**, whatever the section and whatever it was read with. -/
theorem sound_of_parse (h : parse target image bytes = .ok table) : table.Sound target image bytes := by
  have haccounts := accounts_of_parse h
  exact
    { cies := fun _ hc => sound_of_mem_cies h hc
      fdes := fun _ hf => sound_of_mem_fdes h hf
      inSection := fun _ hs => inSection_of_mem_spans h hs
      apart := pairwise_spans h
      cieAt := fun _ _ => find?_key_eq_some_iff haccounts.ciesIncrease
      fdeAt := fun _ _ => find?_key_eq_some_iff haccounts.fdesIncrease }

theorem sound_functionSection :
    parse sectionTarget (some ⟨0x2000, 0x3000⟩) functionSection =
        .ok ⟨[functionCie], [functionFde 0x201c], []⟩ ∧
      (⟨[functionCie], [functionFde 0x201c], []⟩ : Table).Sound sectionTarget
        (some ⟨0x2000, 0x3000⟩) functionSection := by
  have hparse : parse sectionTarget (some ⟨0x2000, 0x3000⟩) functionSection =
      .ok ⟨[functionCie], [functionFde 0x201c], []⟩ := by decide +kernel
  exact ⟨hparse, sound_of_parse hparse⟩

end Table

end UnwindTables
