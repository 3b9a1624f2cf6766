/-
UnwindTables.Proofs.Blueprint.FrameTheorems — the records of a section that was built are those of its
blueprint.

A reader takes a section apart by the lengths of its records, and knows a CIE from an FDE by the field
after the length. `Blueprint.Frames` says that what it finds are the records of the blueprint, in their
order: each CIE can be read as what was written, and each FDE refers to its CIE.

This needs padding that keeps the fields of its record (`Blueprint.KeepsFields`). A padding that makes the
sum of words start over cuts the record off instead, and what is left of it may not even be a record.

## How the proof goes

The induction follows `Blueprint.emitItems`, one record at a time (`Blueprint.frames_emitItems`), and
`Blueprint.Frames.cons_cie` and `Blueprint.Frames.cons_fde` say what a record adds. A CIE is read back by
`CieBlueprint.read_write`; an FDE is framed by `FdeBlueprint.read_write`, since its reference is the
distance to a CIE that has been written before it and is neither zero nor too far.
-/
import Mathlib.Data.List.Forall2
import UnwindTables.Proofs.Blueprint.FunctionTheorems
import UnwindTables.Proofs.Table.TwoPassTheorems

namespace UnwindTables

/-! ## 1. What a reader accepts -/

/-- The FDE of a record. -/
def BlueprintItem.fde? : BlueprintItem → Option FdeBlueprint
  | cie _ => none
  | fde f => some f

namespace BlueprintItem

variable {items : List BlueprintItem}

theorem mem_cies_iff {c : CieBlueprint} : c ∈ items.filterMap cie? ↔ .cie c ∈ items := by
  rw [List.mem_filterMap]
  constructor
  · rintro ⟨item, hitem, hc⟩
    cases item with
    | cie c' =>
        obtain rfl := Option.some.inj hc
        exact hitem
    | fde f => cases hc
  · intro hitem
    exact ⟨_, hitem, rfl⟩

theorem mem_fdes_iff {f : FdeBlueprint} : f ∈ items.filterMap fde? ↔ .fde f ∈ items := by
  rw [List.mem_filterMap]
  constructor
  · rintro ⟨item, hitem, hf⟩
    cases item with
    | cie c => cases hf
    | fde f' =>
        obtain rfl := Option.some.inj hf
        exact hitem
  · intro hitem
    exact ⟨_, hitem, rfl⟩

/-- A condition on all CIEs can be tried on each of them. -/
theorem forall_cie_iff {p : CieBlueprint → Prop} :
    (∀ c, .cie c ∈ items → p c) ↔ ∀ c ∈ items.filterMap cie?, p c :=
  forall_congr' fun _ => imp_congr_left mem_cies_iff.symm

theorem forall_fde_iff {p : FdeBlueprint → Prop} :
    (∀ f, .fde f ∈ items → p f) ↔ ∀ f ∈ items.filterMap fde?, p f :=
  forall_congr' fun _ => imp_congr_left mem_fdes_iff.symm

end BlueprintItem

namespace Blueprint

/-- A blueprint that a reader accepts: the versions and augmentation strings are such that a reader
can tell where they end, and every reference is to a CIE. -/
structure Readable (items : List BlueprintItem) : Prop where
  version : ∀ cie, .cie cie ∈ items → cie.version = 1 ∨ cie.version = 3
  codes : ∀ cie, .cie cie ∈ items → 0 ∉ cie.codes
  reference : ∀ fde, .fde fde ∈ items → fde.ciePointer = none

instance (items : List BlueprintItem) : Decidable (Readable items) :=
  decidable_of_iff
    ((∀ cie ∈ items.filterMap BlueprintItem.cie?, (cie.version = 1 ∨ cie.version = 3) ∧ 0 ∉ cie.codes) ∧
      ∀ fde ∈ items.filterMap BlueprintItem.fde?, fde.ciePointer = none)
    ⟨fun ⟨hcies, hfdes⟩ => ⟨fun cie hc => (BlueprintItem.forall_cie_iff.mpr hcies cie hc).1,
        fun cie hc => (BlueprintItem.forall_cie_iff.mpr hcies cie hc).2,
        BlueprintItem.forall_fde_iff.mpr hfdes⟩,
      fun h => ⟨BlueprintItem.forall_cie_iff.mp fun cie hc => ⟨h.version cie hc, h.codes cie hc⟩,
        BlueprintItem.forall_fde_iff.mp h.reference⟩⟩

theorem Readable.tail {item : BlueprintItem} {items : List BlueprintItem}
    (h : Readable (item :: items)) : Readable items :=
  ⟨fun cie hc => h.version cie (List.mem_cons_of_mem _ hc),
    fun cie hc => h.codes cie (List.mem_cons_of_mem _ hc),
    fun fde hf => h.reference fde (List.mem_cons_of_mem _ hf)⟩

/-- The padding of each record keeps its fields. -/
def KeepsFields (items : List BlueprintItem) : Prop :=
  (∀ cie, .cie cie ∈ items → PaddingKeeps cie.padding cie.instructions) ∧
    ∀ fde, .fde fde ∈ items → PaddingKeeps fde.padding fde.instructions

instance (items : List BlueprintItem) : Decidable (KeepsFields items) :=
  decidable_of_iff _ (and_congr BlueprintItem.forall_cie_iff BlueprintItem.forall_fde_iff).symm

theorem KeepsFields.tail {item : BlueprintItem} {items : List BlueprintItem}
    (h : KeepsFields (item :: items)) : KeepsFields items :=
  ⟨fun cie hc => h.1 cie (List.mem_cons_of_mem _ hc),
    fun fde hf => h.2 fde (List.mem_cons_of_mem _ hf)⟩

/-! ## 2. The records of a section that was written -/

/-- A record is an FDE that was written at its place, and refers to the CIE that the FDE is to go with:
`known` are the CIEs of the section and `cieAts` the section offsets that they were written at. -/
def PlacedAs (target : Target) (known : List CieBlueprint) (cieAts : List Nat)
    (written : FdeBlueprint × FdePlace) (framed : Record) : Prop :=
  written.2.pcBegin = written.1.pcBegin ∧ ∃ cie cieAt,
    known[written.1.cie]? = some cie ∧ cieAts[written.1.cie]? = some cieAt ∧
      written.1.FramedAs target cie cieAt written.2.offset framed

/-- The records of a section are those of some items, in their order. -/
structure Frames (target : Target) (known : List CieBlueprint) (items : List BlueprintItem)
    (placed : List Nat) (emission : Emission) (framing : Framing) : Prop where
  fault : framing.fault = none
  count : emission.cies.length = (items.filterMap BlueprintItem.cie?).length
  cies : List.Forall₂ (fun written parsed => written.1.ReadsBackAs target written.2 parsed)
    ((items.filterMap BlueprintItem.cie?).zip emission.cies)
    (framing.records.filterMap (Cie.ofRecord? target))
  starts : emission.fdes.map FdePlace.pcBegin =
    (items.filterMap BlueprintItem.fde?).map FdeBlueprint.pcBegin
  fdes : List.Forall₂ (PlacedAs target known (placed ++ emission.cies))
    ((items.filterMap BlueprintItem.fde?).zip emission.fdes)
    (framing.records.filter fun record => !record.isCie)

namespace Frames

variable {target : Target} {known : List CieBlueprint} {items : List BlueprintItem}
  {placed : List Nat} {rest : Emission} {framing : Framing} {framed : Record}

/-- A CIE is written in front of what is there already. -/
theorem cons_cie {cie : CieBlueprint} {offset : Nat} {parsed : Cie}
    (h : Frames target known items (placed ++ [offset]) rest framing)
    (hcie : Cie.ofRecord? target framed = some parsed) (hback : cie.ReadsBackAs target offset parsed)
    (hkind : framed.kind = .cie) (record : List UInt8) :
    Frames target known (.cie cie :: items) placed
      ⟨record ++ rest.bytes, offset :: rest.cies, rest.fdes⟩
      { framing with records := framed :: framing.records } where
  fault := h.fault
  count := congrArg Nat.succ h.count
  cies := by
    rw [List.filterMap_cons_some hcie]
    exact .cons hback h.cies
  starts := h.starts
  fdes := by
    have hfdes := h.fdes
    rw [List.append_assoc] at hfdes
    rw [List.filter_cons_of_neg (by simp [Record.isCie, hkind])]
    exact hfdes

/-- An FDE is written in front of what is there already. -/
theorem cons_fde {fde : FdeBlueprint} {cie : CieBlueprint} {offset cieAt : Nat}
    (h : Frames target known items placed rest framing) (hknown : known[fde.cie]? = some cie)
    (hat : placed[fde.cie]? = some cieAt) (hframed : fde.FramedAs target cie cieAt offset framed)
    (record : List UInt8) :
    Frames target known (.fde fde :: items) placed
      ⟨record ++ rest.bytes, rest.cies, ⟨fde.pcBegin, offset⟩ :: rest.fdes⟩
      { framing with records := framed :: framing.records } where
  fault := h.fault
  count := h.count
  cies := by
    have hcie : Cie.ofRecord? target framed = none := by simp [Cie.ofRecord?, hframed.kind]
    rw [List.filterMap_cons_none hcie]
    exact h.cies
  starts := congrArg (fde.pcBegin :: ·) h.starts
  fdes := by
    have hcieAt : (placed ++ rest.cies)[fde.cie]? = some cieAt := by
      rw [List.getElem?_append_left (List.getElem?_eq_some_iff.mp hat).1, hat]
    rw [List.filter_cons_of_pos (by simp [Record.isCie, hframed.kind])]
    exact .cons ⟨rfl, cie, cieAt, hknown, hcieAt, hframed⟩ h.fdes

end Frames

/-- The records of what was emitted, up to the end of the section or its terminator. -/
theorem frames_emitItems {target : Target} {known : List CieBlueprint} {items : List BlueprintItem}
    {placed : List Nat} {offset : Nat} {emission : Emission} (hreadable : Readable items)
    (hkeeps : KeepsFields items) (hplaced : ∀ cieAt ∈ placed, cieAt ≤ offset)
    (h : emitItems target known items placed offset = .ok emission) {ending : List UInt8}
    (hending : IsEnding ending) :
    Frames target known items placed emission
      (RecordStream.ofWindow target.order ⟨emission.bytes ++ ending, offset⟩).drain := by
  induction items generalizing placed offset emission with
  | nil =>
      obtain rfl := emitItems_nil_eq_ok_iff.mp h
      have hnone : Record.read target.order ⟨ending, offset⟩ = .ok none := by
        refine Record.read_of_end ?_ target.order offset
        rcases hending with rfl | rfl
        · exact Or.inl rfl
        · exact Or.inr ⟨[], rfl⟩
      rw [List.nil_append, RecordStream.drain_of_none hnone]
      exact ⟨rfl, rfl, .nil, rfl, .nil⟩
  | cons item items ih =>
      have hlater : ∀ length, ∀ cieAt ∈ placed, cieAt ≤ offset + length :=
        fun length cieAt ha => Nat.le_trans (hplaced cieAt ha) (Nat.le_add_right _ _)
      cases item with
      | cie cie =>
          obtain ⟨record, rest, hrecord, hrest, rfl⟩ := emitItems_cie_eq_ok_iff.mp h
          obtain ⟨framed, parsed, ending', hframed, hkind, hparsed, hback⟩ :=
            CieBlueprint.read_write hrecord (hreadable.version cie List.mem_cons_self)
              (hreadable.codes cie List.mem_cons_self) (hkeeps.1 cie List.mem_cons_self)
              (rest.bytes ++ ending)
          have hplaced' : ∀ cieAt ∈ placed ++ [offset], cieAt ≤ offset + record.length := by
            intro cieAt ha
            rcases List.mem_append.mp ha with ha | ha
            · exact hlater _ cieAt ha
            · obtain rfl := List.mem_singleton.mp ha
              exact Nat.le_add_right _ _
          have hcie : Cie.ofRecord? target framed = some parsed := by
            simp [Cie.ofRecord?, hkind, hparsed, Except.toOption]
          rw [List.append_assoc, RecordStream.drain_of_record hframed]
          exact (ih hreadable.tail hkeeps.tail hplaced' hrest).cons_cie hcie hback hkind record
      | fde fde =>
          obtain ⟨cie, record, rest, hknown, hrecord, hrest, rfl⟩ := emitItems_fde_eq_ok_iff.mp h
          obtain ⟨framed, cieAt, hat, hframed, hback⟩ := FdeBlueprint.read_write hrecord
            (hreadable.reference fde List.mem_cons_self) (hkeeps.2 fde List.mem_cons_self)
            (fun cieAt hc => hplaced cieAt (List.mem_of_getElem? hc)) (rest.bytes ++ ending)
          rw [List.append_assoc, RecordStream.drain_of_record hframed]
          exact (ih hreadable.tail hkeeps.tail (hlater _) hrest).cons_fde hknown hat hback record

/-- The records of a section that was built. -/
theorem frames_build {blueprint : Blueprint} {order : ByteOrder} {bytes : List UInt8}
    (hreadable : Readable blueprint.items) (hkeeps : KeepsFields blueprint.items)
    (h : blueprint.build order = .ok bytes) :
    ∃ emission, blueprint.emit order = .ok emission ∧ emission.bytes = bytes ∧
      Frames (blueprint.target order) blueprint.cies blueprint.items [] emission
        (Framing.ofSection order bytes) := by
  obtain ⟨emission, hemit, rfl⟩ := build_eq_ok_iff.mp h
  obtain ⟨items, ending, hitems, hending, rfl⟩ := exists_ending_of_emit hemit
  obtain ⟨hfault, hcount, hcies, hstarts, hfdes⟩ :=
    frames_emitItems hreadable hkeeps (by simp) hitems hending
  exact ⟨_, hemit, rfl, hfault, hcount, hcies, hstarts, hfdes⟩

end Blueprint

end UnwindTables
