/-
UnwindTables.Proofs.Blueprint.PlacementTheorems — every function of a blueprint is in the table, at the
place that was noted for it.

An emission says where each FDE was written. `Blueprint.fdes_of_build` says that the table of the section
has these FDEs and no others, in the same order and with the addresses that they were written with,
whatever the section is read with as long as every start is valid. `Blueprint.places_of_build` says the same
of their places alone.

## How the proof goes

The records are those that were written (`Blueprint.frames_build`). The one thing that is left is the
lookup: an FDE is read with the CIE at the section offset that it refers to, and by its number that is
the CIE of the blueprint (`Blueprint.Frames.find?_cie`).
-/
import UnwindTables.Proofs.Blueprint.FrameTheorems

namespace UnwindTables

/-- A CIE that is read from a record has a block exactly if its string says so. -/
theorem Cie.data_ofRecord? {target : Target} {record : Record} {c : Cie}
    (h : ofRecord? target record = some c) :
    c.declared.features.data = true ↔ c.augmentation.head? = some 'z'.toUInt8 := by
  obtain ⟨-, ending, hread⟩ := read_of_ofRecord? h
  obtain ⟨window, rest, -, hdeclared, -⟩ := read_eq_ok_iff.mp hread
  have hdata := Declared.data_read target c.augmentation window
  rwa [hdeclared] at hdata

/-- Where something is picked from each of some items on the right, what is picked from them all. -/
theorem forall₂_filterMap_right {α β γ : Type} {r : α → β → Prop} {s : α → γ → Prop}
    {pick : β → Option γ} {items : List α} {others : List β} (h : List.Forall₂ r items others)
    (hpick : ∀ a ∈ items, ∀ b, r a b → ∃ c, pick b = some c ∧ s a c) :
    List.Forall₂ s items (others.filterMap pick) := by
  induction h with
  | nil => exact .nil
  | @cons a b items others hfirst _ ih =>
      obtain ⟨c, hc, hs⟩ := hpick a List.mem_cons_self b hfirst
      rw [List.filterMap_cons_some hc]
      exact .cons hs (ih fun a ha => hpick a (List.mem_cons_of_mem _ ha))

/-- The place of an FDE. -/
def Fde.place (fde : Fde) : FdePlace := ⟨fde.pcBegin, fde.offset⟩

namespace Blueprint

variable {target : Target} {items : List BlueprintItem} {emission : Emission} {framing : Framing}

/-- The CIE with a number is found where it was written. -/
theorem Frames.find?_cie
    (h : Frames target (items.filterMap BlueprintItem.cie?) items [] emission framing)
    (hincrease : (framing.records.map Record.offset).Pairwise (· < ·)) {number cieAt : Nat}
    {cie : CieBlueprint} (hcie : (items.filterMap BlueprintItem.cie?)[number]? = some cie)
    (hat : emission.cies[number]? = some cieAt) :
    ∃ parsed, (framing.records.filterMap (Cie.ofRecord? target)).find? (·.offset == cieAt) =
        some parsed ∧
      cie.ReadsBackAs target cieAt parsed ∧
      (parsed.declared.features.data = true ↔ cie.layout.data = true) := by
  have hmem : (cie, cieAt) ∈ (items.filterMap BlueprintItem.cie?).zip emission.cies :=
    List.mem_of_getElem? (List.getElem?_zip_eq_some.mpr ⟨hcie, hat⟩)
  obtain ⟨parsed, hparsed, hback⟩ : ∃ parsed ∈ framing.records.filterMap (Cie.ofRecord? target),
      cie.ReadsBackAs target cieAt parsed :=
    exists_of_forall₂ (List.Forall₂.flip h.cies) hmem
  obtain ⟨record, -, hrecord⟩ := List.mem_filterMap.mp hparsed
  refine ⟨parsed, ?_, hback, ?_⟩
  · have hfound := Table.find?_key_eq (Cie.offsets_ofRecord? hincrease) hparsed
    rwa [hback.offset] at hfound
  · rw [Cie.data_ofRecord? hrecord, hback.augmentation, CieBlueprint.layout_data]

/-- An FDE is what was written at its place, and so is the CIE that it refers to. -/
def WrittenAs (target : Target) (cieAts : List Nat) (written : FdeBlueprint × FdePlace)
    (parsed : Fde) : Prop :=
  written.2.pcBegin = written.1.pcBegin ∧ ∃ cieAt, cieAts[written.1.cie]? = some cieAt ∧
    written.1.ReadsBackAs target cieAt written.2.offset parsed

/-- An FDE that was written at its place is read from there. -/
theorem Frames.read_fde {image : Option Image}
    (h : Frames target (items.filterMap BlueprintItem.cie?) items [] emission framing)
    (hincrease : (framing.records.map Record.offset).Pairwise (· < ·))
    {written : FdeBlueprint × FdePlace} {framed : Record}
    (hplaced : PlacedAs target (items.filterMap BlueprintItem.cie?) emission.cies written framed)
    (hvalid : Fde.validStart image (target.addressSize.truncate written.1.pcBegin) = true) :
    ∃ f, (Entry.read target image (framing.records.filterMap (Cie.ofRecord? target)) framed).fde? =
        some f ∧
      WrittenAs target emission.cies written f := by
  obtain ⟨hstart, cie, cieAt, hcie, hat, hframed⟩ := hplaced
  obtain ⟨parsed, hfound, hback, hdata⟩ := h.find?_cie hincrease hcie hat
  obtain ⟨f, problem, hread, hwritten⟩ := hframed.readable image parsed hback hdata hvalid
  refine ⟨f, ?_, hstart, cieAt, hat, hwritten⟩
  simp only [Entry.read, hframed.kind, hfound, hread]
  rfl

variable {blueprint : Blueprint} {order : ByteOrder} {bytes : List UInt8} {image : Option Image}

/-- **Every function is what was written**, and there are no others. -/
theorem fdes_of_build (hreadable : Readable blueprint.items) (hkeeps : KeepsFields blueprint.items)
    (h : blueprint.build order = .ok bytes)
    (hvalid : ∀ fde, .fde fde ∈ blueprint.items →
      Fde.validStart image (blueprint.addressSize.truncate fde.pcBegin) = true) :
    ∃ emission table, blueprint.emit order = .ok emission ∧ emission.bytes = bytes ∧
      Table.parse (blueprint.target order) image bytes = .ok table ∧
      emission.fdes.map FdePlace.pcBegin =
        (blueprint.items.filterMap BlueprintItem.fde?).map FdeBlueprint.pcBegin ∧
      List.Forall₂ (WrittenAs (blueprint.target order) emission.cies)
        ((blueprint.items.filterMap BlueprintItem.fde?).zip emission.fdes) table.fdes := by
  obtain ⟨emission, hemit, rfl, hframes⟩ := frames_build hreadable hkeeps h
  have hincrease := Framing.offsets_increasing order emission.bytes
  refine ⟨_, _, hemit, rfl, Table.parse_eq_ofRecords image hframes.fault, hframes.starts, ?_⟩
  rw [Table.fdes_ofRecords]
  refine forall₂_filterMap_right hframes.fdes ?_
  intro written hw framed hplaced
  exact hframes.read_fde hincrease hplaced
    (hvalid written.1 (BlueprintItem.mem_fdes_iff.mp (List.of_mem_zip hw).1))

/-- The places of what was written. -/
theorem map_place_of_writtenAs {target : Target} {cieAts : List Nat}
    {written : List (FdeBlueprint × FdePlace)} {fdes : List Fde}
    (h : List.Forall₂ (WrittenAs target cieAts) written fdes) :
    fdes.map Fde.place = written.map fun w =>
      ⟨target.addressSize.truncate w.2.pcBegin, w.2.offset⟩ := by
  induction h with
  | nil => rfl
  | @cons w f written fdes hfirst _ ih =>
      obtain ⟨hstart, cieAt, -, hback⟩ := hfirst
      rw [List.map_cons, List.map_cons, ih, Fde.place, hback.pcBegin, hback.offset, hstart]

/-- **Every function is where it was written.** -/
theorem places_of_build (hreadable : Readable blueprint.items)
    (hkeeps : KeepsFields blueprint.items) (h : blueprint.build order = .ok bytes)
    (hvalid : ∀ fde, .fde fde ∈ blueprint.items →
      Fde.validStart image (blueprint.addressSize.truncate fde.pcBegin) = true) :
    ∃ emission table, blueprint.emit order = .ok emission ∧ emission.bytes = bytes ∧
      Table.parse (blueprint.target order) image bytes = .ok table ∧
      emission.fdes.map FdePlace.pcBegin =
        (blueprint.items.filterMap BlueprintItem.fde?).map FdeBlueprint.pcBegin ∧
      table.fdes.map Fde.place = emission.fdes.map fun place =>
        ⟨blueprint.addressSize.truncate place.pcBegin, place.offset⟩ := by
  obtain ⟨emission, table, hemit, hbytes, hparse, hstarts, hfdes⟩ :=
    fdes_of_build hreadable hkeeps h hvalid
  have hlength : emission.fdes.length ≤ (blueprint.items.filterMap BlueprintItem.fde?).length := by
    have := congrArg List.length hstarts
    simp only [List.length_map] at this
    omega
  refine ⟨emission, table, hemit, hbytes, hparse, hstarts, ?_⟩
  conv_rhs => rw [← List.map_snd_zip hlength, List.map_map]
  exact map_place_of_writtenAs hfdes

end Blueprint

end UnwindTables
