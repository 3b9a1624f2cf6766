/-
UnwindTables.Proofs.Table.ConcatenationTheorems — the table of sections put one after the other.

A section that ends exactly where its last record does can be followed by another one, which is how
such sections are built from many. `Table.parse_append` says what becomes of their tables: the table of
both together is the one table followed by the other, with every section offset of the second one
larger by the size of the first section. The second section is read for the address it is loaded at,
which is further on by that size as well.

## How the proof goes

A record does not depend on what comes after it (`Record.exists_header_of_read`), so the records of the
first section are read from both together, and where they end the second section begins
(`RecordStream.drain_append`). There it is read as on its own, but further on
(`RecordStream.drain_shift`).

What becomes of a record is up to the record and to the CIE that it refers to (`Entry.read_congr`). A
record of the first section refers to something before its own id, so to no CIE of the second one; a
record of the second one refers to something that is further on than the whole first section, so to
none of its CIEs. So both read their records with their own CIEs only.
-/
import UnwindTables.Proofs.Record.ShiftTheorems
import UnwindTables.Proofs.Table.TwoPassTheorems

namespace UnwindTables

variable (n : Nat)

/-! ## 1. Records -/

/-- The records end where the bytes do, neither with damage nor with a terminator. -/
structure Framing.IsWhole (framing : Framing) : Prop where
  fault : framing.fault = none
  rest : framing.stream.rest.size = 0

namespace RecordStream

variable {order : ByteOrder} {window : Window}

/-- The records of a stream that ends without damage, read further on. -/
theorem drain_shift (h : (ofWindow order window).drain.fault = none) :
    (ofWindow order (window.shift n)).drain.records =
        (ofWindow order window).drain.records.map (Record.shift n) ∧
      (ofWindow order (window.shift n)).drain.fault = none := by
  induction window using window_induction order with
  | none window hr =>
      rw [drain_of_none hr, drain_of_none (Record.read_shift_of_none n hr)]
      exact ⟨rfl, rfl⟩
  | fault window f hr =>
      rw [drain_of_fault hr] at h
      simp at h
  | record window first rest hr ih =>
      rw [drain_of_record hr] at h
      obtain ⟨hrecords, hfault⟩ := ih h
      rw [drain_of_record hr, drain_of_record (Record.read_shift n hr)]
      exact ⟨by rw [hrecords, List.map_cons], hfault⟩

/-- No record of a stream ends after its window does. -/
theorem stop_le_of_mem_drain {record : Record} (h : record ∈ (ofWindow order window).drain.records) :
    record.stop ≤ window.stop := by
  refine mem_drain_induction h ?here ?later
  case here =>
    intro window rest hr
    have hframes := Record.frames_of_read hr
    rw [← hframes.restStart, ← hframes.restStop]
    exact Nat.le_add_right _ _
  case later =>
    intro window first rest hr hstop
    rwa [← (Record.frames_of_read hr).restStop]

/-- Where the records end exactly, those of what comes next follow, and end as they do. -/
theorem drain_append (h : (ofWindow order window).drain.IsWhole) (more : List UInt8) :
    (ofWindow order ⟨window.bytes ++ more, window.offset⟩).drain.records =
        (ofWindow order window).drain.records ++
          (ofWindow order ⟨more, window.stop⟩).drain.records ∧
      (ofWindow order ⟨window.bytes ++ more, window.offset⟩).drain.fault =
        (ofWindow order ⟨more, window.stop⟩).drain.fault := by
  induction window using window_induction order with
  | none window hr =>
      have hempty := h.rest
      rw [drain_of_none hr] at hempty ⊢
      have hbytes : window.bytes = [] := List.eq_nil_of_length_eq_zero hempty
      have hstop : window.stop = window.offset := congrArg (window.offset + ·) hempty
      rw [hbytes, hstop]
      exact ⟨rfl, rfl⟩
  | fault window f hr =>
      have hfault := h.fault
      rw [drain_of_fault hr] at hfault
      simp at hfault
  | record window first rest hr ih =>
      obtain ⟨header, hbytes, hreads⟩ := Record.exists_header_of_read hr
      have hread := hreads first.body.bytes (rest.bytes ++ more) rfl
      rw [← List.append_assoc, ← hbytes] at hread
      rw [drain_of_record hr] at h ⊢
      rw [drain_of_record hread, ← (Record.frames_of_read hr).restStop]
      obtain ⟨hrecords, hfault⟩ := ih ⟨h.fault, h.rest⟩
      exact ⟨congrArg (first :: ·) hrecords, hfault⟩

end RecordStream

namespace Framing

variable {order : ByteOrder} {front back : List UInt8}

/-- **The records of two sections, one after the other.** If the records of the first one end where it
does, and those of the second one end without damage, they are the records of both together, the
second ones further on by the size of the first section. -/
theorem records_append (hfront : (ofSection order front).IsWhole)
    (hback : (ofSection order back).fault = none) :
    (ofSection order (front ++ back)).records = (ofSection order front).records ++
        (ofSection order back).records.map (Record.shift front.length) ∧
      (ofSection order (front ++ back)).fault = none := by
  obtain ⟨hrecords, hfault⟩ := RecordStream.drain_append hfront back
  obtain ⟨hmoved, hends⟩ := RecordStream.drain_shift front.length hback
  refine ⟨hrecords.trans ?_, hfault.trans hends⟩
  exact congrArg ((ofSection order front).records ++ ·) hmoved

/-- The records of a section end where it does at the latest. -/
theorem stop_le_of_mem {bytes : List UInt8} {record : Record}
    (h : record ∈ (ofSection order bytes).records) : record.stop ≤ bytes.length := by
  have hstop := RecordStream.stop_le_of_mem_drain h
  rwa [Window.stop, Window.ofSection, Nat.zero_add] at hstop

end Framing

/-! ## 2. Entries -/

/-- Where what is picked of a moved item is what is picked of the item, moved, the same goes for
lists. -/
theorem filterMap_map_moved {α α' β β' : Type} {pick : α → Option β} {pick' : α' → Option β'}
    {move : α → α'} {move' : β → β'} (h : ∀ item, pick' (move item) = (pick item).map move')
    (items : List α) :
    (items.map move).filterMap pick' = (items.filterMap pick).map move' := by
  rw [List.filterMap_map, List.map_filterMap]
  exact List.filterMap_congr fun item _ => h item

namespace Entry

/-- The same entry `n` bytes further on in the section. -/
def shift : Entry → Entry
  | cie c ending => cie (c.shift n) (ending.shift n)
  | fde f problem => fde (f.shift n) (problem.map (Fault.shift n))
  | dropped offset fault => dropped (offset + n) (fault.shift n)

theorem cie?_shift (entry : Entry) : (entry.shift n).cie? = entry.cie?.map (Cie.shift n) := by
  cases entry <;> rfl

theorem fde?_shift (entry : Entry) : (entry.shift n).fde? = entry.fde?.map (Fde.shift n) := by
  cases entry <;> rfl

theorem offset_shift (entry : Entry) : (entry.shift n).offset = entry.offset + n := by
  cases entry <;> rfl

theorem fault?_shift (entry : Entry) :
    (entry.shift n).fault? = entry.fault?.map (Fault.shift n) := by
  cases entry with
  | cie c ending => exact BlockEnding.fault?_shift n ending
  | fde f problem => rfl
  | dropped offset fault => rfl

/-- A record that is further on is read as the record itself, if it refers to the same CIE further
on. -/
theorem read_shift (target : Target) (image : Option Image) {seen seen' : List Cie} {record : Record}
    (h : ∀ owner, record.kind = .fde owner →
      seen'.find? (·.offset == owner + n) = (seen.find? (·.offset == owner)).map (Cie.shift n)) :
    read target image seen' (record.shift n) =
      (read (target.advance n) image seen record).shift n := by
  unfold read
  cases hkind : record.kind with
  | cie =>
      simp only [Record.kind_shift, hkind, RecordKind.shift, Cie.read_shift]
      cases Cie.read (target.advance n) record with
      | ok read => rfl
      | error fault =>
          simp only [shifted_error, Fault.withinRecord_shift]
          rfl
  | fde owner =>
      simp only [Record.kind_shift, hkind, RecordKind.shift, h owner hkind]
      cases seen.find? (·.offset == owner) with
      | none => rfl
      | some c =>
          simp only [Option.map_some, Fde.read_shift]
          cases Fde.read (target.advance n) image c record with
          | ok read => rfl
          | error fault =>
              simp only [shifted_error, Fault.withinRecord_shift]
              rfl

end Entry

namespace Cie

theorem ofRecord?_shift (target : Target) (record : Record) :
    ofRecord? target (record.shift n) = (ofRecord? (target.advance n) record).map (shift n) := by
  unfold ofRecord?
  cases hkind : record.kind with
  | cie =>
      simp only [Record.kind_shift, hkind, RecordKind.shift, read_shift]
      cases Cie.read (target.advance n) record <;> rfl
  | fde owner =>
      simp only [Record.kind_shift, hkind, RecordKind.shift]
      rfl

/-- A CIE is found further on where it is found. -/
theorem find?_shift (cies : List Cie) (owner : Nat) :
    (cies.map (shift n)).find? (·.offset == owner + n) =
      (cies.find? (·.offset == owner)).map (shift n) := by
  rw [List.find?_map]
  congr 2
  funext c
  simp [shift]

/-- Nothing is found further on at a section offset before that. -/
theorem find?_shift_of_lt (cies : List Cie) {owner : Nat} (h : owner < n) :
    (cies.map (shift n)).find? (·.offset == owner) = none := by
  refine List.find?_eq_none.mpr ?_
  intro c hc
  obtain ⟨before, -, rfl⟩ := List.mem_map.mp hc
  simp only [shift, beq_iff_eq]
  omega

end Cie

namespace Entry

variable {target : Target} {image : Option Image} {record : Record} {seen : List Cie}

/-- CIEs that are further on than what a record refers to make no difference to it. -/
theorem read_of_later (later : List Cie)
    (h : ∀ owner, record.kind = .fde owner → owner < n) :
    read target image (seen ++ later.map (Cie.shift n)) record = read target image seen record := by
  refine read_congr ?_
  intro owner hkind
  rw [List.find?_append, Cie.find?_shift_of_lt n later (h owner hkind), Option.or_none]

/-- CIEs before the place that a record is moved past make no difference to it. -/
theorem read_of_earlier (later : List Cie) (h : ∀ c ∈ seen, c.offset < n) :
    read target image (seen ++ later.map (Cie.shift n)) (record.shift n) =
      (read (target.advance n) image later record).shift n := by
  refine read_shift n target image ?_
  intro owner _
  have hnone : seen.find? (·.offset == owner + n) = none := by
    refine List.find?_eq_none.mpr ?_
    intro c hc
    have hbefore := h c hc
    simp only [beq_iff_eq]
    omega
  rw [List.find?_append, hnone, Option.none_or, Cie.find?_shift]

end Entry

/-! ## 3. Tables -/

/-- The same diagnostic `n` bytes further on in the section. -/
def Diagnostic.shift (diagnostic : Diagnostic) : Diagnostic :=
  ⟨diagnostic.offset + n, diagnostic.fault.shift n⟩

theorem Entry.diagnostic?_shift (entry : Entry) :
    (entry.shift n).diagnostic? = entry.diagnostic?.map (Diagnostic.shift n) := by
  rw [diagnostic?, diagnostic?, fault?_shift, offset_shift]
  cases entry.fault? <;> rfl

namespace Table

/-- The same table `n` bytes further on in the section. -/
def shift (table : Table) : Table :=
  ⟨table.cies.map (Cie.shift n), table.fdes.map (Fde.shift n),
    table.diagnostics.map (Diagnostic.shift n)⟩

/-- What one table describes, and then what another one does. -/
def append (front back : Table) : Table :=
  ⟨front.cies ++ back.cies, front.fdes ++ back.fdes, front.diagnostics ++ back.diagnostics⟩

theorem ofEntries_append (front back : List Entry) :
    ofEntries (front ++ back) = (ofEntries front).append (ofEntries back) := by
  simp only [ofEntries, append, List.filterMap_append]

theorem ofEntries_shift (entries : List Entry) :
    ofEntries (entries.map (Entry.shift n)) = (ofEntries entries).shift n := by
  simp only [ofEntries, shift, filterMap_map_moved (Entry.cie?_shift n),
    filterMap_map_moved (Entry.fde?_shift n), filterMap_map_moved (Entry.diagnostic?_shift n)]

variable {target : Target} {image : Option Image} {front back : List Record}

/-- The table of some records and of others that are further on than all of them. -/
theorem ofRecords_append (target : Target) (image : Option Image)
    (hstop : ∀ record ∈ front, record.stop ≤ n)
    (hback : ∀ record ∈ front, ∀ owner, record.kind = .fde owner → owner < record.idOffset) :
    ofRecords target image (front ++ back.map (Record.shift n)) =
      (ofRecords target image front).append ((ofRecords (target.advance n) image back).shift n) := by
  have hcies : (front ++ back.map (Record.shift n)).filterMap (Cie.ofRecord? target) =
      front.filterMap (Cie.ofRecord? target) ++
        (back.filterMap (Cie.ofRecord? (target.advance n))).map (Cie.shift n) := by
    rw [List.filterMap_append, filterMap_map_moved (Cie.ofRecord?_shift n target)]
  have hfront : ∀ record ∈ front, ∀ owner, record.kind = .fde owner → owner < n := by
    intro record hr owner hkind
    calc
      owner < record.idOffset := hback record hr owner hkind
      _ ≤ record.stop := record.idOffset_le_stop
      _ ≤ n := hstop record hr
  have hseen : ∀ c ∈ front.filterMap (Cie.ofRecord? target), c.offset < n := by
    intro c hc
    obtain ⟨record, hr, hofRecord⟩ := List.mem_filterMap.mp hc
    rw [(Cie.ofRecord?_eq_some hofRecord).2]
    exact Nat.lt_of_lt_of_le record.offset_lt_stop (hstop record hr)
  simp only [ofRecords, hcies, List.map_append, List.map_map]
  rw [ofEntries_append, ← ofEntries_shift, List.map_map]
  refine congrArg₂ append (congrArg ofEntries ?_) (congrArg ofEntries ?_)
  · exact List.map_congr_left fun record hr => Entry.read_of_later n _ (hfront record hr)
  · exact List.map_congr_left fun record _ => Entry.read_of_earlier n _ hseen

/-- **The table of sections put one after the other.** If the records of the first section end where
it does, both together have the table of the first one followed by that of the second one, which is
read for the address that it is loaded at and moved by the size of the first one. -/
theorem parse_append (target : Target) (image : Option Image) {front back : List UInt8}
    {frontTable backTable : Table} (hwhole : (Framing.ofSection target.order front).IsWhole)
    (hfront : parse target image front = .ok frontTable)
    (hback : parse (target.advance front.length) image back = .ok backTable) :
    parse target image (front ++ back) =
      .ok (frontTable.append (backTable.shift front.length)) := by
  have hends := fault_eq_none_of_parse hback
  obtain ⟨hrecords, hfault⟩ := Framing.records_append hwhole hends
  obtain rfl := Except.ok.inj (hfront.symm.trans (parse_eq_ofRecords image hwhole.fault))
  obtain rfl := Except.ok.inj (hback.symm.trans (parse_eq_ofRecords image hends))
  rw [parse_eq_ofRecords image hfault, hrecords]
  exact congrArg Except.ok (ofRecords_append front.length target image
    (fun _ hr => Framing.stop_le_of_mem hr) fun _ hr _ hkind => Framing.owner_lt_of_mem hr hkind)

/-- A CIE and the FDE of one function. -/
def functionSection : List UInt8 :=
  [16, 0, 0, 0, 0, 0, 0, 0, 1, 0x7a, 0x52, 0, 1, 0x78, 16, 1, 0x1b, 0, 0, 0,
   16, 0, 0, 0, 24, 0, 0, 0, 0, 0x10, 0, 0, 0x40, 0, 0, 0, 0, 0, 0, 0]

/-- The same, and an FDE that refers to itself. -/
def danglingSection : List UInt8 := functionSection ++ [8, 0, 0, 0, 4, 0, 0, 0, 0, 0, 0, 0]

/-- The CIE of such a section. -/
def functionCie : Cie where
  offset := 0
  format := .dwarf32
  length := 16
  version := .one
  augmentation := ['z'.toUInt8, 'R'.toUInt8]
  codeAlignment := 1
  dataAlignment := -8
  returnAddressRegister := 16
  declared := ⟨⟨true, false, false, true, false, false⟩, some 0x1b, none, none, none⟩
  instructions := ⟨17, 20⟩

/-- The FDE of such a section, with the address that its function has there. -/
def functionFde (pcBegin : UInt64) : Fde where
  offset := 20
  format := .dwarf32
  length := 16
  cie := 0
  pcBegin := pcBegin
  pcRange := 0x40
  lsda := none
  augmentationData := ⟨37, 37⟩
  instructions := ⟨37, 40⟩

theorem parse_functionThenDangling :
    (Framing.ofSection sectionTarget.order functionSection).IsWhole ∧
      parse sectionTarget none functionSection = .ok ⟨[functionCie], [functionFde 0x201c], []⟩ ∧
      parse (sectionTarget.advance functionSection.length) none danglingSection =
        .ok ⟨[functionCie], [functionFde 0x2044], [⟨40, .danglingReference 40 40⟩]⟩ ∧
      parse sectionTarget none (functionSection ++ danglingSection) =
        .ok (append ⟨[functionCie], [functionFde 0x201c], []⟩
          (shift functionSection.length
            ⟨[functionCie], [functionFde 0x2044], [⟨40, .danglingReference 40 40⟩]⟩)) := by
  have hwhole : (Framing.ofSection sectionTarget.order functionSection).IsWhole :=
    ⟨by cbv, by cbv⟩
  have hfront : parse sectionTarget none functionSection =
      .ok ⟨[functionCie], [functionFde 0x201c], []⟩ := by decide +kernel
  have hback : parse (sectionTarget.advance functionSection.length) none danglingSection =
      .ok ⟨[functionCie], [functionFde 0x2044], [⟨40, .danglingReference 40 40⟩]⟩ := by decide +kernel
  exact ⟨hwhole, hfront, hback, parse_append sectionTarget none hwhole hfront hback⟩

end Table

end UnwindTables
