/-
UnwindTables.Proofs.Table.TruncationTheorems — a section that is cut off, and one that goes on after
its end.

The records of a section lie end to end, and the offsets between them are its boundaries. Cut at a
boundary, a section is a shorter one that is in order; cut anywhere else before its last record ends, it
has no table at all (`Framing.Cut`). So what is cut off is never taken for the end of a section, wherever
in a record the cut is: in the length, in an extended length, in the id or in the body.

After its last record, on the other hand, a section can go on in any way once a length of zero has been
met, and `Table.parse` does not look at it. `Framing.Delimited` states both, and `Table.parse_delimited`
proves them of every section that ends without damage.

## How the proof goes

The beginning of a record is one of the things that no record starts with (`Record.damaged_of_cut`). So
the beginning of records that lie end to end is some of them, followed by nothing or by damage
(`Record.Tile.take_flatMap`), and such bytes are read back as what they were written from
(`RecordStream.drain_write`). What follows the last record was read as the end, and it is still one with
more after it.
-/
import UnwindTables.Proofs.Record.FormatTheorems
import UnwindTables.Proofs.Table.ConcatenationTheorems

namespace UnwindTables

variable {order : ByteOrder} {record : Record} {records : List Record} {start stop k : Nat}

/-! ## 1. The beginning of a record -/

namespace Record

/-- **The beginning of a record is not the end of a section and starts no other record.** -/
theorem Storable.damaged_of_cut (h : record.Storable) (order : ByteOrder) (hpos : 0 < k)
    (hcut : k < (record.write order).length) :
    ∃ fault, Damaged order record.offset ((record.write order).take k) fault := by
  have hlength := h.length_eq
  have hcontent : (order.bytes 4 record.idField ++ record.body.bytes).length = record.length := by
    rw [List.length_append, ByteOrder.length_bytes, hlength]
  have htaken : ((record.write order).take k).length = k := by
    rw [List.length_take]
    omega
  rcases Nat.lt_or_ge k 4 with hshort | hlong
  · refine ⟨_, .cutLength (fun hnil => ?_) (by omega)⟩
    rw [hnil, List.length_nil] at htaken
    omega
  rw [write, List.append_assoc] at htaken ⊢
  generalize order.bytes 4 record.idField ++ record.body.bytes = content at hcontent htaken ⊢
  rcases Nat.lt_or_ge k record.format.lengthSize with hextended | hwhole
  · -- Only an extended length takes more than four bytes.
    cases hformat : record.format with
    | dwarf32 =>
        rw [hformat, RecordFormat.lengthSize] at hextended
        omega
    | dwarf64 =>
        rw [hformat, RecordFormat.lengthSize] at hextended
        have hescape : (order.bytes 4 RecordFormat.escape).length = 4 := ByteOrder.length_bytes ..
        rw [RecordFormat.lengthField, List.append_assoc, List.take_append,
          List.take_of_length_le (by omega)]
        refine ⟨_, .cutExtended ?_⟩
        rw [List.length_take]
        omega
  · have hfield := RecordFormat.length_lengthField order record.length record.format
    have hwritten : (record.write order).length = record.format.lengthSize + record.length := by
      have := h.length_write order
      rw [Record.stop] at this
      omega
    rw [List.take_append, List.take_of_length_le (by omega)]
    refine ⟨_, .overrun h.holds ?_⟩
    rw [List.length_take]
    omega

/-! ## 2. The beginning of many -/

/-- The offsets between records that lie end to end increase. -/
theorem Tile.increasing (h : Tile start records stop) :
    (start :: records.map Record.stop).Pairwise (· < ·) := by
  induction records generalizing start with
  | nil => exact List.pairwise_singleton _ _
  | cons record records ih =>
      obtain ⟨rfl, hafter⟩ := h
      have hrest := ih hafter
      rw [List.map_cons, List.pairwise_cons]
      refine ⟨fun offset hoffset => ?_, hrest⟩
      have hlt := record.offset_lt_stop
      rcases List.mem_cons.mp hoffset with rfl | hlater
      · exact hlt
      · exact Nat.lt_trans hlt (List.rel_of_pairwise_cons hrest hlater)

/-- The last of them is where the records stop. -/
theorem Tile.getLast?_boundaries (h : Tile start records stop) :
    (start :: records.map Record.stop).getLast? = some stop := by
  induction records generalizing start with
  | nil => exact congrArg some h
  | cons record records ih => exact ih h.2

/-- Records that lie end to end take the bytes between their first and their last offset. -/
theorem Tile.length_flatMap (h : Tile start records stop) (hs : ∀ record ∈ records, record.Storable)
    (order : ByteOrder) : start + (records.flatMap (write order)).length = stop := by
  induction records generalizing start with
  | nil => exact h
  | cons record records ih =>
      obtain ⟨rfl, hafter⟩ := h
      have hfirst := (hs record List.mem_cons_self).length_write order
      have hrest := ih hafter fun later hlater => hs later (List.mem_cons_of_mem record hlater)
      rw [List.flatMap_cons, List.length_append]
      omega

/-- **The beginning of records that lie end to end is those that end in it**, with nothing after them if
it ends where a record does, and otherwise with damage. -/
theorem Tile.take_flatMap (h : Tile start records stop) (hs : ∀ record ∈ records, record.Storable)
    (order : ByteOrder) (hstart : start ≤ k) (hstop : k ≤ stop) :
    ∃ last tail,
      (records.flatMap (write order)).take (k - start) =
        (records.filter (·.stop ≤ k)).flatMap (write order) ++ tail ∧
      Tile start (records.filter (·.stop ≤ k)) last ∧
      ((k ∈ start :: records.map Record.stop ∧ tail = []) ∨
        (k ∉ start :: records.map Record.stop ∧ ∃ fault, Damaged order last tail fault)) := by
  induction records generalizing start with
  | nil =>
      obtain rfl : start = stop := h
      exact ⟨start, [], by simp, rfl, Or.inl ⟨by simp; omega, rfl⟩⟩
  | cons record records ih =>
      have hincreasing := h.increasing
      obtain ⟨rfl, hafter⟩ := h
      have hstorable := hs record List.mem_cons_self
      have hwritten := hstorable.length_write order
      have hlt := record.offset_lt_stop
      rw [List.map_cons, List.pairwise_cons] at hincreasing
      rcases Nat.lt_or_ge k record.stop with hinside | hbeyond
      · -- The cut is in the first record, so no record ends before it.
        have hlater : ∀ offset ∈ (record :: records).map Record.stop, k < offset := by
          intro offset hoffset
          rcases List.mem_cons.mp hoffset with rfl | hoffset
          · exact hinside
          · exact Nat.lt_trans hinside (List.rel_of_pairwise_cons hincreasing.2 hoffset)
        have hnone : (record :: records).filter (·.stop ≤ k) = [] := by
          refine List.filter_eq_nil_iff.mpr fun later hmem => ?_
          have := hlater _ (List.mem_map_of_mem hmem)
          simp only [decide_eq_true_eq]
          omega
        have hcut : ((record :: records).flatMap (write order)).take (k - record.offset) =
            (record.write order).take (k - record.offset) := by
          rw [List.flatMap_cons, List.take_append_of_le_length (by omega)]
        rw [hnone, hcut]
        refine ⟨record.offset, _, rfl, rfl, ?_⟩
        rcases Nat.eq_or_lt_of_le hstart with rfl | hpast
        · exact Or.inl ⟨List.mem_cons_self, by rw [Nat.sub_self, List.take_zero]⟩
        · refine Or.inr ⟨?_, hstorable.damaged_of_cut order (by omega) (by omega)⟩
          intro hmem
          rcases List.mem_cons.mp hmem with rfl | hmem
          · exact Nat.lt_irrefl _ hpast
          · exact Nat.lt_irrefl _ (hlater k hmem)
      · obtain ⟨last, tail, hbytes, htile, hcases⟩ := ih hafter
          (fun later hlater => hs later (List.mem_cons_of_mem record hlater)) hbeyond
        have hkept : (record :: records).filter (·.stop ≤ k) =
            record :: records.filter (·.stop ≤ k) :=
          List.filter_cons_of_pos (decide_eq_true hbeyond)
        have hrest : k - record.offset - (record.write order).length = k - record.stop := by omega
        have hmem : k ∈ record.offset :: (record :: records).map Record.stop ↔
            k ∈ record.stop :: records.map Record.stop := by
          rw [List.mem_cons, List.map_cons, or_iff_right (by omega)]
        rw [hkept, hmem]
        refine ⟨last, tail, ?_, ⟨rfl, htile⟩, hcases⟩
        rw [List.flatMap_cons, List.flatMap_cons, List.take_append,
          List.take_of_length_le (by omega), hrest, hbytes, List.append_assoc]

end Record

/-! ## 3. The beginning of a section -/

namespace Framing

/-- The offsets between the records of a section, where it begins and where they end included. -/
def boundaries (framing : Framing) : List Nat := 0 :: framing.records.map Record.stop

variable {bytes : List UInt8}

/-- The records of a section take its bytes up to where they end. -/
theorem length_flatMap_records (order : ByteOrder) (bytes : List UInt8) :
    ((ofSection order bytes).records.flatMap (Record.write order)).length =
      (ofSection order bytes).stream.rest.offset := by
  have hlength := (tile_ofSection order bytes).length_flatMap (fun _ hr => storable_of_mem hr) order
  rwa [Nat.zero_add] at hlength

/-- What the records of a section leave of it is what comes after the last of them. -/
theorem drop_rest (order : ByteOrder) (bytes : List UInt8) :
    bytes.drop (ofSection order bytes).stream.rest.offset =
      (ofSection order bytes).stream.rest.bytes := by
  have hdrop := congrArg (List.drop (ofSection order bytes).stream.rest.offset)
    (bytes_ofSection order bytes)
  rwa [List.drop_left' (length_flatMap_records order bytes)] at hdrop

/-- The records of the beginning of a section, and how they end. -/
theorem ofSection_take (hk : k ≤ (ofSection order bytes).stream.rest.offset) :
    (ofSection order (bytes.take k)).records =
        (ofSection order bytes).records.filter (·.stop ≤ k) ∧
      (k ∈ (ofSection order bytes).boundaries → (ofSection order (bytes.take k)).fault = none) ∧
      (k ∉ (ofSection order bytes).boundaries →
        ∃ fault, (ofSection order (bytes.take k)).fault = some fault) := by
  have htile := tile_ofSection order bytes
  have hs : ∀ record ∈ (ofSection order bytes).records, record.Storable :=
    fun _ hr => storable_of_mem hr
  have hkept : ∀ record ∈ (ofSection order bytes).records.filter (·.stop ≤ k), record.Storable :=
    fun record hr => hs record (List.mem_of_mem_filter hr)
  have hlength := length_flatMap_records order bytes
  obtain ⟨last, tail, htake, hfront, hcases⟩ := htile.take_flatMap hs order (Nat.zero_le k) hk
  have hcut : bytes.take k =
      ((ofSection order bytes).records.filter (·.stop ≤ k)).flatMap (Record.write order) ++ tail := by
    conv_lhs => rw [bytes_ofSection order bytes, List.take_append_of_le_length (by omega)]
    exact htake
  rw [hcut]
  rcases hcases with ⟨hmem, rfl⟩ | ⟨hnot, fault, hdamaged⟩
  · obtain ⟨hrecords, hfault⟩ := ofSection_of_end order hfront hkept (Or.inl rfl)
    exact ⟨hrecords, fun _ => hfault, fun hnot => absurd hmem hnot⟩
  · obtain ⟨hrecords, hfault⟩ := ofSection_of_damaged hfront hkept hdamaged
    exact ⟨hrecords, fun hmem => absurd hmem hnot, fun _ => ⟨fault, hfault⟩⟩

/-- The records and the end of a section with more after its own end. -/
theorem ofSection_append_of_end {more : List UInt8}
    (h : EndsSection ((ofSection order bytes).stream.rest.bytes ++ more)) :
    (ofSection order (bytes ++ more)).records = (ofSection order bytes).records ∧
      (ofSection order (bytes ++ more)).fault = none := by
  have hmore : bytes ++ more = (ofSection order bytes).records.flatMap (Record.write order) ++
      ((ofSection order bytes).stream.rest.bytes ++ more) := by
    conv_lhs => rw [bytes_ofSection order bytes, List.append_assoc]
  rw [hmore]
  exact ofSection_of_end order (tile_ofSection order bytes) (fun _ hr => storable_of_mem hr) h

/-- What a section becomes that is cut off after `k` bytes. -/
structure Cut (target : Target) (image : Option Image) (bytes : List UInt8) (framing : Framing)
    (k : Nat) : Prop where
  /-- Its records are those that end within these bytes. -/
  records : (ofSection target.order (bytes.take k)).records = framing.records.filter (·.stop ≤ k)
  /-- A stream gives them one after the other, then the damage if there is any, and then nothing. -/
  answers : ∀ requests, ((RecordStream.ofSection target.order (bytes.take k)).skip requests).next.1 =
    ((framing.records.filter (·.stop ≤ k)).map Except.ok ++
      (ofSection target.order (bytes.take k)).fault.toList.map Except.error)[requests]?
  /-- Cut between two records, it ends there and has the table of the records before. -/
  between : k ∈ framing.boundaries →
    (ofSection target.order (bytes.take k)).fault = none ∧
      Table.parse target image (bytes.take k) =
        .ok (Table.ofRecords target image (framing.records.filter (·.stop ≤ k)))
  /-- Cut inside a record, it is damaged and has no table. -/
  inside : k ∉ framing.boundaries → ∃ offset reason,
    (ofSection target.order (bytes.take k)).fault = some (.malformed offset reason) ∧
      Table.parse target image (bytes.take k) = .error (.malformed offset reason)

/-- Where a section ends is known from its bytes: it is noticed if some of them are missing, and it does
not matter what comes after them. -/
structure Delimited (target : Target) (image : Option Image) (bytes : List UInt8) (framing : Framing) :
    Prop where
  /-- The boundaries increase, from the start of the section … -/
  increasing : framing.boundaries.Pairwise (· < ·)
  /-- … up to where its records end. -/
  last : framing.boundaries.getLast? = some framing.stream.rest.offset
  /-- Anything missing of the records is noticed, unless it is whole records. -/
  cut : ∀ k ≤ framing.stream.rest.offset, framing.Cut target image bytes k
  /-- After the records there is nothing or a length of zero. -/
  ends : framing.stream.rest.offset = bytes.length ∨
    ∃ after, bytes.drop framing.stream.rest.offset = [0, 0, 0, 0] ++ after
  /-- With a length of zero there, more bytes change nothing. -/
  terminated : (∃ after, bytes.drop framing.stream.rest.offset = [0, 0, 0, 0] ++ after) →
    ∀ more, Table.parse target image (bytes ++ more) = Table.parse target image bytes
  /-- With nothing there, a length of zero changes nothing, and neither does anything after it. -/
  exhausted : framing.stream.rest.offset = bytes.length →
    ∀ more, Table.parse target image (bytes ++ ([0, 0, 0, 0] ++ more)) =
      Table.parse target image bytes

theorem cut_of_le (target : Target) (image : Option Image) (bytes : List UInt8)
    (hk : k ≤ (ofSection target.order bytes).stream.rest.offset) :
    (ofSection target.order bytes).Cut target image bytes k := by
  obtain ⟨hrecords, hbetween, hinside⟩ := ofSection_take hk
  refine ⟨hrecords, fun requests => ?_, fun hmem => ⟨hbetween hmem, ?_⟩, fun hnot => ?_⟩
  · rw [← hrecords]
    exact RecordStream.next_skip target.order (.ofSection (bytes.take k)) requests
  · rw [← hrecords]
    exact Table.parse_eq_ofRecords image (hbetween hmem)
  · obtain ⟨fault, hfault⟩ := hinside hnot
    obtain ⟨offset, reason, rfl⟩ := isMalformation_of_fault hfault
    exact ⟨offset, reason, hfault, by rw [Table.parse_eq, hfault]⟩

end Framing

/-! ## 4. The table of a section that is cut off or goes on -/

namespace Table

variable {target : Target} {bytes : List UInt8}

/-- Where a section ends, more after its end changes nothing about its table. -/
theorem parse_append_of_end (image : Option Image) {more : List UInt8}
    (h : (Framing.ofSection target.order bytes).fault = none)
    (hend : EndsSection ((Framing.ofSection target.order bytes).stream.rest.bytes ++ more)) :
    parse target image (bytes ++ more) = parse target image bytes := by
  obtain ⟨hrecords, hfault⟩ := Framing.ofSection_append_of_end hend
  rw [parse_eq_ofRecords image hfault, parse_eq_ofRecords image h, hrecords]

/-- **A section that is cut off is never taken for a whole one**, unless it is cut between two of its
records; **and nothing after the end of a section is read.** -/
theorem parse_delimited (target : Target) (image : Option Image) (bytes : List UInt8)
    (h : (Framing.ofSection target.order bytes).fault = none) :
    (Framing.ofSection target.order bytes).Delimited target image bytes where
  increasing := (Framing.tile_ofSection target.order bytes).increasing
  last := (Framing.tile_ofSection target.order bytes).getLast?_boundaries
  cut := fun _ hk => Framing.cut_of_le target image bytes hk
  ends := by
    have hle := Framing.length_flatMap_records target.order bytes
    have hdrop := Framing.drop_rest target.order bytes
    have hend : EndsSection (Framing.ofSection target.order bytes).stream.rest.bytes := by
      simpa [h] using Framing.rest_cases target.order bytes
    rw [hdrop]
    refine hend.imp (fun hnil => ?_) id
    have htotal := congrArg List.length (Framing.bytes_ofSection target.order bytes)
    rw [hnil, List.append_nil, hle] at htotal
    exact htotal.symm
  terminated := by
    rintro ⟨after, hafter⟩ more
    rw [Framing.drop_rest] at hafter
    refine parse_append_of_end image h (Or.inr ⟨after ++ more, ?_⟩)
    rw [hafter, List.append_assoc]
  exhausted := by
    intro hstop more
    have hnothing := Framing.drop_rest target.order bytes
    rw [hstop, List.drop_length] at hnothing
    refine parse_append_of_end image h (Or.inr ⟨more, ?_⟩)
    rw [← hnothing, List.nil_append]

/-- The two records of this section lie between its boundaries. -/
theorem parse_delimited_functionSection :
    (Framing.ofSection sectionTarget.order functionSection).fault = none ∧
      (Framing.ofSection sectionTarget.order functionSection).boundaries = [0, 20, 40] ∧
      (Framing.ofSection sectionTarget.order functionSection).Delimited sectionTarget none
        functionSection := by
  have hfault : (Framing.ofSection sectionTarget.order functionSection).fault = none := by cbv
  refine ⟨hfault, by cbv, parse_delimited sectionTarget none functionSection hfault⟩

end Table

end UnwindTables
