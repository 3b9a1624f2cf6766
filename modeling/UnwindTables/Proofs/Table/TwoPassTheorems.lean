/-
UnwindTables.Proofs.Table.TwoPassTheorems — one pass over the records of a section is as good as two.

A section is read from front to back, and an FDE is read with the CIEs that have been seen by then.
`Table.ofTwoPasses` is the table that a reader without this restriction makes: it reads all of the
CIEs first and then every FDE, with all of them at hand. `Table.parse_eq_ofTwoPasses` says that the
tables are the same.

## How the proof goes

An FDE refers to something before its own id (`Framing.owner_lt_of_mem`), and a record that starts
there is not after it, because records do not overlap (`Framing.ordered`). So the CIEs from the FDE on
make no difference to the lookup (`Cie.find?_of_before`), and every entry is a function of its record
and of the CIEs of the whole section (`Entry.readAll_eq_map`). What else two passes change is the
order in which faults are met, and sorting them by section offset restores it.
-/
import UnwindTables.Proofs.Record.HeaderTheorems
import UnwindTables.Proofs.Table.EncodingTheorems
import Mathlib.Data.List.Sort

namespace UnwindTables

/-! ## 1. The CIEs of a table -/

/-- The CIE of a record, if the record holds one that can be read. -/
def Cie.ofRecord? (target : Target) (record : Record) : Option Cie :=
  match record.kind with
  | .cie => (Cie.read target record).toOption.map Prod.fst
  | .fde _ => none

namespace Entry

theorem cie?_read (target : Target) (image : Option Image) (seen : List Cie) (record : Record) :
    (read target image seen record).cie? = Cie.ofRecord? target record := by
  unfold read Cie.ofRecord?
  cases record.kind with
  | cie =>
      cases Cie.read target record <;> rfl
  | fde owner =>
      simp only
      split
      · rfl
      · split <;> rfl

theorem cies_readAll (target : Target) (image : Option Image) (seen : List Cie)
    (records : List Record) :
    (readAll target image seen records).filterMap cie? =
      records.filterMap (Cie.ofRecord? target) := by
  induction records generalizing seen with
  | nil => rfl
  | cons record records ih =>
      rw [readAll, List.filterMap_cons, List.filterMap_cons, cie?_read, ih]

end Entry

namespace Cie

variable {target : Target} {record : Record} {records before after : List Record}

/-- The CIE of a record was read from it. -/
theorem read_of_ofRecord? {c : Cie} (h : ofRecord? target record = some c) :
    record.kind = .cie ∧ ∃ ending, Cie.read target record = .ok (c, ending) := by
  unfold ofRecord? at h
  split at h
  · next hkind =>
      obtain ⟨⟨c', ending⟩, hread, hc⟩ := Option.map_eq_some_iff.mp h
      obtain rfl : c' = c := hc
      cases hresult : Cie.read target record with
      | error fault => simp [hresult, Except.toOption] at hread
      | ok result =>
          rw [hresult] at hread
          obtain rfl := Option.some.inj hread
          exact ⟨hkind, ending, rfl⟩
  · simp at h

theorem ofRecord?_eq_some {c : Cie} (h : ofRecord? target record = some c) :
    record.kind = .cie ∧ c.offset = record.offset := by
  obtain ⟨hkind, ending, hread⟩ := read_of_ofRecord? h
  obtain ⟨_, _, -, -, hoffset, -⟩ := Cie.read_eq_ok_iff.mp hread
  exact ⟨hkind, hoffset⟩

/-- The section offsets of the CIEs increase if those of the records do. -/
theorem offsets_ofRecord? (h : (records.map Record.offset).Pairwise (· < ·)) :
    ((records.filterMap (ofRecord? target)).map Cie.offset).Pairwise (· < ·) :=
  h.sublist (sublist_filterMap_key (fun _ _ hc => (ofRecord?_eq_some hc).2) records)

/-- No CIE from an FDE on is the one that the FDE refers to. -/
theorem find?_of_before
    (hordered : (before ++ record :: after).Pairwise fun earlier later => earlier.stop ≤ later.offset)
    {owner : Nat} (hkind : record.kind = .fde owner) (howner : owner < record.idOffset) :
    ((before ++ record :: after).filterMap (ofRecord? target)).find? (·.offset == owner) =
      (before.filterMap (ofRecord? target)).find? (·.offset == owner) := by
  have hlater : ((record :: after).filterMap (ofRecord? target)).find? (·.offset == owner) =
      none := by
    refine List.find?_eq_none.mpr ?_
    intro c hc
    obtain ⟨other, hother, hofRecord⟩ := List.mem_filterMap.mp hc
    obtain ⟨hcie, hoffset⟩ := ofRecord?_eq_some hofRecord
    rcases List.mem_cons.mp hother with rfl | hother
    · rw [hkind] at hcie
      simp at hcie
    · have hstop := (List.pairwise_cons.mp (List.pairwise_append.mp hordered).2.1).1 other hother
      have hid := record.idOffset_le_stop
      simp only [beq_iff_eq]
      omega
  rw [List.filterMap_append, List.find?_append, hlater, Option.or_none]

end Cie

/-! ## 2. Every entry on its own -/

/-- Where keys increase, it does not matter from which end an item is looked for. -/
theorem find?_reverse_key {α : Type} {key : α → Nat} {items : List α}
    (h : (items.map key).Pairwise (· < ·)) (n : Nat) :
    items.reverse.find? (fun a => key a == n) = items.find? (fun a => key a == n) := by
  rw [← List.head?_filter, ← List.head?_filter, List.filter_reverse]
  by_cases hn : ∃ a ∈ items, key a = n
  · obtain ⟨a, ha, rfl⟩ := hn
    rw [filter_key_eq h ha]
    rfl
  · have hnone : items.filter (fun a => key a == n) = [] := by
      refine List.filter_eq_nil_iff.mpr ?_
      intro a ha hk
      exact hn ⟨a, ha, by simpa using hk⟩
    rw [hnone]
    rfl

namespace Entry

variable {target : Target} {image : Option Image} {seen seen' : List Cie} {record : Record}

/-- An entry depends on the CIEs through the one that its record refers to. -/
theorem read_congr
    (h : ∀ owner, record.kind = .fde owner →
      seen.find? (·.offset == owner) = seen'.find? (·.offset == owner)) :
    read target image seen record = read target image seen' record := by
  unfold read
  split
  · rfl
  · next owner hkind => rw [h owner hkind]

/-- The records after some others, read with the CIEs of those, are read as with all CIEs. -/
theorem readAll_after (target : Target) (image : Option Image) (before records : List Record)
    (hordered : (before ++ records).Pairwise fun earlier later => earlier.stop ≤ later.offset)
    (hincrease : ((before ++ records).map Record.offset).Pairwise (· < ·))
    (hback : ∀ record ∈ before ++ records, ∀ owner, record.kind = .fde owner →
      owner < record.idOffset) :
    readAll target image (before.filterMap (Cie.ofRecord? target)).reverse records =
      records.map (read target image ((before ++ records).filterMap (Cie.ofRecord? target))) := by
  induction records generalizing before with
  | nil => rfl
  | cons record records ih =>
      have hfirst :
          read target image (before.filterMap (Cie.ofRecord? target)).reverse record =
            read target image ((before ++ record :: records).filterMap (Cie.ofRecord? target))
              record := by
        refine read_congr ?_
        intro owner hkind
        have hbefore : (before.map Record.offset).Pairwise (· < ·) := by
          rw [List.map_append] at hincrease
          exact (List.pairwise_append.mp hincrease).1
        rw [find?_reverse_key (Cie.offsets_ofRecord? hbefore), Cie.find?_of_before hordered hkind]
        exact hback record (by simp) owner hkind
      have hseen : (read target image (before.filterMap (Cie.ofRecord? target)).reverse
          record).cie?.toList ++ (before.filterMap (Cie.ofRecord? target)).reverse =
            ((before ++ [record]).filterMap (Cie.ofRecord? target)).reverse := by
        rw [cie?_read, List.filterMap_append, List.reverse_append]
        cases hcie : Cie.ofRecord? target record <;> simp [hcie]
      have hsplit : before ++ record :: records = before ++ [record] ++ records := by simp
      rw [readAll, List.map_cons, hseen, hfirst, hsplit]
      rw [hsplit] at hordered hincrease hback
      rw [ih _ hordered hincrease hback]

/-- What becomes of a record of a section is up to the record and the CIEs of the section. -/
theorem readAll_eq_map (target : Target) (image : Option Image) (order : ByteOrder)
    (bytes : List UInt8) :
    readAll target image [] (Framing.ofSection order bytes).records =
      (Framing.ofSection order bytes).records.map (read target image
        ((Framing.ofSection order bytes).records.filterMap (Cie.ofRecord? target))) :=
  readAll_after target image [] _ (Framing.ordered order bytes)
    (Framing.offsets_increasing order bytes) fun _ hr _ hkind => Framing.owner_lt_of_mem hr hkind

end Entry

namespace Table

variable {target : Target} {image : Option Image} {records : List Record}

/-- The table of some records, where every record is read with the CIEs of all of them. -/
def ofRecords (target : Target) (image : Option Image) (records : List Record) : Table :=
  ofEntries (records.map (Entry.read target image (records.filterMap (Cie.ofRecord? target))))

theorem cies_ofRecords (target : Target) (image : Option Image) (records : List Record) :
    (ofRecords target image records).cies = records.filterMap (Cie.ofRecord? target) := by
  simp only [ofRecords, ofEntries, List.filterMap_map, Function.comp_def, Entry.cie?_read]

/-- A section whose records end without damage has the table of its records. -/
theorem parse_eq_ofRecords (image : Option Image) {bytes : List UInt8}
    (h : (Framing.ofSection target.order bytes).fault = none) :
    parse target image bytes =
      .ok (ofRecords target image (Framing.ofSection target.order bytes).records) := by
  rw [parse_of_fault_eq_none image h, Entry.readAll_eq_map, ofRecords]

variable {bytes : List UInt8} {table : Table}

theorem eq_ofRecords_of_parse (h : parse target image bytes = .ok table) :
    table = ofRecords target image (Framing.ofSection target.order bytes).records :=
  Except.ok.inj (h.symm.trans (parse_eq_ofRecords image (fault_eq_none_of_parse h)))

/-- A CIE of a table was read from a record of its section. -/
theorem exists_record_of_mem_cies (h : parse target image bytes = .ok table) {cie : Cie}
    (hc : cie ∈ table.cies) :
    ∃ record ∈ (Framing.ofSection target.order bytes).records, record.kind = .cie ∧
      ∃ ending, Cie.read target record = .ok (cie, ending) := by
  obtain rfl := eq_ofRecords_of_parse h
  rw [cies_ofRecords] at hc
  obtain ⟨record, hr, hcie⟩ := List.mem_filterMap.mp hc
  exact ⟨record, hr, Cie.read_of_ofRecord? hcie⟩

/-- An FDE of a table was read from a record of its section with a CIE of the table. -/
theorem exists_record_of_mem_fdes (h : parse target image bytes = .ok table) {fde : Fde}
    (hf : fde ∈ table.fdes) :
    ∃ record ∈ (Framing.ofSection target.order bytes).records, ∃ cie ∈ table.cies, ∃ problem,
      record.kind = .fde cie.offset ∧ Fde.read target image cie record = .ok (fde, problem) := by
  obtain rfl := eq_ofRecords_of_parse h
  obtain ⟨problem, hentry⟩ := mem_fdes.mp hf
  obtain ⟨record, hr, hread⟩ := List.mem_map.mp hentry
  obtain ⟨cie, hcie, hkind, hfde⟩ := Entry.of_read_fde hread
  rw [cies_ofRecords]
  exact ⟨record, hr, cie, hcie, problem, hkind, hfde⟩

/-- There is a diagnostic about a record exactly if a fault was met in it. -/
theorem mem_diagnostics_iff_of_offset (h : parse target image bytes = .ok table) {record : Record}
    (hr : record ∈ (Framing.ofSection target.order bytes).records) {diagnostic : Diagnostic}
    (hoffset : diagnostic.offset = record.offset) :
    diagnostic ∈ table.diagnostics ↔
      (Entry.read target image table.cies record).fault? = some diagnostic.fault := by
  obtain rfl := eq_ofRecords_of_parse h
  rw [cies_ofRecords, ofRecords, mem_diagnostics]
  constructor
  · rintro ⟨entry, he, ho, hf⟩
    obtain ⟨other, hother, rfl⟩ := List.mem_map.mp he
    have hsame : other.offset = record.offset := by
      rw [← (Entry.accounts_read target image _ other).offset, ho, hoffset]
    obtain rfl := eq_of_key_eq (Framing.offsets_increasing target.order bytes) hother hr hsame
    exact hf
  · intro hf
    refine ⟨_, List.mem_map.mpr ⟨record, hr, rfl⟩, ?_, hf⟩
    rw [(Entry.accounts_read target image _ record).offset, hoffset]

end Table

/-! ## 3. References to nothing -/

/-- The fault is that a record refers to a CIE that is not there. -/
def Fault.IsDangling (fault : Fault) : Prop := ∃ fde cie, fault = .danglingReference fde cie

theorem PointerEncoding.not_isDangling_of_decode {byte : UInt8} {fault : Fault}
    (h : decode byte = .error fault) : ¬ fault.IsDangling := by
  rintro ⟨fde, cie, rfl⟩
  unfold decode at h
  split at h
  · simp at h
  · split at h <;> simp at h

theorem Window.not_isDangling_of_pointer {window : Window} {target : Target}
    {encoding : PointerEncoding} {function : Option UInt64} {fault : Fault}
    (h : window.pointer target encoding function = .error fault) : ¬ fault.IsDangling := by
  rintro ⟨fde, cie, rfl⟩
  unfold pointer at h
  split at h
  · simp at h
  · simp [Window.fault] at h
  · next reason _ hresolve =>
      obtain rfl := Except.error.inj h
      rcases PointerEncoding.resolve_eq_error hresolve with h | ⟨_, h⟩ | ⟨_, h⟩ <;> simp at h

theorem Fault.not_isDangling_withinBlock {fault : Fault} (h : ¬ fault.IsDangling) :
    ¬ fault.withinBlock.IsDangling := by
  cases fault with
  | malformed offset reason =>
      rintro ⟨fde, cie, hf⟩
      simp [Fault.withinBlock] at hf
  | _ => exact h

theorem Fault.not_isDangling_withinRecord {fault : Fault} (h : ¬ fault.IsDangling) :
    ¬ fault.withinRecord.IsDangling := by
  cases fault with
  | malformed offset reason =>
      rintro ⟨fde, cie, hf⟩
      simp [Fault.withinRecord] at hf
  | _ => exact h

namespace Fde

variable {target : Target} {image : Option Image} {cie : Cie} {record : Record} {fault : Fault}

theorem not_isDangling_of_readLsda {byte : UInt8} {function : UInt64} {block : Window}
    (h : readLsda target byte function block = .error fault) : ¬ fault.IsDangling := by
  rcases Steps.bind_eq_error.mp h with h | ⟨_ | encoding, -, h⟩
  · exact PointerEncoding.not_isDangling_of_decode h
  · simp [pure, Except.pure] at h
  · rcases Steps.bind_eq_error.mp h with h | ⟨⟨pointer, rest⟩, -, h⟩
    · exact Window.not_isDangling_of_pointer h
    · simp [pure, Except.pure] at h

/-- The faults of augmentation data are about its block and its pointer. -/
theorem not_isDangling_of_readExtra {declared : Declared} {function : UInt64} {window : Window} :
    (readExtra target declared function window = .error fault → ¬ fault.IsDangling) ∧
      ∀ extra rest, readExtra target declared function window = .ok (extra, rest) →
        extra.fault = some fault → ¬ fault.IsDangling := by
  unfold readExtra
  split
  · split
    · refine ⟨?_, by simp⟩
      rintro h ⟨fde, cie, rfl⟩
      simp at h
    · simp only
      split
      · refine ⟨by simp, ?_⟩
        rintro extra rest h hf
        obtain ⟨rfl, -⟩ := Prod.mk.inj (Except.ok.inj h)
        simp at hf
      · next byte _ =>
          split
          · refine ⟨by simp, ?_⟩
            rintro extra rest h hf
            obtain ⟨rfl, -⟩ := Prod.mk.inj (Except.ok.inj h)
            simp at hf
          · next reason hlsda =>
              refine ⟨by simp, ?_⟩
              rintro extra rest h hf
              obtain ⟨rfl, -⟩ := Prod.mk.inj (Except.ok.inj h)
              obtain rfl := Option.some.inj hf
              exact Fault.not_isDangling_withinBlock (not_isDangling_of_readLsda hlsda)
  · refine ⟨by simp, ?_⟩
    rintro extra rest h hf
    obtain ⟨rfl, -⟩ := Prod.mk.inj (Except.ok.inj h)
    simp at hf

/-- Reading an FDE with the CIE it refers to says nothing about references. -/
theorem not_isDangling_of_read (h : read target image cie record = .error fault) :
    ¬ fault.IsDangling := by
  rcases Steps.bind_eq_error.mp h with h | ⟨encoding, -, h⟩
  · unfold Cie.pointerEncoding at h
    split at h
    · exact PointerEncoding.not_isDangling_of_decode (Steps.bind_pure_eq_error.mp h)
    · simp at h
  rcases Steps.bind_eq_error.mp h with h | ⟨⟨pcBegin, afterBegin⟩, -, h⟩
  · exact Window.not_isDangling_of_pointer h
  rcases Steps.bind_eq_error.mp h with h | ⟨⟨pcRange, afterRange⟩, -, h⟩
  · exact Window.not_isDangling_of_pointer h
  simp only at h
  split at h
  · exact not_isDangling_of_readExtra.1 (Steps.bind_pure_eq_error.mp h)
  · rintro ⟨fde, cie, rfl⟩
    simp [throw, throwThe, MonadExceptOf.throw] at h

theorem not_isDangling_of_problem {fde : Fde}
    (h : read target image cie record = .ok (fde, some fault)) : ¬ fault.IsDangling := by
  obtain ⟨_, _, _, _, _, extra, _, -, -, -, -, hextra, hfault, -⟩ := read_eq_ok h
  exact not_isDangling_of_readExtra.2 _ _ hextra hfault.symm

end Fde

/-- An FDE is reported as dangling exactly if the CIE that it refers to is not known. -/
theorem Entry.dangling_iff (target : Target) (image : Option Image) {seen : List Cie}
    {record : Record} {owner : Nat} (hkind : record.kind = .fde owner) :
    (∃ fault, (read target image seen record).fault? = some fault ∧ fault.IsDangling) ↔
      seen.find? (·.offset == owner) = none := by
  unfold read
  simp only [hkind]
  cases hfind : seen.find? (·.offset == owner) with
  | none =>
      simp only [fault?, Option.some.injEq, exists_eq_left', iff_true]
      exact ⟨_, _, rfl⟩
  | some c =>
      simp only [reduceCtorEq, iff_false]
      rintro ⟨fault, hfault, hdangling⟩
      cases hread : Fde.read target image c record with
      | error reason =>
          simp only [hread, fault?, Option.some.injEq] at hfault
          rw [← hfault] at hdangling
          exact Fault.not_isDangling_withinRecord (Fde.not_isDangling_of_read hread) hdangling
      | ok result =>
          obtain ⟨f, problem⟩ := result
          simp only [hread, fault?] at hfault
          rw [hfault] at hread
          exact Fde.not_isDangling_of_problem hread hdangling

/-! ## 4. Two passes -/

/-- Whether a record holds a CIE. -/
def Record.isCie (record : Record) : Bool := record.kind == .cie

namespace Table

/-- The first pass: the CIE records, each on its own. -/
def ciePass (target : Target) (records : List Record) : List Entry :=
  (records.filter Record.isCie).map (Entry.read target none [])

/-- The second pass: the FDE records, each with all of the CIEs at hand. -/
def fdePass (target : Target) (image : Option Image) (cies : List Cie) (records : List Record) :
    List Entry :=
  (records.filter fun record => !record.isCie).map (Entry.read target image cies)

/-- The table that two passes over the records of a section make, with its diagnostics in the order
of the records they are about. -/
def ofTwoPasses (target : Target) (image : Option Image) (records : List Record) : Table :=
  let cieEntries := ciePass target records
  let cies := cieEntries.filterMap Entry.cie?
  let fdeEntries := fdePass target image cies records
  { cies
    fdes := fdeEntries.filterMap Entry.fde?
    diagnostics := ((cieEntries ++ fdeEntries).filterMap Entry.diagnostic?).mergeSort
      fun first second => first.offset ≤ second.offset }

/-- The table says that a record refers to a CIE that is not there. -/
def ReportsDangling (table : Table) (record : Record) : Prop :=
  ∃ diagnostic ∈ table.diagnostics, diagnostic.offset = record.offset ∧
    diagnostic.fault.IsDangling

variable {target : Target} {image : Option Image} {records : List Record} {record : Record}

theorem ciePass_eq (target : Target) (image : Option Image) (cies : List Cie)
    (records : List Record) :
    ciePass target records = (records.filter Record.isCie).map (Entry.read target image cies) := by
  refine List.map_congr_left ?_
  intro record hr
  have hkind : record.kind = .cie := by simpa [Record.isCie] using List.of_mem_filter hr
  simp only [Entry.read, hkind]

/-- The CIEs of the first pass are the CIEs of the section. -/
theorem cies_ciePass (target : Target) (records : List Record) :
    (ciePass target records).filterMap Entry.cie? = records.filterMap (Cie.ofRecord? target) := by
  rw [ciePass, List.filterMap_map, List.filterMap_filter]
  refine List.filterMap_congr ?_
  intro record _
  rw [Function.comp_apply, Entry.cie?_read]
  split
  · rfl
  · next hno =>
      cases hofRecord : Cie.ofRecord? target record with
      | none => rfl
      | some c =>
          have := (Cie.ofRecord?_eq_some hofRecord).1
          simp [Record.isCie, this] at hno

/-- The FDEs of the second pass are those that a pass over all records finds. -/
theorem fdes_fdePass (target : Target) (image : Option Image) (cies : List Cie)
    (records : List Record) :
    (fdePass target image cies records).filterMap Entry.fde? =
      (records.map (Entry.read target image cies)).filterMap Entry.fde? := by
  rw [fdePass, List.filterMap_map, List.filterMap_map, List.filterMap_filter]
  refine List.filterMap_congr ?_
  intro record _
  rw [Function.comp_apply]
  split
  · rfl
  · next hcie =>
      have hkind : record.kind = .cie := by simpa [Record.isCie] using hcie
      simp only [Entry.read, hkind]
      split <;> rfl

/-- The FDEs of a table come from the records that are not CIEs. -/
theorem fdes_ofRecords (target : Target) (image : Option Image) (records : List Record) :
    (ofRecords target image records).fdes =
      (records.filter fun record => !record.isCie).filterMap fun record =>
        (Entry.read target image (records.filterMap (Cie.ofRecord? target)) record).fde? := by
  have hpass := fdes_fdePass target image (records.filterMap (Cie.ofRecord? target)) records
  rw [fdePass, List.filterMap_map] at hpass
  exact hpass.symm

/-- Diagnostics at increasing section offsets are what sorting makes of them in any order. -/
theorem mergeSort_diagnostics {sorted shuffled : List Diagnostic}
    (h : (sorted.map Diagnostic.offset).Pairwise (· < ·)) (hperm : shuffled.Perm sorted) :
    shuffled.mergeSort (fun first second => first.offset ≤ second.offset) = sorted := by
  have hle : sorted.Pairwise fun first second => first.offset ≤ second.offset :=
    (List.pairwise_map.mp h).imp Nat.le_of_lt
  have hsorted : (shuffled.mergeSort fun first second => first.offset ≤ second.offset).Pairwise
      fun first second => first.offset ≤ second.offset := by
    simpa using @List.pairwise_mergeSort Diagnostic
      (fun first second => decide (first.offset ≤ second.offset))
      (fun a b c hab hbc => by simp only [decide_eq_true_eq] at *; omega)
      (fun a b => by simp only [Bool.or_eq_true, decide_eq_true_eq]; omega) shuffled
  have hsame := (List.mergeSort_perm shuffled fun first second =>
    decide (first.offset ≤ second.offset)).trans hperm
  refine List.Perm.eq_of_pairwise ?_ hsorted hle hsame
  intro a b ha hb hab hba
  exact eq_of_key_eq h (hsame.mem_iff.mp ha) hb (Nat.le_antisymm hab hba)

/-- Two passes make the table of some records. -/
theorem ofRecords_eq_ofTwoPasses (hincrease : (records.map Record.offset).Pairwise (· < ·)) :
    ofRecords target image records = ofTwoPasses target image records := by
  have hentries : List.Forall₂ Entry.Accounts records
      (records.map (Entry.read target image (records.filterMap (Cie.ofRecord? target)))) := by
    rw [List.forall₂_map_right_iff, List.forall₂_same]
    intro record _
    exact Entry.accounts_read target image _ record
  have hoffsets := map_offset_eq hentries ▸ hincrease
  simp only [ofRecords, ofTwoPasses, cies_ciePass, ofEntries, Table.mk.injEq]
  refine ⟨?_, ?_, ?_⟩
  · rw [List.filterMap_map]
    refine List.filterMap_congr ?_
    intro record _
    exact Entry.cie?_read target image _ record
  · exact (fdes_fdePass target image _ records).symm
  · rw [ciePass_eq target image, fdePass, ← List.map_append]
    refine (mergeSort_diagnostics (diagnosticsIncrease_ofEntries hoffsets) ?_).symm
    exact ((List.filter_append_perm Record.isCie records).map _).filterMap _

/-- An FDE is reported as dangling exactly if there is no CIE where it refers to. -/
theorem reportsDangling_ofRecords_iff (hincrease : (records.map Record.offset).Pairwise (· < ·))
    (hr : record ∈ records) {owner : Nat} (hkind : record.kind = .fde owner) :
    (ofRecords target image records).ReportsDangling record ↔
      (ofRecords target image records).cie? owner = none := by
  have hoffset := fun record =>
    (Entry.accounts_read target image (records.filterMap (Cie.ofRecord? target)) record).offset
  rw [cie?, cies_ofRecords, ← Entry.dangling_iff target image hkind]
  -- a diagnostic at the section offset of a record is about what became of that record
  constructor
  · rintro ⟨diagnostic, hd, hat, hdangling⟩
    obtain ⟨entry, he, hentry, hfault⟩ := mem_diagnostics.mp hd
    obtain ⟨other, hother, rfl⟩ := List.mem_map.mp he
    obtain rfl := eq_of_key_eq hincrease hother hr ((hoffset other).symm.trans (hentry.trans hat))
    exact ⟨diagnostic.fault, hfault, hdangling⟩
  · rintro ⟨fault, hfault, hdangling⟩
    exact ⟨⟨record.offset, fault⟩,
      mem_diagnostics.mpr ⟨_, List.mem_map_of_mem hr, hoffset record, hfault⟩, rfl, hdangling⟩

/-- A CIE that an FDE refers to is before it. -/
theorem cie_before_fde {order : ByteOrder} {bytes : List UInt8} {c : Cie}
    (hc : c ∈ (Framing.ofSection order bytes).records.filterMap (Cie.ofRecord? target))
    (hr : record ∈ (Framing.ofSection order bytes).records) (hkind : record.kind = .fde c.offset) :
    c.offset < record.offset := by
  obtain ⟨cieRecord, hcr, hofRecord⟩ := List.mem_filterMap.mp hc
  obtain ⟨hcie, hoffset⟩ := Cie.ofRecord?_eq_some hofRecord
  have hne : cieRecord ≠ record := by
    rintro rfl
    rw [hkind] at hcie
    simp at hcie
  have howner := Framing.owner_lt_of_mem hr hkind
  have happart := Framing.apart hcr hr hne
  have hid := record.idOffset_le_stop
  have hstop := cieRecord.offset_lt_stop
  omega

/-- **One pass loses nothing.** A section whose records end without damage has the table that two
passes make of it. An FDE is reported as dangling exactly if the table has no CIE where it refers to,
and every FDE of the table has its CIE there, in front of it. -/
theorem parse_eq_ofTwoPasses (target : Target) (image : Option Image) {bytes : List UInt8}
    (h : (Framing.ofSection target.order bytes).fault = none) :
    ∃ table, parse target image bytes = .ok table ∧
      table = ofTwoPasses target image (Framing.ofSection target.order bytes).records ∧
      (∀ record ∈ (Framing.ofSection target.order bytes).records, ∀ owner,
        record.kind = .fde owner →
        (table.ReportsDangling record ↔ table.cie? owner = none)) ∧
      ∀ fde ∈ table.fdes, ∃ c, table.cieFor? fde = some c ∧ c.offset = fde.cie ∧
        c.offset < fde.offset := by
  have hincrease := Framing.offsets_increasing target.order bytes
  refine ⟨_, parse_eq_ofRecords image h, ofRecords_eq_ofTwoPasses hincrease, ?_, ?_⟩
  · intro record hr owner hkind
    exact reportsDangling_ofRecords_iff hincrease hr hkind
  · intro fde hf
    obtain ⟨problem, hentry⟩ := mem_fdes.mp hf
    obtain ⟨record, hr, hread⟩ := List.mem_map.mp hentry
    obtain ⟨c, hc, hkind, hfde⟩ := Entry.of_read_fde hread
    obtain ⟨_, _, _, _, _, _, _, -, -, -, -, -, -, rfl⟩ := Fde.read_eq_ok hfde
    refine ⟨c, ?_, rfl, cie_before_fde hc hr hkind⟩
    rw [cieFor?, cie?, cies_ofRecords]
    exact find?_key_eq (Cie.offsets_ofRecord? hincrease) hc

/-- An FDE that refers to itself, and a CIE with the FDE that refers to it. -/
def selfReferringSection : List UInt8 := [
  8, 0, 0, 0, 4, 0, 0, 0, 0, 0, 0, 0,
  16, 0, 0, 0, 0, 0, 0, 0, 1, 0x7a, 0x52, 0, 1, 0x78, 16, 1, 0x1b, 0, 0, 0,
  16, 0, 0, 0, 24, 0, 0, 0, 0, 0x20, 0, 0, 0x40, 0, 0, 0, 0, 0, 0, 0]

theorem parse_selfReferringSection :
    (Framing.ofSection .little selfReferringSection).fault = none ∧
      ∃ table, parse ⟨.little, .eight, ⟨0x1000, none, none, none⟩⟩ none selfReferringSection =
          .ok table ∧
        table = ofTwoPasses ⟨.little, .eight, ⟨0x1000, none, none, none⟩⟩ none
          (Framing.ofSection .little selfReferringSection).records ∧
        (∀ record ∈ (Framing.ofSection .little selfReferringSection).records, ∀ owner,
          record.kind = .fde owner →
          (table.ReportsDangling record ↔ table.cie? owner = none)) ∧
        ∀ fde ∈ table.fdes, ∃ c, table.cieFor? fde = some c ∧ c.offset = fde.cie ∧
          c.offset < fde.offset :=
  have ends : (Framing.ofSection .little selfReferringSection).fault = none := by cbv
  ⟨ends, parse_eq_ofTwoPasses ⟨.little, .eight, ⟨0x1000, none, none, none⟩⟩ none ends⟩

end Table

end UnwindTables
