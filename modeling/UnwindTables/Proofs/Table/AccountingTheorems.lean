/-
UnwindTables.Proofs.Table.AccountingTheorems — every record of a section is accounted for once.

A table is made of what became of each record of its section: a CIE, an FDE, or a diagnostic. The
main result says that nothing is lost and nothing is said twice: `Table.parse_accounts`.

## How the proof goes

`Entry.Accounts` states what one record and its entry have to do with each other, with a case for
each thing that can become of a record. `Entry.accounts_read` proves it from what the readers of
CIEs and FDEs keep to, and `Entry.accounts_readAll` for all records of a section, one after the
other. What remains is about lists: the section offsets of the records increase, so an offset says
which record, and which entry, is meant.
-/
import UnwindTables.Table
import UnwindTables.Proofs.Record.ContentTheorems
import UnwindTables.Proofs.Record.FramingTheorems
import Mathlib.Data.List.Forall2
import Mathlib.Data.List.Nodup

namespace UnwindTables

/-! ## 1. One record and its entry -/

namespace Entry

/-- What an entry says about its record. -/
inductive Accounts (record : Record) : Entry → Prop
  /-- A CIE record is kept; if its block could not be read to the end, the CIE says so. -/
  | cie {c : Cie} {ending : BlockEnding} : record.kind = .cie → c.offset = record.offset →
      (∀ fault, ending = .failed fault →
        c.declared.features.skipped = true ∧ record.Reports fault) →
      Accounts record (.cie c ending)
  /-- An FDE record is kept; if something is wrong with its language-specific data, it has none. -/
  | fde {f : Fde} {problem : Option Fault} {owner : Nat} : record.kind = .fde owner →
      f.offset = record.offset →
      (∀ fault, problem = some fault → f.lsda = none ∧ record.Reports fault) →
      Accounts record (.fde f problem)
  /-- A record is not kept, and the reason is given. -/
  | dropped {fault : Fault} : record.Reports fault → Accounts record (.dropped record.offset fault)

variable {record : Record} {entry : Entry}

theorem offset_of_cie? {c : Cie} (h : entry.cie? = some c) : c.offset = entry.offset := by
  cases entry with
  | cie c' ending => rw [← Option.some.inj h, offset]
  | fde f problem => simp [cie?] at h
  | dropped offset fault => simp [cie?] at h

theorem offset_of_fde? {f : Fde} (h : entry.fde? = some f) : f.offset = entry.offset := by
  cases entry with
  | cie c ending => simp [fde?] at h
  | fde f' problem => rw [← Option.some.inj h, offset]
  | dropped offset fault => simp [fde?] at h

theorem offset_of_diagnostic? {diagnostic : Diagnostic} (h : entry.diagnostic? = some diagnostic) :
    diagnostic.offset = entry.offset := by
  obtain ⟨fault, -, rfl⟩ := Option.map_eq_some_iff.mp h
  rfl

theorem Accounts.offset (h : Accounts record entry) : entry.offset = record.offset := by
  cases h with
  | cie _ ho _ => exact ho
  | fde _ ho _ => exact ho
  | dropped _ => rfl

/-- The fault of an entry is one of its record. -/
theorem Accounts.reports (h : Accounts record entry) {fault : Fault}
    (hf : entry.fault? = some fault) : record.Reports fault := by
  cases h with
  | @cie c ending _ _ hfailed =>
      cases ending with
      | complete => simp [fault?, BlockEnding.fault?] at hf
      | unknownCode code => simp [fault?, BlockEnding.fault?] at hf
      | failed reason =>
          obtain rfl := Option.some.inj hf
          exact (hfailed reason rfl).2
  | fde _ _ hproblem => exact (hproblem fault hf).2
  | dropped hreports =>
      obtain rfl := Option.some.inj hf
      exact hreports

theorem accounts_read (target : Target) (image : Option Image) (seen : List Cie)
    (record : Record) : Accounts record (read target image seen record) := by
  unfold read
  split
  · next hkind =>
      split
      · next c ending hread =>
          obtain ⟨_, _, -, -, hoffset, -⟩ := Cie.read_eq_ok_iff.mp hread
          refine .cie hkind hoffset ?_
          rintro fault rfl
          exact Cie.reports_of_read hread
      · next fault hread => exact .dropped (.of_blames (Cie.blames_read target record fault hread))
  · next owner hkind =>
      split
      · exact .dropped ⟨⟨by simp [Fault.place?], by simp, by simp⟩, rfl⟩
      · next c _ =>
          split
          · next f problem hread =>
              refine .fde hkind ?_ ?_
              · obtain ⟨_, _, _, _, _, _, _, -, -, -, -, -, -, rfl⟩ := Fde.read_eq_ok hread
                rfl
              · rintro fault rfl
                exact Fde.reports_of_read hread
          · next fault hread =>
              exact .dropped (.of_blames (Fde.blames_read target image c record fault hread))

/-- Each record of a section has its entry, in the same order. -/
theorem accounts_readAll (target : Target) (image : Option Image) (seen : List Cie)
    (records : List Record) :
    List.Forall₂ Accounts records (readAll target image seen records) := by
  induction records generalizing seen with
  | nil => exact .nil
  | cons record records ih => exact .cons (accounts_read target image seen record) (ih _)

end Entry

/-! ## 2. Lists in the order of a key -/

section Lists

variable {α β : Type} {key : α → Nat}

/-- Each of the items on the right is related to one on the left. -/
theorem exists_of_forall₂ {r : α → β → Prop} {items : List α} {others : List β}
    (h : List.Forall₂ r items others) {b : β} (hb : b ∈ others) : ∃ a ∈ items, r a b := by
  induction h with
  | nil => simp at hb
  | @cons a first items others hfirst _ ih =>
      rcases List.mem_cons.mp hb with rfl | hb
      · exact ⟨a, List.mem_cons_self, hfirst⟩
      · obtain ⟨a, ha, hab⟩ := ih hb
        exact ⟨a, List.mem_cons_of_mem _ ha, hab⟩

/-- The items that a function picks keep their order if each keeps its key. -/
theorem sublist_filterMap_key {key' : β → Nat} {pick : α → Option β}
    (h : ∀ a b, pick a = some b → key' b = key a) (items : List α) :
    ((items.filterMap pick).map key').Sublist (items.map key) := by
  induction items with
  | nil => exact .refl _
  | cons a items ih =>
      cases hp : pick a with
      | none =>
          rw [List.filterMap_cons_none hp, List.map_cons]
          exact ih.cons _
      | some b =>
          rw [List.filterMap_cons_some hp, List.map_cons, List.map_cons, h a b hp]
          exact ih.cons_cons _

/-- Where keys increase, a key belongs to one item. -/
theorem eq_of_key_eq {items : List α} (h : (items.map key).Pairwise (· < ·)) {a b : α}
    (ha : a ∈ items) (hb : b ∈ items) (hk : key a = key b) : a = b :=
  List.inj_on_of_nodup_map (h.imp Nat.ne_of_lt) ha hb hk

/-- Where keys increase, an item is found once by its key. -/
theorem filter_key_eq {items : List α} (h : (items.map key).Pairwise (· < ·)) {a : α}
    (ha : a ∈ items) : items.filter (fun b => key b == key a) = [a] := by
  induction items with
  | nil => simp at ha
  | cons b items ih =>
      rw [List.map_cons, List.pairwise_cons] at h
      obtain ⟨hfirst, hrest⟩ := h
      rcases List.mem_cons.mp ha with rfl | ha
      · rw [List.filter_cons_of_pos (by simp), List.filter_eq_nil_iff.mpr]
        intro c hc
        have := hfirst (key c) (List.mem_map_of_mem hc)
        simp only [beq_iff_eq]
        omega
      · have := hfirst (key a) (List.mem_map_of_mem ha)
        rw [List.filter_cons_of_neg (by simp only [beq_iff_eq]; omega)]
        exact ih hrest ha

end Lists

/-! ## 3. The table of a section -/

namespace Table

/-- A table accounts for each of the records of its section, and for nothing else. -/
structure Accounts (records : List Record) (table : Table) : Prop where
  /-- A CIE is at the section offset of a CIE record. -/
  cies : ∀ cie ∈ table.cies, ∃ record ∈ records, record.offset = cie.offset ∧ record.kind = .cie
  /-- An FDE is at the section offset of an FDE record. -/
  fdes : ∀ fde ∈ table.fdes, ∃ record ∈ records, record.offset = fde.offset ∧
    ∃ owner, record.kind = .fde owner
  /-- There is one CIE at most at a section offset. -/
  ciesIncrease : (table.cies.map Cie.offset).Pairwise (· < ·)
  /-- There is one FDE at most at a section offset. -/
  fdesIncrease : (table.fdes.map Fde.offset).Pairwise (· < ·)
  /-- There is one diagnostic at most at a section offset. -/
  diagnosticsIncrease : (table.diagnostics.map Diagnostic.offset).Pairwise (· < ·)
  /-- A diagnostic is about a record. -/
  located : ∀ diagnostic ∈ table.diagnostics, ∃ record ∈ records, record.offset = diagnostic.offset
  /-- A record that is in the table neither as a CIE nor as an FDE has exactly one diagnostic. -/
  missing : ∀ record ∈ records, table.cie? record.offset = none → table.fde? record.offset = none →
    ∃ diagnostic, table.diagnostics.filter (·.offset == record.offset) = [diagnostic]
  /-- A CIE with a diagnostic is marked as read in part. -/
  keptCie : ∀ cie ∈ table.cies, ∀ diagnostic ∈ table.diagnostics,
    diagnostic.offset = cie.offset → cie.declared.features.skipped = true
  /-- An FDE with a diagnostic has no language-specific data. -/
  keptFde : ∀ fde ∈ table.fdes, ∀ diagnostic ∈ table.diagnostics,
    diagnostic.offset = fde.offset → fde.lsda = none
  /-- No diagnostic is damage to the framing, and none is a fault without a place in a section or
  one of a search table. -/
  recoverable : ∀ diagnostic ∈ table.diagnostics,
    (∀ offset reason, diagnostic.fault ≠ .malformed offset reason) ∧
      diagnostic.fault ≠ .truncatedValue ∧
      ∀ initialLocation fdeAddress, diagnostic.fault ≠ .staleSearchEntry initialLocation fdeAddress
  /-- Bytes that are missing are missing in the body of the record. -/
  inBody : ∀ record ∈ records, ∀ diagnostic ∈ table.diagnostics,
    diagnostic.offset = record.offset → ∀ offset,
    diagnostic.fault = .invalidAugmentation offset ∨ diagnostic.fault = .truncatedRecord offset →
    record.body.offset ≤ offset ∧ offset ≤ record.stop

section Entries

variable {records : List Record} {entries : List Entry}

theorem map_offset_eq (h : List.Forall₂ Entry.Accounts records entries) :
    entries.map Entry.offset = records.map Record.offset := by
  induction h with
  | nil => rfl
  | cons hfirst _ ih => rw [List.map_cons, List.map_cons, hfirst.offset, ih]

theorem exists_record (h : List.Forall₂ Entry.Accounts records entries) {entry : Entry}
    (he : entry ∈ entries) : ∃ record ∈ records, Entry.Accounts record entry :=
  exists_of_forall₂ h he

theorem exists_entry (h : List.Forall₂ Entry.Accounts records entries) {record : Record}
    (hr : record ∈ records) : ∃ entry ∈ entries, Entry.Accounts record entry :=
  exists_of_forall₂ (r := flip Entry.Accounts) (List.Forall₂.flip h) hr

theorem mem_cies {c : Cie} :
    c ∈ (ofEntries entries).cies ↔ ∃ ending, Entry.cie c ending ∈ entries := by
  simp only [ofEntries, List.mem_filterMap]
  constructor
  · rintro ⟨entry, he, hc⟩
    cases entry with
    | cie c' ending =>
        obtain rfl := Option.some.inj hc
        exact ⟨ending, he⟩
    | fde f problem => simp [Entry.cie?] at hc
    | dropped offset fault => simp [Entry.cie?] at hc
  · rintro ⟨ending, he⟩
    exact ⟨_, he, rfl⟩

theorem mem_fdes {f : Fde} :
    f ∈ (ofEntries entries).fdes ↔ ∃ problem, Entry.fde f problem ∈ entries := by
  simp only [ofEntries, List.mem_filterMap]
  constructor
  · rintro ⟨entry, he, hf⟩
    cases entry with
    | cie c ending => simp [Entry.fde?] at hf
    | fde f' problem =>
        obtain rfl := Option.some.inj hf
        exact ⟨problem, he⟩
    | dropped offset fault => simp [Entry.fde?] at hf
  · rintro ⟨problem, he⟩
    exact ⟨_, he, rfl⟩

theorem mem_diagnostics {diagnostic : Diagnostic} :
    diagnostic ∈ (ofEntries entries).diagnostics ↔
      ∃ entry ∈ entries, entry.offset = diagnostic.offset ∧
        entry.fault? = some diagnostic.fault := by
  simp only [ofEntries, List.mem_filterMap, Entry.diagnostic?, Option.map_eq_some_iff]
  constructor
  · rintro ⟨entry, he, fault, hf, rfl⟩
    exact ⟨entry, he, rfl, hf⟩
  · rintro ⟨entry, he, ho, hf⟩
    refine ⟨entry, he, diagnostic.fault, hf, ?_⟩
    rw [ho]

/-- A diagnostic is about a record, and its fault is one of that record. -/
theorem exists_record_of_diagnostic (h : List.Forall₂ Entry.Accounts records entries)
    {diagnostic : Diagnostic} (hd : diagnostic ∈ (ofEntries entries).diagnostics) :
    ∃ record ∈ records, record.offset = diagnostic.offset ∧ record.Reports diagnostic.fault := by
  obtain ⟨entry, he, ho, hfault⟩ := mem_diagnostics.mp hd
  obtain ⟨record, hr, haccounts⟩ := exists_record h he
  exact ⟨record, hr, haccounts.offset.symm.trans ho, haccounts.reports hfault⟩

theorem ciesIncrease_ofEntries (h : (entries.map Entry.offset).Pairwise (· < ·)) :
    ((ofEntries entries).cies.map Cie.offset).Pairwise (· < ·) :=
  h.sublist (sublist_filterMap_key (fun _ _ => Entry.offset_of_cie?) entries)

theorem fdesIncrease_ofEntries (h : (entries.map Entry.offset).Pairwise (· < ·)) :
    ((ofEntries entries).fdes.map Fde.offset).Pairwise (· < ·) :=
  h.sublist (sublist_filterMap_key (fun _ _ => Entry.offset_of_fde?) entries)

theorem diagnosticsIncrease_ofEntries (h : (entries.map Entry.offset).Pairwise (· < ·)) :
    ((ofEntries entries).diagnostics.map Diagnostic.offset).Pairwise (· < ·) :=
  h.sublist (sublist_filterMap_key (fun _ _ => Entry.offset_of_diagnostic?) entries)

/-! An entry that accounts for its record says what the table has at the offset of that record. The parts of
`Accounts` follow one by one. -/

theorem exists_record_of_cie (h : List.Forall₂ Entry.Accounts records entries) {c : Cie}
    (hc : c ∈ (ofEntries entries).cies) :
    ∃ record ∈ records, record.offset = c.offset ∧ record.kind = .cie := by
  obtain ⟨ending, he⟩ := mem_cies.mp hc
  obtain ⟨record, hr, haccounts⟩ := exists_record h he
  cases haccounts with
  | cie hkind ho _ => exact ⟨record, hr, ho.symm, hkind⟩

theorem exists_record_of_fde (h : List.Forall₂ Entry.Accounts records entries) {f : Fde}
    (hf : f ∈ (ofEntries entries).fdes) :
    ∃ record ∈ records, record.offset = f.offset ∧ ∃ owner, record.kind = .fde owner := by
  obtain ⟨problem, he⟩ := mem_fdes.mp hf
  obtain ⟨record, hr, haccounts⟩ := exists_record h he
  cases haccounts with
  | fde hkind ho _ => exact ⟨record, hr, ho.symm, _, hkind⟩

/-- A record that is missing from the table is a dropped one, and its reason is the only diagnostic at its
offset. -/
theorem exists_diagnostic_of_missing (h : List.Forall₂ Entry.Accounts records entries)
    (hentries : (entries.map Entry.offset).Pairwise (· < ·)) {record : Record} (hr : record ∈ records)
    (hcie : (ofEntries entries).cie? record.offset = none)
    (hfde : (ofEntries entries).fde? record.offset = none) :
    ∃ diagnostic, (ofEntries entries).diagnostics.filter (·.offset == record.offset) =
      [diagnostic] := by
  obtain ⟨entry, he, haccounts⟩ := exists_entry h hr
  cases haccounts with
  | @cie c ending _ ho _ =>
      have := List.find?_eq_none.mp hcie c (mem_cies.mpr ⟨ending, he⟩)
      simp [ho] at this
  | @fde f problem _ _ ho _ =>
      have := List.find?_eq_none.mp hfde f (mem_fdes.mpr ⟨problem, he⟩)
      simp [ho] at this
  | @dropped fault _ =>
      have hd : ⟨record.offset, fault⟩ ∈ (ofEntries entries).diagnostics :=
        mem_diagnostics.mpr ⟨_, he, rfl, rfl⟩
      exact ⟨_, filter_key_eq (diagnosticsIncrease_ofEntries hentries) hd⟩

/-- An offset says which entry a diagnostic is from, so at the offset of a record that was kept it is the
fault of that record. -/
theorem fault_of_diagnostic (hentries : (entries.map Entry.offset).Pairwise (· < ·)) {entry : Entry}
    (hkept : entry ∈ entries) {diagnostic : Diagnostic}
    (hd : diagnostic ∈ (ofEntries entries).diagnostics) (ho : diagnostic.offset = entry.offset) :
    entry.fault? = some diagnostic.fault := by
  obtain ⟨other, he, hat, hfault⟩ := mem_diagnostics.mp hd
  obtain rfl := eq_of_key_eq hentries he hkept (hat.trans ho)
  exact hfault

theorem skipped_of_diagnostic (h : List.Forall₂ Entry.Accounts records entries)
    (hentries : (entries.map Entry.offset).Pairwise (· < ·)) {c : Cie}
    (hc : c ∈ (ofEntries entries).cies) {diagnostic : Diagnostic}
    (hd : diagnostic ∈ (ofEntries entries).diagnostics) (ho : diagnostic.offset = c.offset) :
    c.declared.features.skipped = true := by
  obtain ⟨ending, hkept⟩ := mem_cies.mp hc
  have hfault := fault_of_diagnostic hentries hkept hd ho
  obtain ⟨record, -, haccounts⟩ := exists_record h hkept
  cases haccounts with
  | cie _ _ hfailed =>
      cases ending with
      | complete => simp [Entry.fault?, BlockEnding.fault?] at hfault
      | unknownCode code => simp [Entry.fault?, BlockEnding.fault?] at hfault
      | failed fault => exact (hfailed fault rfl).1

theorem lsda_of_diagnostic (h : List.Forall₂ Entry.Accounts records entries)
    (hentries : (entries.map Entry.offset).Pairwise (· < ·)) {f : Fde}
    (hf : f ∈ (ofEntries entries).fdes) {diagnostic : Diagnostic}
    (hd : diagnostic ∈ (ofEntries entries).diagnostics) (ho : diagnostic.offset = f.offset) :
    f.lsda = none := by
  obtain ⟨problem, hkept⟩ := mem_fdes.mp hf
  have hfault := fault_of_diagnostic hentries hkept hd ho
  obtain ⟨record, -, haccounts⟩ := exists_record h hkept
  cases haccounts with
  | fde _ _ hproblem => exact (hproblem _ hfault).1

theorem recoverable_of_diagnostic (h : List.Forall₂ Entry.Accounts records entries)
    {diagnostic : Diagnostic} (hd : diagnostic ∈ (ofEntries entries).diagnostics) :
    (∀ offset reason, diagnostic.fault ≠ .malformed offset reason) ∧
      diagnostic.fault ≠ .truncatedValue ∧
      ∀ initialLocation fdeAddress,
        diagnostic.fault ≠ .staleSearchEntry initialLocation fdeAddress := by
  obtain ⟨record, -, -, hreports⟩ := exists_record_of_diagnostic h hd
  refine ⟨?_, hreports.inBody.located, hreports.inBody.own⟩
  intro offset reason hmalformed
  have hfatal := hreports.recoverable
  rw [hmalformed] at hfatal
  simp [Fault.isFatal] at hfatal

theorem inBody_of_diagnostic (h : List.Forall₂ Entry.Accounts records entries)
    (hincrease : (records.map Record.offset).Pairwise (· < ·)) {record : Record} (hr : record ∈ records)
    (hframed : record.Framed) {diagnostic : Diagnostic}
    (hd : diagnostic ∈ (ofEntries entries).diagnostics) (ho : diagnostic.offset = record.offset)
    {offset : Nat} (hplace : diagnostic.fault = .invalidAugmentation offset ∨
      diagnostic.fault = .truncatedRecord offset) :
    record.body.offset ≤ offset ∧ offset ≤ record.stop := by
  obtain ⟨record', hr', ho', hreports⟩ := exists_record_of_diagnostic h hd
  obtain rfl := eq_of_key_eq hincrease hr' hr (ho'.trans ho)
  rw [← hframed.bodyStop]
  refine hreports.inBody.place offset ?_
  rcases hplace with hplace | hplace <;> rw [hplace] <;> rfl

/-- A table of entries that account for the records of a section accounts for them as well. -/
theorem accounts_ofEntries (h : List.Forall₂ Entry.Accounts records entries)
    (hincrease : (records.map Record.offset).Pairwise (· < ·))
    (hframed : ∀ record ∈ records, record.Framed) : (ofEntries entries).Accounts records := by
  have hentries : (entries.map Entry.offset).Pairwise (· < ·) := map_offset_eq h ▸ hincrease
  exact
    { cies := fun _ hc => exists_record_of_cie h hc
      fdes := fun _ hf => exists_record_of_fde h hf
      ciesIncrease := ciesIncrease_ofEntries hentries
      fdesIncrease := fdesIncrease_ofEntries hentries
      diagnosticsIncrease := diagnosticsIncrease_ofEntries hentries
      located := fun _ hd =>
        (exists_record_of_diagnostic h hd).imp fun _ hrecord => ⟨hrecord.1, hrecord.2.1⟩
      missing := fun _ hr hcie hfde => exists_diagnostic_of_missing h hentries hr hcie hfde
      keptCie := fun _ hc _ hd ho => skipped_of_diagnostic h hentries hc hd ho
      keptFde := fun _ hf _ hd ho => lsda_of_diagnostic h hentries hf hd ho
      recoverable := fun _ hd => recoverable_of_diagnostic h hd
      inBody := fun record hr _ hd ho _ hplace =>
        inBody_of_diagnostic h hincrease hr (hframed record hr) hd ho hplace }

end Entries

/-- The table of a section, without what is told about it. -/
theorem parse_eq (target : Target) (image : Option Image) (bytes : List UInt8) :
    parse target image bytes =
      match (Framing.ofSection target.order bytes).fault with
      | some fault => .error fault
      | none => .ok (ofEntries
          (Entry.readAll target image [] (Framing.ofSection target.order bytes).records)) := by
  simp only [parse, parseWithJournal]
  cases (Framing.ofSection target.order bytes).fault <;> rfl

theorem parse_of_fault_eq_none {target : Target} (image : Option Image) {bytes : List UInt8}
    (h : (Framing.ofSection target.order bytes).fault = none) :
    parse target image bytes = .ok (ofEntries
      (Entry.readAll target image [] (Framing.ofSection target.order bytes).records)) := by
  rw [parse_eq, h]

/-- A section that has a table ends without damage. -/
theorem fault_eq_none_of_parse {target : Target} {image : Option Image} {bytes : List UInt8}
    {table : Table} (h : parse target image bytes = .ok table) :
    (Framing.ofSection target.order bytes).fault = none := by
  rw [parse_eq] at h
  split at h
  · simp at h
  · assumption

/-- The table of a section accounts for its records. -/
theorem accounts_of_parse {target : Target} {image : Option Image} {bytes : List UInt8} {table : Table}
    (h : parse target image bytes = .ok table) :
    table.Accounts (Framing.ofSection target.order bytes).records := by
  rw [parse_of_fault_eq_none image (fault_eq_none_of_parse h)] at h
  obtain rfl := Except.ok.inj h
  exact accounts_ofEntries (Entry.accounts_readAll target image [] _)
    (Framing.offsets_increasing target.order bytes) fun record hr => Framing.framed_of_mem hr

/-- **Every record is accounted for exactly once.** A section has a table unless damage ends its
records, which is then what `parse` fails with; and its table accounts for all of its records. -/
theorem parse_accounts (target : Target) (image : Option Image) (bytes : List UInt8) :
    (∀ fault, parse target image bytes = .error fault ↔
      (Framing.ofSection target.order bytes).fault = some fault) ∧
    (∀ fault, parse target image bytes = .error fault → fault.IsMalformation) ∧
    ∀ table, parse target image bytes = .ok table →
      table.Accounts (Framing.ofSection target.order bytes).records := by
  have hfault : ∀ fault, parse target image bytes = .error fault ↔
      (Framing.ofSection target.order bytes).fault = some fault := by
    intro fault
    rw [parse_eq]
    cases (Framing.ofSection target.order bytes).fault <;> simp
  refine ⟨hfault, ?_, ?_⟩
  · intro fault h
    exact Framing.isMalformation_of_fault ((hfault fault).mp h)
  · intro table h
    exact accounts_of_parse h

end Table

end UnwindTables
