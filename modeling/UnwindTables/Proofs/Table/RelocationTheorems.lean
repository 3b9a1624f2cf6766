/-
UnwindTables.Proofs.Table.RelocationTheorems — the table of a section that is loaded somewhere else.

`Table.parse_relocate` states for whole tables what `Record.RelocationTheorems` does for a record: what
is read in the one image is read in the other one, and the addresses that are relative to something
that moved have moved as far.

There is one exception. No function starts at address zero, so an FDE whose start moves there is not
read, and one whose start moves away from there is.

## How the proof goes

Which records there are is the same in both images, and so the CIEs are found record by record
(`Cie.ofRecord?_relocate`), and an FDE of a table by the CIE of its record in the other table
(`Table.fde_relocated`). Back from the other image it is the same way by the opposite distance
(`Target.relocate_neg`).
-/
import UnwindTables.Proofs.Record.RelocationTheorems
import UnwindTables.Proofs.Table.ExtentTheorems

namespace UnwindTables

variable (delta : UInt64)

/-! ## 1. CIEs -/

/-- Related results of a function of the same items are picked side by side. -/
theorem forall₂_filterMap {α β γ : Type} {pick : α → Option β} {pick' : α → Option γ}
    {related : β → γ → Prop} {items : List α}
    (h : ∀ a ∈ items, Option.Rel related (pick a) (pick' a)) :
    List.Forall₂ related (items.filterMap pick) (items.filterMap pick') := by
  induction items with
  | nil => exact .nil
  | cons a items ih =>
      have hrest := ih fun b hb => h b (List.mem_cons_of_mem a hb)
      have hfirst := h a List.mem_cons_self
      rw [List.filterMap_cons, List.filterMap_cons]
      cases hpick : pick a <;> cases hpick' : pick' a <;> rw [hpick, hpick'] at hfirst <;>
        cases hfirst
      · exact hrest
      · next hrelated => exact .cons hrelated hrest

/-- A record holds a CIE in both images or in none. -/
theorem Cie.ofRecord?_relocate (target : Target) (record : Record) :
    Option.Rel (fun cie cie' => record.kind = .cie ∧ record.offset = cie.offset ∧
        Cie.Relocated delta target record cie cie')
      (ofRecord? target record) (ofRecord? (target.relocate delta) record) := by
  have hforth : ∀ (delta : UInt64) (target : Target) (cie : Cie), ofRecord? target record = some cie →
      ∃ cie', ofRecord? (target.relocate delta) record = some cie' ∧
        Cie.Relocated delta target record cie cie' := by
    intro delta target cie hcie
    obtain ⟨hkind, ending, hread⟩ := read_of_ofRecord? hcie
    obtain ⟨cie', hread', hrelocated⟩ := exists_relocated delta hread
    exact ⟨cie', by simp [ofRecord?, hkind, hread', Except.toOption], hrelocated⟩
  cases hcie : ofRecord? target record with
  | some cie =>
      obtain ⟨cie', hcie', hrelocated⟩ := hforth delta target cie hcie
      obtain ⟨hkind, hoffset⟩ := ofRecord?_eq_some hcie
      rw [hcie']
      exact .some ⟨hkind, hoffset.symm, hrelocated⟩
  | none =>
      cases hcie' : ofRecord? (target.relocate delta) record with
      | none => exact .none
      | some cie' =>
          obtain ⟨cie, hback, -⟩ := hforth (-delta) _ cie' hcie'
          rw [Target.relocate_neg, hcie] at hback
          cases hback

/-! ## 2. Tables -/

namespace Table

variable {target : Target} {image : Option Image} {bytes : List UInt8} {table table' : Table}
  {record : Record} {cie : Cie} {fde : Fde}

/-- A record that refers to a CIE of the table is read with it. -/
theorem exists_entries (h : parse target image bytes = .ok table)
    (hr : record ∈ (Framing.ofSection target.order bytes).records) (hc : cie ∈ table.cies)
    (hkind : record.kind = .fde cie.offset) :
    ∃ entries, table = ofEntries entries ∧ Entry.read target image [cie] record ∈ entries := by
  have hfind := find?_key_eq (accounts_of_parse h).ciesIncrease hc
  obtain rfl := eq_ofRecords_of_parse h
  rw [cies_ofRecords] at hfind
  refine ⟨_, rfl, List.mem_map.mpr ⟨record, hr, ?_⟩⟩
  simp [Entry.read, hkind, hfind]

/-- The FDE of a record that refers to a CIE of the table is in the table if it can be read. -/
theorem mem_fdes_of_read (h : parse target image bytes = .ok table)
    (hr : record ∈ (Framing.ofSection target.order bytes).records) (hc : cie ∈ table.cies)
    (hkind : record.kind = .fde cie.offset) {problem : Option Fault}
    (hread : Fde.read target image cie record = .ok (fde, problem)) : fde ∈ table.fdes := by
  obtain ⟨entries, rfl, hentry⟩ := exists_entries h hr hc hkind
  have hfde : Entry.read target image [cie] record = .fde fde problem := by
    simp [Entry.read, hkind, hread]
  exact mem_fdes.mpr ⟨problem, hfde ▸ hentry⟩

/-- If it cannot be read, the table says why. -/
theorem mem_diagnostics_of_read (h : parse target image bytes = .ok table)
    (hr : record ∈ (Framing.ofSection target.order bytes).records) (hc : cie ∈ table.cies)
    (hkind : record.kind = .fde cie.offset) {fault : Fault}
    (hread : Fde.read target image cie record = .error fault) :
    ⟨record.offset, fault.withinRecord⟩ ∈ table.diagnostics := by
  obtain ⟨entries, rfl, hentry⟩ := exists_entries h hr hc hkind
  have hdropped : Entry.read target image [cie] record =
      .dropped record.offset fault.withinRecord := by
    simp [Entry.read, hkind, hread]
  exact mem_diagnostics.mpr ⟨_, hdropped ▸ hentry, rfl, rfl⟩

/-- An FDE of a table is the one that was read from the record at its offset. -/
theorem read_of_mem_fdes (h : parse target image bytes = .ok table) (hf : fde ∈ table.fdes)
    (hr : record ∈ (Framing.ofSection target.order bytes).records) (hoffset : fde.offset = record.offset)
    (hc : cie ∈ table.cies) (hkind : record.kind = .fde cie.offset) :
    ∃ problem, Fde.read target image cie record = .ok (fde, problem) := by
  obtain ⟨record', hr', cie', hc', problem, hkind', hread⟩ := exists_record_of_mem_fdes h hf
  obtain ⟨_, _, _, _, _, _, _, -, -, -, -, -, -, hfde⟩ := Fde.read_eq_ok hread
  have hsame : record'.offset = record.offset := by rw [← hoffset, hfde]
  obtain rfl := eq_of_key_eq (Framing.offsets_increasing target.order bytes) hr' hr hsame
  rw [hkind] at hkind'
  obtain rfl := eq_of_key_eq (accounts_of_parse h).ciesIncrease hc hc' (RecordKind.fde.inj hkind')
  exact ⟨problem, hread⟩

/-- The start of an FDE of a table is zero in an image that is loaded `delta` bytes further on, and this
is told with the table of that image. -/
def StartsAtZero (size : AddressSize) (table : Table) (fde : Fde) (table' : Table) : Prop :=
  ⟨fde.offset, .invalidStart fde.offset 0⟩ ∈ table'.diagnostics ∧
    ∃ cie ∈ table.cies, ∃ encoding, fde.cie = cie.offset ∧ cie.pointerEncoding = .ok encoding ∧
      encoding.application.relocate delta size fde.pcBegin = 0

/-- The table of the same section in an image that is loaded `delta` bytes further on. -/
structure Relocated (target : Target) (records : List Record) (table table' : Table) : Prop where
  /-- The CIEs are the same, but for the addresses of their personality routines. -/
  cies : List.Forall₂
    (fun cie cie' => ∃ record ∈ records, record.kind = .cie ∧ record.offset = cie.offset ∧
      Cie.Relocated delta target record cie cie') table.cies table'.cies
  /-- The FDE of a record is the same in both, but for the addresses in it. -/
  fdes : ∀ fde ∈ table.fdes, ∀ fde' ∈ table'.fdes, fde'.offset = fde.offset →
    ∃ cie ∈ table.cies, ∃ encoding, fde.cie = cie.offset ∧ cie.pointerEncoding = .ok encoding ∧
      Fde.Relocated delta target.addressSize cie encoding fde fde'
  /-- An FDE that is only in the first one starts at zero in the second one … -/
  lost : ∀ fde ∈ table.fdes, (∀ fde' ∈ table'.fdes, fde'.offset ≠ fde.offset) →
    StartsAtZero delta target.addressSize table fde table'
  /-- … and the other way round. -/
  gained : ∀ fde' ∈ table'.fdes, (∀ fde ∈ table.fdes, fde.offset ≠ fde'.offset) →
    StartsAtZero (-delta) target.addressSize table' fde' table

theorem cies_relocated (h : parse target image bytes = .ok table)
    (h' : parse (target.relocate delta) image bytes = .ok table') :
    List.Forall₂
      (fun cie cie' => ∃ record ∈ (Framing.ofSection target.order bytes).records,
        record.kind = .cie ∧ record.offset = cie.offset ∧ Cie.Relocated delta target record cie cie')
      table.cies table'.cies := by
  obtain rfl := eq_ofRecords_of_parse h
  obtain rfl := eq_ofRecords_of_parse h'
  rw [cies_ofRecords, cies_ofRecords]
  refine forall₂_filterMap fun record hr => ?_
  have hrelocated := Cie.ofRecord?_relocate delta target record
  cases hcie : Cie.ofRecord? target record <;>
    cases hcie' : Cie.ofRecord? (target.relocate delta) record <;>
      rw [hcie, hcie'] at hrelocated <;> cases hrelocated
  · exact .none
  · next hrelated => exact .some ⟨record, hr, hrelated⟩

/-- What becomes of an FDE in the other image. -/
theorem fde_relocated (h : parse target none bytes = .ok table)
    (h' : parse (target.relocate delta) none bytes = .ok table') (hf : fde ∈ table.fdes) :
    (∃ cie ∈ table.cies, ∃ encoding, fde.cie = cie.offset ∧ cie.pointerEncoding = .ok encoding ∧
      ∃ fde' ∈ table'.fdes, Fde.Relocated delta target.addressSize cie encoding fde fde') ∨
    (StartsAtZero delta target.addressSize table fde table' ∧
      ∀ fde' ∈ table'.fdes, fde'.offset ≠ fde.offset) := by
  obtain ⟨record, hr, cie, hc, problem, hkind, hread⟩ := exists_record_of_mem_fdes h hf
  obtain ⟨_, _, _, _, _, _, _, -, -, -, -, -, -, hfde⟩ := Fde.read_eq_ok hread
  have hoffset : fde.offset = record.offset := by rw [hfde]
  have howner : fde.cie = cie.offset := by rw [hfde]
  obtain ⟨cie', hc', _, -, -, -, hcie⟩ :=
    exists_of_forall₂ (r := flip _) (List.Forall₂.flip (cies_relocated delta h h')) hc
  have hkind' : record.kind = .fde cie'.offset := by rw [hcie.offset, hkind]
  obtain ⟨encoding, hencoding, ⟨fde', hread', hrelocated⟩ | ⟨hzero, hread'⟩⟩ :=
    Fde.relocated_cases delta cie' hcie.others hread
  · have hf' := mem_fdes_of_read h' hr hc' hkind' hread'
    exact Or.inl ⟨cie, hc, encoding, howner, hencoding, fde', hf', hrelocated⟩
  · have hreported := mem_diagnostics_of_read h' hr hc' hkind' hread'
    rw [← hoffset] at hreported
    refine Or.inr ⟨⟨hreported, cie, hc, encoding, howner, hencoding, hzero⟩, ?_⟩
    intro fde' hf' hsame
    obtain ⟨problem', hread⟩ := read_of_mem_fdes h' hf' hr (hsame.trans hoffset) hc' hkind'
    rw [hread'] at hread
    cases hread

/-- **Parsing commutes with relocating the image.** A section without an image has a table wherever it
is loaded, or the same damage, and in its table just the addresses have moved that are relative to
something that has. -/
theorem parse_relocate (target : Target) (bytes : List UInt8) :
    (∃ fault, parse target none bytes = .error fault ∧
      parse (target.relocate delta) none bytes = .error fault) ∨
    ∃ table table', parse target none bytes = .ok table ∧
      parse (target.relocate delta) none bytes = .ok table' ∧
      Relocated delta target (Framing.ofSection target.order bytes).records table table' := by
  cases hfault : (Framing.ofSection target.order bytes).fault with
  | some fault =>
      exact Or.inl ⟨fault, by rw [parse_eq, hfault], by rw [parse_eq, Target.order_relocate, hfault]⟩
  | none =>
      obtain ⟨table, h⟩ : ∃ table, parse target none bytes = .ok table :=
        ⟨_, parse_of_fault_eq_none none hfault⟩
      obtain ⟨table', h'⟩ : ∃ table', parse (target.relocate delta) none bytes = .ok table' :=
        ⟨_, parse_of_fault_eq_none none hfault⟩
      refine Or.inr ⟨table, table', h, h', cies_relocated delta h h', ?_, ?_, ?_⟩
      · intro fde hf fde' hf' hoffset
        rcases fde_relocated delta h h' hf with
          ⟨cie, hc, encoding, howner, hencoding, found, hfound, hrelocated⟩ | ⟨-, hnone⟩
        · have hsame : found.offset = fde'.offset := by rw [hrelocated.others, hoffset]
          obtain rfl := eq_of_key_eq (accounts_of_parse h').fdesIncrease hfound hf' hsame
          exact ⟨cie, hc, encoding, howner, hencoding, hrelocated⟩
        · exact absurd hoffset (hnone fde' hf')
      · intro fde hf hnone
        rcases fde_relocated delta h h' hf with ⟨_, -, _, -, -, fde', hf', hrelocated⟩ | ⟨hzero, -⟩
        · exact absurd (by rw [hrelocated.others]) (hnone fde' hf')
        · exact hzero
      · intro fde' hf' hnone
        have hback : parse ((target.relocate delta).relocate (-delta)) none bytes = .ok table := by
          rwa [Target.relocate_neg]
        rcases fde_relocated (-delta) h' hback hf' with ⟨_, -, _, -, -, fde, hf, hrelocated⟩ | ⟨hzero, -⟩
        · exact absurd (by rw [hrelocated.others]) (hnone fde hf)
        · exact hzero

/-- The function of this section is moved to address zero. -/
example : parse (sectionTarget.relocate (-0x201c)) none functionSection =
    .ok ⟨[functionCie], [], [⟨20, .invalidStart 20 0⟩]⟩ := by
  cbv

end Table

end UnwindTables
