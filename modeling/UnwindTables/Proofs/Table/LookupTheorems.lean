/-
UnwindTables.Proofs.Table.LookupTheorems — looking an address up.

An FDE describes `pcRange` bytes of code from `pcBegin` on, and an address is looked up by asking every FDE
of the table, in the order of the section, whether it is between the start of the code and the address after
it. Code that reaches the last address there is has no address after it: `pcEnd` is then zero, or some
address before the start if the range goes on beyond, and no address at all is between the two. Such an FDE
is never found.

`Table.lookup_exact` says what is found: the first FDE that covers the address and has an end. With addresses
of four bytes every FDE has one. `Table.unfound_fde` is a table with an FDE that has none.
-/
import UnwindTables.Proofs.Table.ExtentTheorems

namespace UnwindTables

/-! ## 1. Code and its end -/

namespace Fde

/-- An address is less than the length of the code after its start. -/
def Covers (fde : Fde) (address : UInt64) : Prop :=
  fde.pcBegin ≤ address ∧ address - fde.pcBegin < fde.pcRange

/-- There is an address after the code. -/
def HasEnd (fde : Fde) : Prop := fde.pcBegin.toNat + fde.pcRange.toNat < 2 ^ 64

instance (fde : Fde) (address : UInt64) : Decidable (fde.Covers address) :=
  inferInstanceAs (Decidable (_ ∧ _))

instance (fde : Fde) : Decidable fde.HasEnd :=
  inferInstanceAs (Decidable (_ < _))

variable {fde : Fde} {address : UInt64}

theorem covers_iff : fde.Covers address ↔
    fde.pcBegin.toNat ≤ address.toNat ∧
      address.toNat < fde.pcBegin.toNat + fde.pcRange.toNat := by
  have := fde.pcBegin.toNat_lt
  have := address.toNat_lt
  rw [Covers, UInt64.le_iff_toNat_le, UInt64.lt_iff_toNat_lt, UInt64.toNat_sub]
  omega

/-- **An address is inside the code as it is computed exactly if the code covers it and has an end.** -/
theorem contains_iff : fde.contains address = true ↔ fde.Covers address ∧ fde.HasEnd := by
  have := fde.pcBegin.toNat_lt
  have := fde.pcRange.toNat_lt
  rw [contains, Bool.and_eq_true, decide_eq_true_eq, decide_eq_true_eq, UInt64.le_iff_toNat_le,
    UInt64.lt_iff_toNat_lt, pcEnd, UInt64.toNat_add, covers_iff, HasEnd]
  omega

/-- With addresses of four bytes there is always an address after the code. -/
theorem hasEnd_of_four (hbegin : AddressSize.four.Holds fde.pcBegin)
    (hrange : AddressSize.four.Holds fde.pcRange) : fde.HasEnd := by
  simp only [AddressSize.Holds, AddressSize.bytes, capacity_four] at hbegin hrange
  rw [HasEnd]
  omega

end Fde

/-! ## 2. The first FDE -/

/-- Where keys increase, the first item that a condition holds of is the one with the least key. -/
theorem find?_eq_some_iff_least {α : Type} {key : α → Nat} {items : List α}
    (h : (items.map key).Pairwise (· < ·)) {condition : α → Bool} {a : α} :
    items.find? condition = some a ↔
      a ∈ items ∧ condition a = true ∧ ∀ b ∈ items, condition b = true → key a ≤ key b := by
  rw [List.find?_eq_some_iff_append]
  constructor
  · rintro ⟨hcondition, before, after, rfl, hbefore⟩
    refine ⟨by simp, hcondition, ?_⟩
    intro b hb hcb
    rw [List.map_append, List.map_cons] at h
    have hafter := (List.pairwise_cons.mp (List.pairwise_append.mp h).2.1).1
    rcases List.mem_append.mp hb with hb | hb
    · have hnot := hbefore b hb
      rw [hcb] at hnot
      cases hnot
    · rcases List.mem_cons.mp hb with rfl | hb
      · exact Nat.le_refl _
      · exact Nat.le_of_lt (hafter _ (List.mem_map_of_mem hb))
  · rintro ⟨ha, hcondition, hleast⟩
    obtain ⟨before, after, rfl⟩ := List.append_of_mem ha
    rw [List.map_append, List.map_cons] at h
    have hbefore := (List.pairwise_append.mp h).2.2
    refine ⟨hcondition, before, after, rfl, ?_⟩
    intro b hb
    have hless := hbefore _ (List.mem_map_of_mem hb) _ List.mem_cons_self
    cases hcb : condition b with
    | false => rfl
    | true =>
        have := hleast b (List.mem_append_left _ hb) hcb
        omega

namespace Table

/-- An FDE is the one with the least section offset that a condition holds of. -/
structure IsFirst (table : Table) (condition : Fde → Prop) (fde : Fde) : Prop where
  mem : fde ∈ table.fdes
  holds : condition fde
  least : ∀ other ∈ table.fdes, condition other → fde.offset ≤ other.offset

variable {target : Target} {image : Option Image} {bytes : List UInt8} {table : Table}
  {condition : Fde → Prop} {fde : Fde}

/-- The first FDE of a list is the one with the least section offset. -/
theorem find?_eq_some_iff_isFirst [DecidablePred condition] (h : parse target image bytes = .ok table) :
    table.fdes.find? (fun f => decide (condition f)) = some fde ↔ table.IsFirst condition fde := by
  rw [find?_eq_some_iff_least (accounts_of_parse h).fdesIncrease]
  simp only [decide_eq_true_eq]
  exact ⟨fun ⟨hmem, hholds, hleast⟩ => ⟨hmem, hholds, hleast⟩,
    fun hfirst => ⟨hfirst.mem, hfirst.holds, hfirst.least⟩⟩

/-- Where a condition holds of an FDE, there is a first one. -/
theorem exists_isFirst [DecidablePred condition] (h : parse target image bytes = .ok table)
    (hf : fde ∈ table.fdes) (hholds : condition fde) : ∃ first, table.IsFirst condition first := by
  have hfound : (table.fdes.find? fun f => decide (condition f)).isSome := by
    rw [List.find?_isSome]
    exact ⟨fde, hf, decide_eq_true hholds⟩
  obtain ⟨first, hfirst⟩ := Option.isSome_iff_exists.mp hfound
  exact ⟨first, (find?_eq_some_iff_isFirst h).mp hfirst⟩

theorem fdeForAddress?_eq (table : Table) (address : UInt64) :
    table.fdeForAddress? address =
      table.fdes.find? fun f => decide (f.Covers address ∧ f.HasEnd) := by
  refine congrArg (fun condition => table.fdes.find? condition) (funext ?_)
  intro f
  rw [Bool.eq_iff_iff, decide_eq_true_eq]
  exact Fde.contains_iff

theorem fdeForAddress?_eq_some_iff (h : parse target image bytes = .ok table) (address : UInt64) :
    table.fdeForAddress? address = some fde ↔
      table.IsFirst (fun f => f.Covers address ∧ f.HasEnd) fde := by
  rw [fdeForAddress?_eq]
  exact find?_eq_some_iff_isFirst h

/-- The first FDE that covers an address is found exactly if it has an end, and where it has none the lookup
goes on to one that it should not reach. -/
theorem finds_first_iff (h : parse target image bytes = .ok table) (address : UInt64) :
    (∀ fde, table.fdeForAddress? address = some fde ↔ table.IsFirst (·.Covers address) fde) ↔
      ∀ fde, table.IsFirst (·.Covers address) fde → fde.HasEnd := by
  constructor
  · intro hexact fde hfirst
    exact ((fdeForAddress?_eq_some_iff h address).mp ((hexact fde).mpr hfirst)).holds.2
  · intro hends fde
    rw [fdeForAddress?_eq_some_iff h]
    constructor
    · rintro ⟨hmem, hholds, hleast⟩
      obtain ⟨first, hfirst⟩ : ∃ first, table.IsFirst (·.Covers address) first :=
        exists_isFirst h hmem hholds.1
      have hbefore := hleast first hfirst.mem ⟨hfirst.holds, hends first hfirst⟩
      exact ⟨hmem, hholds.1, fun other ho hc => hbefore.trans (hfirst.least other ho hc)⟩
    · intro hfirst
      exact ⟨hfirst.mem, ⟨hfirst.holds, hends fde hfirst⟩,
        fun other ho hc => hfirst.least other ho hc.1⟩

/-- **What a lookup finds.** It finds the first FDE that covers the address and has an end, and nothing
exactly if there is none. So it finds the first FDE that covers the address, as it should, exactly if that one
has an end, which it always has where addresses take four bytes. -/
theorem lookup_exact (h : parse target image bytes = .ok table) (address : UInt64) :
    (∀ fde, table.fdeForAddress? address = some fde ↔
      table.IsFirst (fun f => f.Covers address ∧ f.HasEnd) fde) ∧
    (table.fdeForAddress? address = none ↔ ∀ fde ∈ table.fdes, fde.Covers address → ¬ fde.HasEnd) ∧
    ((∀ fde, table.fdeForAddress? address = some fde ↔ table.IsFirst (·.Covers address) fde) ↔
      ∀ fde, table.IsFirst (·.Covers address) fde → fde.HasEnd) ∧
    (target.addressSize = .four → ∀ fde ∈ table.fdes, fde.HasEnd) := by
  refine ⟨fun _ => fdeForAddress?_eq_some_iff h address, ?_, finds_first_iff h address, ?_⟩
  · rw [fdeForAddress?_eq, List.find?_eq_none]
    simp only [decide_eq_true_eq, not_and]
  · intro hfour fde hf
    have hsound := sound_of_mem_fdes h hf
    exact Fde.hasEnd_of_four (hfour ▸ hsound.pcBegin) (hfour ▸ hsound.pcRange)

/-- A section with one function, whose code is the last page of the address space. -/
def lastPageSection : List UInt8 := [
  12, 0, 0, 0, 0, 0, 0, 0, 1, 0, 1, 0x78, 0x10, 0, 0, 0,
  20, 0, 0, 0, 20, 0, 0, 0, 0, 0xf0, 0xff, 0xff, 0xff, 0xff, 0xff, 0xff, 0, 0x10, 0, 0, 0, 0, 0, 0]

/-- Its CIE. -/
def lastPageCie : Cie where
  offset := 0
  format := .dwarf32
  length := 12
  version := .one
  augmentation := []
  codeAlignment := 1
  dataAlignment := -8
  returnAddressRegister := 16
  declared := ⟨⟨false, false, false, false, false, false⟩, none, none, none, none⟩
  instructions := ⟨13, 16⟩

/-- Its FDE, with the address of the page and its size. -/
def lastPageFde : Fde where
  offset := 16
  format := .dwarf32
  length := 20
  cie := 0
  pcBegin := 0xfffffffffffff000
  pcRange := 0x1000
  lsda := none
  augmentationData := ⟨40, 40⟩
  instructions := ⟨40, 40⟩

/-- Its table. -/
def lastPageTable : Table := ⟨[lastPageCie], [lastPageFde], []⟩

theorem parse_lastPageSection : parse sectionTarget none lastPageSection = .ok lastPageTable := by
  cbv

theorem lookup_lastPageSection :
    parse sectionTarget none lastPageSection = .ok lastPageTable ∧
    (∀ fde, lastPageTable.fdeForAddress? 0xfffffffffffff000 = some fde ↔
      lastPageTable.IsFirst (fun f => f.Covers 0xfffffffffffff000 ∧ f.HasEnd) fde) ∧
    (lastPageTable.fdeForAddress? 0xfffffffffffff000 = none ↔
      ∀ fde ∈ lastPageTable.fdes, fde.Covers 0xfffffffffffff000 → ¬ fde.HasEnd) ∧
    ((∀ fde, lastPageTable.fdeForAddress? 0xfffffffffffff000 = some fde ↔
        lastPageTable.IsFirst (·.Covers 0xfffffffffffff000) fde) ↔
      ∀ fde, lastPageTable.IsFirst (·.Covers 0xfffffffffffff000) fde → fde.HasEnd) ∧
    (sectionTarget.addressSize = .four → ∀ fde ∈ lastPageTable.fdes, fde.HasEnd) :=
  ⟨parse_lastPageSection, lookup_exact parse_lastPageSection 0xfffffffffffff000⟩

/-- The first FDE that covers an address is not found there, nor is any other. -/
theorem unfound_fde :
    parse sectionTarget none lastPageSection = .ok lastPageTable ∧
      lastPageTable.IsFirst (·.Covers 0xfffffffffffff000) lastPageFde ∧
      lastPageFde.pcBegin.toNat + lastPageFde.pcRange.toNat = 2 ^ 64 ∧
      lastPageTable.fdeForAddress? 0xfffffffffffff000 = none := by
  refine ⟨parse_lastPageSection, ⟨List.mem_singleton_self _, by decide, ?_⟩, by decide, by decide⟩
  intro other ho _
  obtain rfl := List.mem_singleton.mp ho
  exact Nat.le_refl _

end Table

end UnwindTables
