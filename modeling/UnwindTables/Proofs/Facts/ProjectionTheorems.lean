/-
UnwindTables.Proofs.Facts.ProjectionTheorems — what a table states, and that a projection says no more
and no less.

`Table.States` says what a fact of a table is, one rule for each relation: the fields of a CIE, the two
halves of its encoding byte, its personality routine, the code of an FDE, its language-specific data. It
does not mention how facts are collected. `Table.project_exact` puts the two next to each other:

* every fact passes the check of its relation, so a projection does not fail;
* a set and a table give the set with what the table states, and the same again if it is done twice;
* from nothing, there are as many facts of a relation as there are records with something to state in
  it, and every reference leads to a fact about the record that is referred to.

## How the proof goes

`Table.mem_facts_iff` goes from the facts that are collected to the rules, and nothing after it looks at
how they are collected, except for counting. Facts of different records are different, because they
start with the section offset of their record and no two records share one (`Table.nodup_facts`). So
the store of a table holds its facts in another order (`Table.perm_project`), and counting in the one is
counting in the other. References are followed in the table, where every FDE has its CIE
(`Table.exists_cie_of_mem_fdes`).
-/
import UnwindTables.Facts.Projection
import UnwindTables.Proofs.Facts.StoreTheorems
import UnwindTables.Proofs.Table.TwoPassTheorems
import UnwindTables.SearchTable

namespace UnwindTables

/-! ## 1. The facts of a table -/

/-- What a table states. -/
inductive Table.States (table : Table) : Fact → Prop
  /-- A CIE states its fields. -/
  | cieEntry {cie : Cie} : cie ∈ table.cies →
      States table ⟨.cieEntry, ⟨[.unsigned cie.offset, .unsigned cie.version.number.toNat,
        .unsigned cie.codeAlignment.toNat, .signed cie.dataAlignment.toInt,
        .unsigned cie.returnAddressRegister.toNat]⟩⟩
  /-- A CIE with an encoding states its low and its high half, which make up the byte. -/
  | cieEncoding {cie : Cie} {byte : UInt8} {format modifier : Nat} : cie ∈ table.cies →
      cie.declared.fdeEncoding = some byte → format < 16 → 16 ∣ modifier →
      format ||| modifier = byte.toNat →
      States table ⟨.cieEncoding, ⟨[.unsigned cie.offset, .unsigned format, .unsigned modifier]⟩⟩
  /-- A CIE with a personality routine states its address. -/
  | ciePersonality {cie : Cie} {pointer : Pointer} : cie ∈ table.cies →
      cie.declared.personality = some pointer →
      States table ⟨.ciePersonality, ⟨[.unsigned cie.offset, .unsigned pointer.address.toNat]⟩⟩
  /-- An FDE states where its code starts and the address after it. -/
  | fdeEntry {fde : Fde} : fde ∈ table.fdes →
      States table ⟨.fdeEntry, ⟨[.unsigned fde.offset, .unsigned fde.cie,
        .unsigned fde.pcBegin.toNat, .unsigned (fde.pcBegin + fde.pcRange).toNat]⟩⟩
  /-- An FDE with language-specific data states its address. -/
  | fdePointerLocations {fde : Fde} {pointer : Pointer} : fde ∈ table.fdes →
      fde.lsda = some pointer →
      States table ⟨.fdePointerLocations, ⟨[.unsigned fde.offset, .unsigned fde.cie,
        .symbol "lsda", .unsigned pointer.address.toNat]⟩⟩

/-- The two halves of a byte are told apart by what they are multiples of. -/
theorem halves_iff {byte : UInt8} {low high : Nat} :
    low < 16 ∧ 16 ∣ high ∧ low ||| high = byte.toNat ↔
      low = (byte &&& 0x0f).toNat ∧ high = (byte &&& 0xf0).toNat := by
  have hlow : (byte &&& 0x0f).toNat = byte.toNat % 16 := by
    rw [UInt8.toNat_and]
    exact Nat.and_two_pow_sub_one_eq_mod byte.toNat 4
  have hhigh : (byte &&& 0xf0).toNat = 16 * (byte.toNat / 16) := by
    have all : ∀ n : Fin 256, n.val &&& 0xf0 = 16 * (n.val / 16) := by decide +kernel
    rw [UInt8.toNat_and]
    exact all ⟨byte.toNat, byte.toNat_lt⟩
  have hor : ∀ k, low < 16 → low ||| 16 * k = 16 * k + low := by
    intro k hless
    rw [Nat.or_comm]
    exact (Nat.two_pow_add_eq_or_of_lt (i := 4) hless k).symm
  rw [hlow, hhigh]
  constructor
  · rintro ⟨hless, ⟨k, rfl⟩, hboth⟩
    rw [hor k hless] at hboth
    omega
  · rintro ⟨rfl, rfl⟩
    have hless : byte.toNat % 16 < 16 := Nat.mod_lt _ (by decide)
    refine ⟨hless, ⟨_, rfl⟩, ?_⟩
    rw [hor _ hless]
    omega

theorem Cie.mem_facts_iff {cie : Cie} {fact : Fact} :
    fact ∈ cie.facts ↔ fact = ⟨.cieEntry, cie.entryTuple⟩ ∨
      (∃ byte, cie.declared.fdeEncoding = some byte ∧
        fact = ⟨.cieEncoding, ⟨[.unsigned cie.offset, .unsigned (byte &&& 0x0f).toNat,
          .unsigned (byte &&& 0xf0).toNat]⟩⟩) ∨
      ∃ pointer, cie.declared.personality = some pointer ∧
        fact = ⟨.ciePersonality, ⟨[.unsigned cie.offset, .word pointer.address]⟩⟩ := by
  simp only [facts, encodingTuple?, personalityTuple?, List.mem_cons, List.mem_append]
  cases cie.declared.fdeEncoding <;> cases cie.declared.personality <;> simp

theorem Fde.mem_facts_iff {fde : Fde} {fact : Fact} :
    fact ∈ fde.facts ↔ fact = ⟨.fdeEntry, fde.entryTuple⟩ ∨
      ∃ pointer, fde.lsda = some pointer ∧
        fact = ⟨.fdePointerLocations, ⟨[.unsigned fde.offset, .unsigned fde.cie, .symbol lsdaKind,
          .word pointer.address]⟩⟩ := by
  simp only [facts, pointerTuple?, List.mem_cons]
  cases fde.lsda <;> simp

namespace Table

variable {target : Target} {image : Option Image} {bytes : List UInt8} {table : Table}
  {store : FactStore} {fact : Fact}

/-- The facts that are collected are those that the table states. -/
theorem mem_facts_iff : fact ∈ table.facts ↔ table.States fact := by
  simp only [facts, List.mem_append, List.mem_flatMap, Cie.mem_facts_iff, Fde.mem_facts_iff]
  constructor
  · rintro (⟨cie, hc, rfl | ⟨byte, hbyte, rfl⟩ | ⟨pointer, hpointer, rfl⟩⟩ |
      ⟨fde, hf, rfl | ⟨pointer, hpointer, rfl⟩⟩)
    · exact .cieEntry hc
    · obtain ⟨hlow, hhigh, hboth⟩ := halves_iff.mpr ⟨rfl, rfl⟩
      exact .cieEncoding hc hbyte hlow hhigh hboth
    · exact .ciePersonality hc hpointer
    · exact .fdeEntry hf
    · exact .fdePointerLocations hf hpointer
  · intro h
    cases h with
    | cieEntry hc => exact Or.inl ⟨_, hc, Or.inl rfl⟩
    | cieEncoding hc hbyte hlow hhigh hboth =>
        obtain ⟨rfl, rfl⟩ := halves_iff.mp ⟨hlow, hhigh, hboth⟩
        exact Or.inl ⟨_, hc, Or.inr (Or.inl ⟨_, hbyte, rfl⟩)⟩
    | ciePersonality hc hpointer => exact Or.inl ⟨_, hc, Or.inr (Or.inr ⟨_, hpointer, rfl⟩)⟩
    | fdeEntry hf => exact Or.inr ⟨_, hf, Or.inl rfl⟩
    | fdePointerLocations hf hpointer => exact Or.inr ⟨_, hf, Or.inr ⟨_, hpointer, rfl⟩⟩

/-! ## 2. Adding them to a set -/

/-- Every fact of a table has as many fields as its relation has columns. -/
theorem States.ofFields_eq (h : table.States fact) :
    Tuple.ofFields fact.relation fact.tuple.fields = .ok fact.tuple := by
  cases h <;> rfl

end Table

/-- Facts that all pass the check of their relation are added to a set. -/
theorem FactStore.insertChecked_eq {facts : List Fact} (store : FactStore)
    (h : ∀ fact ∈ facts, Tuple.ofFields fact.relation fact.tuple.fields = .ok fact.tuple) :
    store.insertChecked facts = .ok (store.insertAll facts) := by
  induction facts generalizing store with
  | nil => rfl
  | cons fact facts ih =>
      have hrest := ih (store.insert fact) fun later hlater => h later (List.mem_cons_of_mem _ hlater)
      rw [insertChecked, h fact List.mem_cons_self]
      exact hrest

namespace Table

variable {target : Target} {image : Option Image} {bytes : List UInt8} {table : Table}
  {store : FactStore} {fact : Fact}

/-- No fact of a table fails the check of its relation. -/
theorem projectChecked_eq (table : Table) (store : FactStore) :
    table.projectChecked store = .ok (table.project store) :=
  store.insertChecked_eq fun _ hfact => (mem_facts_iff.mp hfact).ofFields_eq

theorem mem_project : fact ∈ (table.project store).facts ↔ fact ∈ store.facts ∨ table.States fact := by
  rw [project, FactStore.mem_insertAll, mem_facts_iff]

/-- A set is what another one becomes when a table is added to it. -/
structure Adds (table : Table) (store projected : FactStore) : Prop where
  /-- It is in order, so no fact is in it twice. -/
  ascending : projected.Ascending
  /-- It holds what was there and what the table states. -/
  mem : ∀ fact, fact ∈ projected.facts ↔ fact ∈ store.facts ∨ table.States fact
  /-- Adding the table again changes nothing. -/
  again : table.projectChecked projected = .ok projected

theorem adds_project (h : store.Ascending) : table.Adds store (table.project store) where
  ascending := h.insertAll table.facts
  mem _ := mem_project
  again := by
    rw [projectChecked_eq]
    refine congrArg Except.ok (FactStore.Ascending.eq_of_mem_iff
      ((h.insertAll table.facts).insertAll table.facts) (h.insertAll table.facts) ?_)
    intro fact
    rw [mem_project, mem_project, or_assoc, or_self]

end Table

/-! ## 3. Counting them -/

/-- Whether a CIE has something to state in a relation. -/
def Cie.hasFact (cie : Cie) : Relation → Bool
  | .cieEntry => true
  | .cieEncoding => cie.declared.fdeEncoding.isSome
  | .ciePersonality => cie.declared.personality.isSome
  | _ => false

/-- Whether an FDE has something to state in a relation. -/
def Fde.hasFact (fde : Fde) : Relation → Bool
  | .fdeEntry => true
  | .fdePointerLocations => fde.lsda.isSome
  | _ => false

/-- A CIE states one thing at most in a relation. -/
theorem Cie.countP_facts (cie : Cie) (relation : Relation) :
    cie.facts.countP (·.relation == relation) = if cie.hasFact relation then 1 else 0 := by
  unfold facts hasFact encodingTuple? personalityTuple?
  cases cie.declared.fdeEncoding <;> cases cie.declared.personality <;> cases relation <;> rfl

/-- An FDE states one thing at most in a relation. -/
theorem Fde.countP_facts (fde : Fde) (relation : Relation) :
    fde.facts.countP (·.relation == relation) = if fde.hasFact relation then 1 else 0 := by
  unfold facts hasFact pointerTuple?
  cases fde.lsda <;> cases relation <;> rfl

/-- What a CIE states is about a CIE. -/
theorem Cie.of_mem_facts {cie : Cie} {fact : Fact} (h : fact ∈ cie.facts) :
    fact.relation ≠ .fdeEntry ∧ fact.relation ≠ .fdePointerLocations := by
  rcases mem_facts_iff.mp h with rfl | ⟨byte, -, rfl⟩ | ⟨pointer, -, rfl⟩ <;> exact ⟨by simp, by simp⟩

/-- What a CIE states starts with its section offset. -/
theorem Cie.head?_of_mem_facts {cie : Cie} {fact : Fact} (h : fact ∈ cie.facts) :
    fact.tuple.fields.head? = some (.unsigned cie.offset) := by
  rcases mem_facts_iff.mp h with rfl | ⟨byte, -, rfl⟩ | ⟨pointer, -, rfl⟩ <;> rfl

/-- What an FDE states is about an FDE, and starts with its section offset. -/
theorem Fde.of_mem_facts {fde : Fde} {fact : Fact} (h : fact ∈ fde.facts) :
    (fact.relation = .fdeEntry ∨ fact.relation = .fdePointerLocations) ∧
      fact.tuple.fields.head? = some (.unsigned fde.offset) := by
  rcases mem_facts_iff.mp h with rfl | ⟨pointer, -, rfl⟩
  · exact ⟨Or.inl rfl, rfl⟩
  · exact ⟨Or.inr rfl, rfl⟩

/-- Where every item gives one hit if it has a property and none otherwise, all of them give as many
hits as there are items with the property. -/
theorem countP_flatMap_of_once {α β : Type} {hit : β → Bool} {has : α → Bool} {f : α → List β}
    (h : ∀ item, (f item).countP hit = if has item then 1 else 0) (items : List α) :
    (items.flatMap f).countP hit = items.countP has := by
  induction items with
  | nil => rfl
  | cons item items ih =>
      rw [List.flatMap_cons, List.countP_append, h, ih, List.countP_cons, Nat.add_comm]

/-- Items in the order of a key have nothing in common if each part of an item starts with its key. -/
theorem nodup_flatMap_of_key {α β : Type} {key : α → Nat} {f : α → List β} {first? : β → Option Field}
    {items : List α} (hincrease : (items.map key).Pairwise (· < ·))
    (heach : ∀ item ∈ items, (f item).Nodup)
    (hfirst? : ∀ item, ∀ b ∈ f item, first? b = some (.unsigned (key item))) :
    (items.flatMap f).Nodup := by
  refine List.nodup_flatMap.mpr ⟨heach, (List.pairwise_map.mp hincrease).imp ?_⟩
  intro item other hless b hitem hother
  have hsame := (hfirst? item b hitem).symm.trans (hfirst? other b hother)
  have hkey := Field.unsigned.inj (Option.some.inj hsame)
  exact Nat.ne_of_lt hless hkey

namespace Table

variable {target : Target} {image : Option Image} {bytes : List UInt8} {table : Table}
  {store : FactStore} {fact : Fact}

/-- How many records of a table have something to state in a relation. -/
def stating (table : Table) : Relation → Nat
  | .cieEntry => table.cies.length
  | .cieEncoding => table.cies.countP (·.declared.fdeEncoding.isSome)
  | .ciePersonality => table.cies.countP (·.declared.personality.isSome)
  | .fdePointerLocations => table.fdes.countP (·.lsda.isSome)
  | .fdeEntry => table.fdes.length

theorem countP_facts (table : Table) (relation : Relation) :
    table.facts.countP (·.relation == relation) = table.stating relation := by
  rw [facts, List.countP_append, countP_flatMap_of_once (Cie.countP_facts · relation),
    countP_flatMap_of_once (Fde.countP_facts · relation)]
  cases relation <;> simp [stating, Cie.hasFact, Fde.hasFact]

/-- Records at different section offsets state different facts. -/
theorem nodup_facts (hcies : (table.cies.map Cie.offset).Pairwise (· < ·))
    (hfdes : (table.fdes.map Fde.offset).Pairwise (· < ·)) : table.facts.Nodup := by
  refine List.nodup_append.mpr ⟨?_, ?_, ?_⟩
  · refine nodup_flatMap_of_key hcies ?_ fun _ _ h => Cie.head?_of_mem_facts h
    intro cie _
    unfold Cie.facts Cie.encodingTuple? Cie.personalityTuple?
    cases cie.declared.fdeEncoding <;> cases cie.declared.personality <;> simp
  · refine nodup_flatMap_of_key hfdes ?_ fun _ _ h => (Fde.of_mem_facts h).2
    intro fde _
    unfold Fde.facts Fde.pointerTuple?
    cases fde.lsda <;> simp
  · rintro fact hcie other hfde rfl
    obtain ⟨cie, -, hcie⟩ := List.mem_flatMap.mp hcie
    obtain ⟨fde, -, hfde⟩ := List.mem_flatMap.mp hfde
    obtain ⟨hentry, hpointer⟩ := Cie.of_mem_facts hcie
    rcases (Fde.of_mem_facts hfde).1 with hrelation | hrelation
    · exact hentry hrelation
    · exact hpointer hrelation

theorem project_empty_ascending (table : Table) : (table.project .empty).Ascending :=
  FactStore.ascending_empty.insertAll _

theorem mem_project_empty : fact ∈ (table.project .empty).facts ↔ fact ∈ table.facts := by
  rw [project, FactStore.mem_insertAll]
  simp [FactStore.empty]

theorem states_iff_mem_project : table.States fact ↔ fact ∈ (table.project .empty).facts := by
  rw [mem_project_empty, mem_facts_iff]

/-- The store of a table holds the facts of its records, in order. -/
theorem perm_project (hcies : (table.cies.map Cie.offset).Pairwise (· < ·))
    (hfdes : (table.fdes.map Fde.offset).Pairwise (· < ·)) :
    (table.project .empty).facts.Perm table.facts :=
  (List.perm_ext_iff_of_nodup (project_empty_ascending table).nodup (nodup_facts hcies hfdes)).mpr
    fun _ => mem_project_empty

/-- No two records of a table state the same. -/
theorem count_project (hcies : (table.cies.map Cie.offset).Pairwise (· < ·))
    (hfdes : (table.fdes.map Fde.offset).Pairwise (· < ·)) (relation : Relation) :
    (table.project .empty).count relation = table.stating relation := by
  rw [FactStore.count, FactStore.tuples, List.length_map, ← List.countP_eq_length_filter,
    (perm_project hcies hfdes).countP_eq, countP_facts]

end Table

/-! ## 4. References -/

/-- The field of a fact in the column of a name. -/
def Fact.field? (fact : Fact) (column : String) : Option Field :=
  (fact.relation.columns.zip fact.tuple.fields).lookup column

/-- What the facts of a store refer to has facts of its own. -/
structure FactStore.Closed (store : FactStore) : Prop where
  /-- Every fact names a CIE, and there is a fact about the CIE itself. -/
  cie : ∀ fact ∈ store.facts, ∃ offset, fact.field? "cie_offset" = some offset ∧
    ∃ entry ∈ store.facts, entry.relation = .cieEntry ∧ entry.field? "cie_offset" = some offset
  /-- A fact about a pointer of an FDE goes with a fact about the code of the FDE. -/
  fde : ∀ fact ∈ store.facts, fact.relation = .fdePointerLocations →
    ∃ offset owner, fact.field? "fde_offset" = some offset ∧ fact.field? "cie_offset" = some owner ∧
      ∃ entry ∈ store.facts, entry.relation = .fdeEntry ∧
        entry.field? "fde_offset" = some offset ∧ entry.field? "cie_offset" = some owner

namespace Table

variable {target : Target} {image : Option Image} {bytes : List UInt8} {table : Table}
  {store : FactStore} {fact : Fact}

/-- The facts of a table are closed if the CIEs of its FDEs are in it. -/
theorem closed_project (h : ∀ fde ∈ table.fdes, ∃ cie ∈ table.cies, cie.offset = fde.cie) :
    (table.project .empty).Closed := by
  have hentry : ∀ cie ∈ table.cies, ∃ entry ∈ (table.project .empty).facts,
      entry.relation = .cieEntry ∧ entry.field? "cie_offset" = some (.unsigned cie.offset) :=
    fun cie hc => ⟨_, states_iff_mem_project.mp (.cieEntry hc), rfl, rfl⟩
  constructor
  · intro fact hfact
    have howner : ∀ fde ∈ table.fdes, ∃ entry ∈ (table.project .empty).facts,
        entry.relation = .cieEntry ∧ entry.field? "cie_offset" = some (.unsigned fde.cie) := by
      intro fde hf
      obtain ⟨cie, hc, hoffset⟩ := h fde hf
      rw [← hoffset]
      exact hentry cie hc
    cases states_iff_mem_project.mpr hfact with
    | cieEntry hc => exact ⟨_, rfl, hentry _ hc⟩
    | cieEncoding hc => exact ⟨_, rfl, hentry _ hc⟩
    | ciePersonality hc => exact ⟨_, rfl, hentry _ hc⟩
    | fdeEntry hf => exact ⟨_, rfl, howner _ hf⟩
    | fdePointerLocations hf => exact ⟨_, rfl, howner _ hf⟩
  · intro fact hfact hrelation
    cases states_iff_mem_project.mpr hfact with
    | fdePointerLocations hf => exact ⟨_, _, rfl, rfl, _, states_iff_mem_project.mp (.fdeEntry hf), rfl, rfl, rfl⟩
    | _ => cases hrelation

/-! ## 5. The facts of a section -/

/-- The tables that a section leads to: the one that is parsed, and what checks of search tables make
of it. -/
inductive ReadFrom (target : Target) (image : Option Image) (bytes : List UInt8) : Table → Prop
  | parsed {table : Table} : parse target image bytes = .ok table → ReadFrom target image bytes table
  | verified {table : Table} (searchTable : SearchTable) (ehFrame : UInt64) :
      ReadFrom target image bytes table →
      ReadFrom target image bytes (searchTable.verify table ehFrame).1

/-- A check of a search table changes no record. -/
theorem ReadFrom.exists_parse (h : table.ReadFrom target image bytes) :
    ∃ parsed, parse target image bytes = .ok parsed ∧ table.cies = parsed.cies ∧
      table.fdes = parsed.fdes := by
  induction h with
  | parsed hparse => exact ⟨_, hparse, rfl, rfl⟩
  | verified searchTable ehFrame _ ih => exact ih

/-- Every FDE of a section has its CIE. -/
theorem exists_cie_of_mem_fdes (h : parse target image bytes = .ok table) {fde : Fde}
    (hf : fde ∈ table.fdes) : ∃ cie ∈ table.cies, cie.offset = fde.cie := by
  obtain ⟨_, -, cie, hc, _, -, hread⟩ := exists_record_of_mem_fdes h hf
  obtain ⟨_, _, _, _, _, _, _, -, -, -, -, -, -, rfl⟩ := Fde.read_eq_ok hread
  exact ⟨cie, hc, rfl⟩

/-- **A projection is exact, and its references lead somewhere.** A table adds to a set what it states
and nothing else, without failing, and adding it again changes nothing. From nothing there is a fact for
every record that has something to state, and no reference is left open. -/
theorem project_exact (h : table.ReadFrom target image bytes) (hstore : store.Ascending) :
    (∃ projected, table.projectChecked store = .ok projected ∧ table.Adds store projected) ∧
      ∃ own, table.projectChecked .empty = .ok own ∧ table.Adds .empty own ∧
        (∀ relation, own.count relation = table.stating relation) ∧ own.Closed := by
  obtain ⟨parsed, hparse, hcies, hfdes⟩ := h.exists_parse
  have haccounts := accounts_of_parse hparse
  have hciesIncrease := haccounts.ciesIncrease
  have hfdesIncrease := haccounts.fdesIncrease
  rw [← hcies] at hciesIncrease
  rw [← hfdes] at hfdesIncrease
  refine ⟨⟨_, projectChecked_eq table store, adds_project hstore⟩,
    _, projectChecked_eq table .empty, adds_project FactStore.ascending_empty,
    count_project hciesIncrease hfdesIncrease, closed_project ?_⟩
  intro fde hf
  rw [hfdes] at hf
  rw [hcies]
  exact exists_cie_of_mem_fdes hparse hf

/-- A CIE with a personality routine, and an FDE with language-specific data. -/
def handlerSection : List UInt8 := [
  24, 0, 0, 0, 0, 0, 0, 0, 1, 0x7a, 0x50, 0x4c, 0x52, 0, 1, 0x78, 16, 7, 0x03, 0, 0x50, 0, 0,
  0x1b, 0x1b, 0, 0, 0,
  20, 0, 0, 0, 32, 0, 0, 0, 0, 0x10, 0, 0, 0x40, 0, 0, 0, 4, 0, 8, 0, 0, 0, 0, 0]

/-- The CIE as it is read. -/
def handlerCie : Cie where
  offset := 0
  format := .dwarf32
  length := 24
  version := .one
  augmentation := ['z'.toUInt8, 'P'.toUInt8, 'L'.toUInt8, 'R'.toUInt8]
  codeAlignment := 1
  dataAlignment := -8
  returnAddressRegister := 16
  declared := ⟨⟨true, true, true, true, false, false⟩, some 0x1b, some 0x1b, some 0x03,
    some ⟨0x5000, 0x5000, false⟩⟩
  instructions := ⟨25, 28⟩

/-- The FDE as it is read. -/
def handlerFde : Fde where
  offset := 28
  format := .dwarf32
  length := 20
  cie := 0
  pcBegin := 0x2024
  pcRange := 0x40
  lsda := some ⟨0x182d, 0x800, false⟩
  augmentationData := ⟨45, 49⟩
  instructions := ⟨49, 52⟩

/-- The table of the section. -/
def handlerTable : Table := ⟨[handlerCie], [handlerFde], []⟩

/-- A search table with an entry that matches no FDE. -/
def staleSearchTable : SearchTable := ⟨1, ⟨0x1000, 0x1000, false⟩, [⟨0x3000, 0x101c⟩]⟩

theorem project_handlerTable :
    let table := (staleSearchTable.verify handlerTable 0x1000).1
    let store : FactStore := ⟨[⟨.cieEntry, handlerCie.entryTuple⟩]⟩
    table.ReadFrom sectionTarget none handlerSection ∧ store.Ascending ∧
      (∃ projected, table.projectChecked store = .ok projected ∧ table.Adds store projected) ∧
        ∃ own, table.projectChecked .empty = .ok own ∧ table.Adds .empty own ∧
          (∀ relation, own.count relation = table.stating relation) ∧ own.Closed := by
  have hparse : parse sectionTarget none handlerSection = .ok handlerTable := by decide +kernel
  have hread := ReadFrom.verified staleSearchTable 0x1000 (.parsed hparse)
  have hstore : (⟨[⟨.cieEntry, handlerCie.entryTuple⟩]⟩ : FactStore).Ascending :=
    List.pairwise_singleton _ _
  exact ⟨hread, hstore, project_exact hread hstore⟩

end Table

end UnwindTables
