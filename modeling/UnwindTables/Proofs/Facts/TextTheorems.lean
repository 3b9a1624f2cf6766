/-
UnwindTables.Proofs.Facts.TextTheorems — the files of facts say what the facts are.

A file of facts has nothing but text in it: the fields of a fact with tabs between them, and a new line
after each fact. That a number has a sign, or that a field is a word, cannot be seen in it. It does not
have to be: the name of a column says which kind of fields it has (`ColumnKind.ofName`), and with that
every file can be read back (`Tuple.ofLine?`).

`Table.writeFacts_determines` says so for the files that are written for a table: each of them holds the
facts of its relation, one in a line and in order, and nothing else. So tables whose files are the same
state the same facts.

## How the proof goes

A number is read back from its numeral (`Field.ofText?_text`), and neither a numeral nor the word that
facts use has a tab or a new line in it (`Field.Plain`). So the tabs of a line are those between its
fields, and the new lines of a file are those after its facts; and pieces that have been put together
with a separator that none of them has can be taken apart again (`Text.pieces_intercalate`).

No smaller part of Mathlib brings `Nat.toNat?_repr` and `Int.toInt?_repr` along, so all of it is imported.
-/
import UnwindTables.Proofs.Cli.StorageTheorems
import UnwindTables.Proofs.Facts.ProjectionTheorems
import Mathlib

namespace UnwindTables

/-! ## 1. Fields -/

/-- What the fields of a column are. -/
inductive ColumnKind where
  /-- Numbers without a sign. -/
  | unsigned
  /-- Numbers with a sign. -/
  | signed
  /-- Words. -/
  | symbol
deriving DecidableEq

/-- What the fields of a column with a name are. -/
def ColumnKind.ofName (column : String) : ColumnKind :=
  if column = "data_alignment" then .signed
  else if column = "pointer_kind" then .symbol
  else .unsigned

/-- What the fields of the columns of a relation are. -/
def Relation.kinds (relation : Relation) : List ColumnKind := relation.columns.map ColumnKind.ofName

namespace Field

/-- What a field is. -/
def kind : Field → ColumnKind
  | unsigned _ => .unsigned
  | signed _ => .signed
  | symbol _ => .symbol

/-- The field of a column with a text. -/
def ofText? (text : String) : ColumnKind → Option Field
  | .unsigned => text.toNat?.map unsigned
  | .signed => text.toInt?.map signed
  | .symbol => some (symbol text)

/-- A field is read back from its text. -/
theorem ofText?_text (field : Field) : ofText? field.text field.kind = some field := by
  cases field with
  | unsigned value => exact congrArg (Option.map unsigned) (Nat.toNat?_repr value)
  | signed value => exact congrArg (Option.map signed) (Int.toInt?_repr value)
  | symbol value => rfl

/-- Neither a tab nor a new line is in the text of a field. -/
def Plain (field : Field) : Prop := ∀ c ∈ field.text.toList, c ≠ '\t' ∧ c ≠ '\n'

theorem isDigit_of_mem_repr {n : Nat} {c : Char} (h : c ∈ n.repr.toList) : c.isDigit := by
  rw [Nat.repr_eq_ofList_toDigits, String.toList_ofList] at h
  exact Nat.isDigit_of_mem_toDigits (by decide) (by decide) h

theorem plain_of_isDigit {c : Char} (h : c.isDigit) : c ≠ '\t' ∧ c ≠ '\n' := by
  refine ⟨?_, ?_⟩ <;> rintro rfl <;> exact absurd h (by decide)

theorem plain_unsigned (value : Nat) : (unsigned value).Plain :=
  fun _ hc => plain_of_isDigit (isDigit_of_mem_repr hc)

theorem plain_signed (value : Int) : (signed value).Plain := by
  intro c hc
  change c ∈ value.repr.toList at hc
  rw [Int.repr_eq_if] at hc
  split at hc
  · exact plain_of_isDigit (isDigit_of_mem_repr hc)
  · rw [String.toList_append, List.mem_append] at hc
    rcases hc with hc | hc
    · obtain rfl : c = '-' := by simpa using hc
      decide
    · exact plain_of_isDigit (isDigit_of_mem_repr hc)

end Field

/-! ## 2. Lines -/

/-- The fields of some columns with some texts, if there are as many. -/
def Field.ofTexts? : List ColumnKind → List String → Option (List Field)
  | [], [] => some []
  | kind :: kinds, text :: texts => do
    let field ← ofText? text kind
    let fields ← ofTexts? kinds texts
    return field :: fields
  | _, _ => none

theorem Field.ofTexts?_map_text (fields : List Field) :
    ofTexts? (fields.map kind) (fields.map text) = some fields := by
  induction fields with
  | nil => rfl
  | cons field fields ih =>
      rw [List.map_cons, List.map_cons, ofTexts?, ofText?_text, ih]
      rfl

/-- The tuple of a relation in a line. -/
def Tuple.ofLine? (relation : Relation) (line : String) : Option Tuple :=
  (Field.ofTexts? relation.kinds (Text.pieces '\t' line)).map Tuple.mk

/-- What is in parts that have been put together is in one of them or in the separator. -/
theorem mem_of_mem_intercalate {α : Type} {separator : List α} {parts : List (List α)} {a : α}
    (h : a ∈ separator.intercalate parts) : a ∈ separator ∨ ∃ part ∈ parts, a ∈ part := by
  induction parts with
  | nil => cases h
  | cons first parts ih =>
      cases parts with
      | nil =>
          rw [List.intercalate_singleton] at h
          exact Or.inr ⟨first, List.mem_cons_self, h⟩
      | cons second parts =>
          rw [List.intercalate_cons_cons, List.mem_append, List.mem_append] at h
          rcases h with (h | h) | h
          · exact Or.inr ⟨first, List.mem_cons_self, h⟩
          · exact Or.inl h
          · refine (ih h).imp_right ?_
            rintro ⟨part, hpart, ha⟩
            exact ⟨part, List.mem_cons_of_mem first hpart, ha⟩

/-- A fact has fields of the right kinds, and can be told apart from the other ones in a file. -/
structure Fact.Listable (fact : Fact) : Prop where
  kinds : fact.tuple.fields.map Field.kind = fact.relation.kinds
  plain : ∀ field ∈ fact.tuple.fields, field.Plain

namespace Fact.Listable

variable {fact : Fact}

theorem fields_ne_nil (h : fact.Listable) : fact.tuple.fields ≠ [] := by
  intro hnil
  have hkinds := h.kinds
  rw [hnil] at hkinds
  cases hrelation : fact.relation <;> rw [hrelation] at hkinds <;> cases hkinds

/-- The pieces of its line are the texts of its fields. -/
theorem pieces_text (h : fact.Listable) :
    Text.pieces '\t' fact.tuple.text = fact.tuple.fields.map Field.text := by
  refine Text.pieces_intercalate ?_ (by simpa using h.fields_ne_nil)
  intro text htext htab
  obtain ⟨field, hfield, rfl⟩ := List.mem_map.mp htext
  exact (h.plain field hfield _ htab).1 rfl

theorem length_pieces (h : fact.Listable) :
    (Text.pieces '\t' fact.tuple.text).length = fact.relation.arity := by
  have hlength := congrArg List.length h.kinds
  rw [List.length_map, Relation.kinds, List.length_map] at hlength
  rw [h.pieces_text, List.length_map, hlength]
  rfl

/-- **A fact is read back from its line.** -/
theorem ofLine?_text (h : fact.Listable) :
    Tuple.ofLine? fact.relation fact.tuple.text = some fact.tuple := by
  rw [Tuple.ofLine?, h.pieces_text, ← h.kinds, Field.ofTexts?_map_text]
  rfl

/-- There is no new line in its line. -/
theorem newline_not_mem_text (h : fact.Listable) : '\n' ∉ fact.tuple.text.toList := by
  intro hmem
  rw [Tuple.text, String.toList_intercalate] at hmem
  rcases mem_of_mem_intercalate hmem with htab | ⟨part, hpart, hmem⟩
  · exact absurd htab (by decide)
  · rw [List.map_map] at hpart
    obtain ⟨field, hfield, rfl⟩ := List.mem_map.mp hpart
    exact (h.plain field hfield _ hmem).2 rfl

end Fact.Listable

/-- What a table states can be listed. -/
theorem Table.States.listable {table : Table} {fact : Fact} (h : table.States fact) :
    fact.Listable := by
  have hword : Field.Plain (.symbol "lsda") := by
    intro c hc
    have hletter : c = 'l' ∨ c = 's' ∨ c = 'd' ∨ c = 'a' := by simpa [Field.text] using hc
    rcases hletter with rfl | rfl | rfl | rfl <;> decide
  cases h <;> exact ⟨rfl, by simp [Field.plain_unsigned, Field.plain_signed, hword]⟩

/-! ## 3. Files -/

/-- Lines with a new line after each of them. -/
theorem pieces_join {lines : List String} (h : ∀ line ∈ lines, '\n' ∉ line.toList) :
    Text.pieces '\n' (String.join (lines.map (· ++ "\n"))) = lines ++ [""] := by
  induction lines with
  | nil => decide
  | cons line lines ih =>
      have hfirst := Text.pieces_of_not_mem (h line List.mem_cons_self)
      have hrest := ih fun later hlater => h later (List.mem_cons_of_mem line hlater)
      have hnewline : "\n" = String.singleton '\n' := rfl
      rw [List.map_cons, String.join_cons, hnewline, Text.pieces_append, hfirst, ← hnewline, hrest]
      rfl

/-- A file has some tuples of a relation in it, one in each of its lines. -/
structure Relation.Lists (relation : Relation) (tuples : List Tuple) (text : String)
    (lines : List String) : Prop where
  /-- The file is these lines with a new line after each. -/
  whole : Text.pieces '\n' text = lines ++ [""]
  /-- A line has a piece for every column. -/
  columns : ∀ line ∈ lines, (Text.pieces '\t' line).length = relation.arity
  /-- The lines are read back as the tuples. -/
  readBack : lines.map (Tuple.ofLine? relation) = tuples.map some

/-- A file has no other tuples in it. -/
theorem Relation.Lists.unique {relation : Relation} {tuples tuples' : List Tuple} {text : String}
    {lines lines' : List String} (h : relation.Lists tuples text lines)
    (h' : relation.Lists tuples' text lines') : tuples = tuples' := by
  have hlines : lines = lines' := List.append_cancel_right (h.whole.symm.trans h'.whole)
  refine List.map_injective_iff.mpr (Option.some_injective Tuple) ?_
  rw [← h.readBack, ← h'.readBack, hlines]

namespace FactStore

variable {store : FactStore} {relation : Relation} {tuple : Tuple}

/-- The file of a relation has the tuples of the relation in it. -/
theorem lists_fileText (h : ∀ fact ∈ store.facts, fact.Listable) (relation : Relation) :
    relation.Lists (store.tuples relation) (store.fileText relation)
      ((store.tuples relation).map Tuple.text) where
  whole := by
    have hlines : ∀ line ∈ (store.tuples relation).map Tuple.text, '\n' ∉ line.toList := by
      intro line hline
      obtain ⟨tuple, htuple, rfl⟩ := List.mem_map.mp hline
      exact (h _ (mem_tuples.mp htuple)).newline_not_mem_text
    rw [← pieces_join hlines, fileText, List.map_map]
    rfl
  columns := by
    intro line hline
    obtain ⟨tuple, htuple, rfl⟩ := List.mem_map.mp hline
    exact (h _ (mem_tuples.mp htuple)).length_pieces
  readBack := by
    rw [List.map_map]
    exact List.map_congr_left fun tuple htuple => (h _ (mem_tuples.mp htuple)).ofLine?_text

end FactStore

namespace Table

/-- A file holds what a table states in a relation. -/
structure Fills (table : Table) (relation : Relation) (text : String) : Prop where
  /-- It has a line for each tuple of the relation, and they are read back from their lines. -/
  lines : ∃ lines, lines.length = (table.project .empty).count relation ∧
    relation.Lists ((table.project .empty).tuples relation) text lines
  /-- No tuple is in it twice, and they are in order. -/
  increasing : ((table.project .empty).tuples relation).Pairwise fun first second =>
    first.compare second = .lt
  /-- They are what the table states. -/
  exact : ∀ tuple, tuple ∈ (table.project .empty).tuples relation ↔ table.States ⟨relation, tuple⟩

theorem fills_fileText (table : Table) (relation : Relation) :
    table.Fills relation ((table.project .empty).fileText relation) where
  lines := by
    refine ⟨_, ?_, FactStore.lists_fileText
      (fun fact hfact => (states_iff_mem_project.mpr hfact).listable) relation⟩
    rw [List.length_map]
    rfl
  increasing := (project_empty_ascending table).tuples relation
  exact := by
    intro tuple
    rw [FactStore.mem_tuples, states_iff_mem_project]

/-- A file holds what one table states, and no other. -/
theorem Fills.states_iff {table other : Table} {relation : Relation} {text : String} {tuple : Tuple}
    (h : table.Fills relation text) (hother : other.Fills relation text) :
    other.States ⟨relation, tuple⟩ ↔ table.States ⟨relation, tuple⟩ := by
  obtain ⟨lines, -, hlines⟩ := h.lines
  obtain ⟨lines', -, hlines'⟩ := hother.lines
  rw [← h.exact, ← hother.exact, hlines.unique hlines']

variable {σ : Type} {text? : σ → String → Option String}

/-- **The files that are written for a table determine its facts.** They are written unless the file
system fails. Where it stores what is written, each of the files holds what the table states in its
relation, and tables for which the same files are written state the same facts. -/
theorem writeFacts_determines (files : FileSystem (StateM σ)) {directory : String}
    (hstores : files.Stores text? directory) (table : Table) (state : σ) :
    (∃ fault notes after, (files.writeFacts directory (table.project .empty)).run state =
        ((.error fault, notes), after) ∧ files.Fails directory fault) ∨
    ∃ notes after, (files.writeFacts directory (table.project .empty)).run state =
        ((.ok (), notes), after) ∧
      (∀ relation : Relation, ∃ text, text? after (relation.path directory) = some text ∧
        table.Fills relation text) ∧
      ∀ (other : Table) (directory' : String) (state' after' : σ) (notes' : Journal),
        files.Stores text? directory' →
        (files.writeFacts directory' (other.project .empty)).run state' =
          ((.ok (), notes'), after') →
        (∀ relation : Relation,
          text? after' (relation.path directory') = text? after (relation.path directory)) →
        ∀ fact, other.States fact ↔ table.States fact := by
  refine (hstores.writeFacts_cases (table.project .empty) state).imp_right ?_
  rintro ⟨notes, after, hwritten, htexts⟩
  refine ⟨notes, after, hwritten, fun relation => ?_, ?_⟩
  · exact ⟨_, htexts relation, table.fills_fileText relation⟩
  · intro other directory' state' after' notes' hstores' hother hsame fact
    have htext := hsame fact.relation
    rw [htexts, hstores'.text_of_writeFacts hother, Option.some.injEq] at htext
    have hfills := other.fills_fileText fact.relation
    rw [htext] at hfills
    exact (table.fills_fileText fact.relation).states_iff hfills

/-- The files of a CIE with a personality routine and an FDE with language-specific data, in a new
directory. -/
theorem writeFacts_handlerTable :
    FileTree.fileSystem.Stores FileTree.text? "facts" ∧
      ∃ notes after, (FileTree.fileSystem.writeFacts "facts" (handlerTable.project .empty)).run
          ⟨[], [], []⟩ = ((.ok (), notes), after) ∧
        ∀ relation : Relation, ∃ text, after.text? (relation.path "facts") = some text ∧
          handlerTable.Fills relation text := by
  have hok : ((FileTree.fileSystem.writeFacts "facts" (handlerTable.project .empty)).run
      ⟨[], [], []⟩).1.1 = .ok () := by decide +kernel
  refine ⟨FileTree.stores "facts", ?_⟩
  rcases writeFacts_determines FileTree.fileSystem (FileTree.stores "facts") handlerTable
    ⟨[], [], []⟩ with ⟨fault, notes, after, hrun, -⟩ | ⟨notes, after, hrun, hfills, -⟩
  · rw [hrun] at hok
    cases hok
  · exact ⟨notes, after, hrun, hfills⟩

end Table

end UnwindTables
