/-
UnwindTables.Proofs.Cli.StorageTheorems — the files of facts are there after they have been written.

What the tools do with files, they do through a `FileSystem`, and all that can be said about their files
rests on what that does. `FileSystem.Stores` is what is needed: a file has the text that was written to
it, and writing one of the files changes no other one. Then the files of a set of facts are all there
once they have been written, and they are written unless the file system itself fails
(`FileSystem.Stores.writeFacts_cases`).

A `FileTree` is such a file system, in every directory (`FileTree.stores`).

## How the proof goes

Files are written one after the other, so the first part is an induction on the files. A tree is changed
by a file where the path of the file leads to, and paths lead through directories, which stay where they
are; so every path leads to the same place afterwards (`FileTree.walk_put`). The paths of two files in
one directory have the same names but for the last one (`Path.exists_names_join`), and so they lead to
different places.
-/
import UnwindTables.Cli.FileTree

namespace UnwindTables

/-- The path of the file of a relation. -/
def Relation.path (directory : String) (relation : Relation) : String :=
  Path.join directory relation.fileName

/-! ## 1. Writing the files of facts -/

namespace FileSystem

variable {σ : Type} {files : FileSystem (StateM σ)} {text? : σ → String → Option String}
  {directory : String} {state after : σ} {notes : Journal}

/-- Files of facts hold what has been written to them, where `text?` is the text at a path. -/
structure Stores (files : FileSystem (StateM σ)) (text? : σ → String → Option String)
    (directory : String) : Prop where
  /-- A file that has been written has its text. -/
  written : ∀ (relation : Relation) (text : String) (state after : σ),
    (files.write (relation.path directory) text).run state = (.ok (), after) →
      text? after (relation.path directory) = some text
  /-- The files of other relations have the text that they had. -/
  others : ∀ relation other : Relation, other ≠ relation → ∀ (text : String) (state after : σ),
    (files.write (relation.path directory) text).run state = (.ok (), after) →
      text? after (other.path directory) = text? state (other.path directory)

/-- What a file system cannot do, of what is needed to write files of facts into a directory. -/
inductive Fails (files : FileSystem (StateM σ)) (directory : String) (fault : FileFault) : Prop
  /-- It cannot make the directory. -/
  | unmade {state after : σ} :
      (files.createDirectories directory).run state = (.error fault, after) →
      Fails files directory fault
  /-- It cannot write one of the files. -/
  | unwritten (relation : Relation) (text : String) {state after : σ} :
      (files.write (relation.path directory) text).run state = (.error fault, after) →
      Fails files directory fault

/-- Files are written one after the other, up to the first that cannot be written. -/
theorem writeFiles_cons_cases (directory : String) (file : FactFile) (rest : List FactFile)
    (state : σ) :
    (∃ fault after, (files.write (file.relation.path directory) file.text).run state =
        (.error fault, after) ∧
      (files.writeFiles directory (file :: rest)).run state = ((.error fault, []), after)) ∨
    ∃ between result notes after, (files.write (file.relation.path directory) file.text).run state =
        (.ok (), between) ∧
      (files.writeFiles directory rest).run between = ((result, notes), after) ∧
      (files.writeFiles directory (file :: rest)).run state = ((result,
        .factsWritten file.count (file.relation.path directory) :: notes), after) := by
  rw [writeFiles, StateT.run_bind]
  rcases hwrite : (files.write (Path.join directory file.relation.fileName) file.text).run state with
    ⟨result, between⟩
  cases result with
  | error fault => exact Or.inl ⟨fault, between, hwrite, rfl⟩
  | ok _ =>
      rcases hrest : (files.writeFiles directory rest).run between with ⟨⟨result, notes⟩, after⟩
      refine Or.inr ⟨between, result, notes, after, hwrite, hrest, ?_⟩
      change ((files.writeFiles directory rest >>= fun written => pure (written.1,
        Note.factsWritten file.count (file.relation.path directory) :: written.2)) : StateM σ _).run
          between = _
      rw [StateT.run_bind, hrest]
      rfl

/-- Files that have been written without a failure were written one after the other. -/
theorem ok_of_writeFiles {file : FactFile} {rest : List FactFile}
    (h : (files.writeFiles directory (file :: rest)).run state = ((.ok (), notes), after)) :
    ∃ between notes', (files.write (file.relation.path directory) file.text).run state =
        (.ok (), between) ∧
      (files.writeFiles directory rest).run between = ((.ok (), notes'), after) := by
  rcases files.writeFiles_cons_cases directory file rest state with
    ⟨fault, _, -, hrun⟩ | ⟨between, result, notes', _, hfirst, hrest, hrun⟩
  · rw [hrun] at h
    cases h
  · rw [hrun] at h
    cases h
    exact ⟨between, notes', hfirst, hrest⟩

/-- Writing files fails only where the file system does. -/
theorem fails_of_writeFiles {list : List FactFile} {fault : FileFault}
    (h : (files.writeFiles directory list).run state = ((.error fault, notes), after)) :
    files.Fails directory fault := by
  induction list generalizing state notes with
  | nil => cases h
  | cons file rest ih =>
      rcases files.writeFiles_cons_cases directory file rest state with
        ⟨found, _, hfirst, hrun⟩ | ⟨between, result, notes', _, -, hrest, hrun⟩
      · rw [hrun] at h
        cases h
        exact .unwritten file.relation file.text hfirst
      · rw [hrun] at h
        cases h
        exact ih hrest

/-- **Files of different relations that are written without a failure hold their texts afterwards**, and
the files of other relations hold what they held before. -/
theorem Stores.writeFiles (h : files.Stores text? directory) {list : List FactFile}
    (hdistinct : (list.map FactFile.relation).Nodup)
    (hwritten : (files.writeFiles directory list).run state = ((.ok (), notes), after)) :
    (∀ file ∈ list, text? after (file.relation.path directory) = some file.text) ∧
      ∀ relation ∉ list.map FactFile.relation,
        text? after (relation.path directory) = text? state (relation.path directory) := by
  induction list generalizing state notes with
  | nil =>
      cases hwritten
      exact ⟨fun file hfile => absurd hfile List.not_mem_nil, fun _ _ => rfl⟩
  | cons file rest ih =>
      obtain ⟨between, notes', hfirst, hrest⟩ := ok_of_writeFiles hwritten
      obtain ⟨hfresh, hdistinct⟩ := List.nodup_cons.mp hdistinct
      obtain ⟨htexts, hothers⟩ := ih hdistinct hrest
      refine ⟨fun found hfound => ?_, fun relation hrelation => ?_⟩
      · rcases List.mem_cons.mp hfound with rfl | hfound
        · rw [hothers _ hfresh]
          exact h.written _ _ _ _ hfirst
        · exact htexts found hfound
      · rw [List.map_cons, List.mem_cons, not_or] at hrelation
        rw [hothers relation hrelation.2]
        exact h.others _ _ hrelation.1 _ _ _ hfirst

/-- **A set of facts is written unless the file system fails**, and its files hold its facts
afterwards. -/
theorem Stores.writeFacts_cases (h : files.Stores text? directory) (store : FactStore) (state : σ) :
    (∃ fault notes after, (files.writeFacts directory store).run state =
        ((.error fault, notes), after) ∧ files.Fails directory fault) ∨
    ∃ notes after, (files.writeFacts directory store).run state = ((.ok (), notes), after) ∧
      ∀ relation : Relation,
        text? after (relation.path directory) = some (store.fileText relation) := by
  rw [writeFacts, StateT.run_bind]
  rcases hcreated : (files.createDirectories directory).run state with ⟨result, between⟩
  cases result with
  | error fault => exact Or.inl ⟨fault, [], between, rfl, .unmade hcreated⟩
  | ok _ =>
      rcases hwritten : (files.writeFiles directory store.files).run between with
        ⟨⟨result, notes⟩, after⟩
      cases result with
      | error fault => exact Or.inl ⟨fault, notes, after, hwritten, fails_of_writeFiles hwritten⟩
      | ok _ =>
          refine Or.inr ⟨notes, after, hwritten, fun relation => ?_⟩
          have hrelations : store.files.map FactFile.relation = Relation.all := rfl
          obtain ⟨htexts, -⟩ := h.writeFiles (by rw [hrelations]; decide) hwritten
          refine htexts ⟨relation, store.fileText relation, store.count relation⟩ ?_
          refine List.mem_map.mpr ⟨relation, ?_, rfl⟩
          exact List.mem_of_getElem? relation.all_getElem?_position

/-- The files of a set of facts that is written without a failure hold its facts afterwards. -/
theorem Stores.text_of_writeFacts (h : files.Stores text? directory) {store : FactStore}
    (hwritten : (files.writeFacts directory store).run state = ((.ok (), notes), after))
    (relation : Relation) :
    text? after (relation.path directory) = some (store.fileText relation) := by
  rcases h.writeFacts_cases store state with ⟨fault, _, _, hrun, -⟩ | ⟨_, _, hrun, htexts⟩
  · rw [hrun] at hwritten
    cases hwritten
  · rw [hrun] at hwritten
    cases hwritten
    exact htexts relation

end FileSystem

/-! ## 2. The paths of files in one directory -/

theorem Relation.fileName_injective : Function.Injective fileName := by
  intro relation other h
  cases relation <;> cases other <;> first | rfl | exact absurd h (by decide)

/-- The name of a file of facts is one name and leads somewhere. -/
theorem Relation.fileName_plain (relation : Relation) :
    '/' ∉ relation.fileName.toList ∧ relation.fileName ≠ "" ∧ relation.fileName ≠ "." ∧
      relation.fileName ≠ ".." := by
  cases relation <;> decide

namespace Path

/-- The path of a file in a directory is the name of the file after nothing, or after a slash. -/
theorem join_cases (directory : String) :
    (∀ file, join directory file = file) ∨
      ∃ front, ∀ file, join directory file = front ++ String.singleton '/' ++ file := by
  by_cases hempty : directory = ""
  · refine Or.inl fun file => ?_
    rw [join, if_pos (Or.inl hempty), hempty, String.empty_append]
  · by_cases hslash : directory.toList.getLast? = some '/'
    · obtain ⟨front, hfront⟩ := List.getLast?_eq_some_iff.mp hslash
      refine Or.inr ⟨String.ofList front, fun file => ?_⟩
      have hdirectory : directory = String.ofList front ++ String.singleton '/' := by
        rw [← String.toList_inj]
        simp [hfront]
      rw [join, if_pos (Or.inr hslash), ← hdirectory]
    · exact Or.inr ⟨directory, fun file => by rw [join, if_neg (not_or.mpr ⟨hempty, hslash⟩)]; rfl⟩

/-- The last of its names is that of the file. -/
theorem exists_names_join (directory : String) {file : String} (h : '/' ∉ file.toList) :
    ∃ start, names (join directory file) = start ++ [file] := by
  rcases join_cases directory with hjoin | ⟨front, hjoin⟩
  · refine ⟨[], ?_⟩
    rw [hjoin, names, Text.pieces_of_not_mem h, List.nil_append]
  · refine ⟨Text.pieces '/' front, ?_⟩
    rw [hjoin, names, Text.pieces_append, Text.pieces_of_not_mem h]

end Path

/-! ## 3. Trees -/

namespace FileTree

variable {tree : FileTree} {place other found : Place} {contents : FileContents} {path : String}

/-- The text of the file at a path. -/
def text? (tree : FileTree) (path : String) : Option String :=
  match tree.locate path with
  | .error _ => none
  | .ok place =>
    match tree.node? place with
    | some (.file (.text text)) => some text
    | _ => none

/-- Looking up a place after a file has been put somewhere. -/
theorem lookup_put (files : List (Place × FileContents)) :
    (files.filter (·.1 ≠ place) ++ [(place, contents)]).lookup other =
      if other = place then some contents else files.lookup other := by
  induction files with
  | nil =>
      rw [List.filter_nil, List.nil_append, List.lookup_cons, List.lookup_nil]
      by_cases hother : other = place
      · rw [beq_iff_eq.mpr hother, if_pos hother]
      · rw [beq_eq_false_iff_ne.mpr hother, if_neg hother]
  | cons file files ih =>
      obtain ⟨first, held⟩ := file
      by_cases hfirst : first = place
      · rw [List.filter_cons_of_neg (by simpa using hfirst), ih, List.lookup_cons]
        split
        · rfl
        · next hother => rw [beq_eq_false_iff_ne.mpr (hfirst ▸ hother)]
      · rw [List.filter_cons_of_pos (by simpa using hfirst), List.cons_append, List.lookup_cons, ih,
          List.lookup_cons]
        by_cases hother : other = first
        · subst hother
          rw [beq_self_eq_true]
          exact (if_neg hfirst).symm
        · rw [beq_eq_false_iff_ne.mpr hother]

theorem node?_eq_directory_iff : tree.node? place = some .directory ↔
    place.isPrefixOf tree.origin ∨ place ∈ tree.directories := by
  unfold node?
  split
  · next hdirectory => exact iff_of_true rfl hdirectory
  · next hfile =>
      refine iff_of_false ?_ hfile
      cases tree.files.lookup place <;> simp

/-- Directories stay where they are. -/
theorem node?_put_eq_directory_iff :
    (tree.put place contents).node? other = some .directory ↔ tree.node? other = some .directory := by
  rw [node?_eq_directory_iff, node?_eq_directory_iff]
  rfl

theorem node?_put_of_ne (h : other ≠ place) :
    (tree.put place contents).node? other = tree.node? other := by
  simp only [node?, put, lookup_put, if_neg h]

theorem node?_put_self (h : tree.node? place ≠ some .directory) :
    (tree.put place contents).node? place = some (.file contents) := by
  have hfile : (tree.put place contents).node? place ≠ some .directory :=
    mt node?_put_eq_directory_iff.mp h
  rw [ne_eq, node?_eq_directory_iff] at hfile
  rw [node?, if_neg hfile, put, lookup_put, if_pos rfl]
  rfl

/-- One name leads from a directory to a place, and the other names from there. -/
theorem walk_cons_eq_ok_iff {name : String} {names : List String} :
    tree.walk place (name :: names) = .ok found ↔
      tree.node? place = some .directory ∧
        (if name = "" ∨ name = "." then tree.walk place names
          else if name = ".." then tree.walk place.dropLast names
          else if Path.maxNameSize < name.utf8ByteSize then .error .nameTooLong
          else tree.walk (place ++ [name]) names) = .ok found := by
  rw [walk]
  cases tree.node? place with
  | none => simp
  | some node => cases node <;> simp

/-- **A path leads to the same place after a file has been put somewhere.** -/
theorem walk_put {names : List String} {start : Place} :
    (tree.put place contents).walk start names = .ok found ↔ tree.walk start names = .ok found := by
  induction names generalizing start with
  | nil => rfl
  | cons name names ih =>
      rw [walk_cons_eq_ok_iff, walk_cons_eq_ok_iff, node?_put_eq_directory_iff]
      split
      · rw [ih]
      · split
        · rw [ih]
        · split
          · rfl
          · rw [ih]

theorem locate_put : (tree.put place contents).locate path = .ok found ↔
    tree.locate path = .ok found := by
  unfold locate follow
  split
  · rfl
  · split
    · rfl
    · exact walk_put

/-- Names that end in the name of a file lead to a place with that name. -/
theorem exists_of_walk_append {names : List String} {name : String} {start : Place}
    (hempty : name ≠ "") (hdot : name ≠ ".") (hdots : name ≠ "..")
    (h : tree.walk start (names ++ [name]) = .ok found) : ∃ base, found = base ++ [name] := by
  induction names generalizing start with
  | nil =>
      obtain ⟨-, h⟩ := walk_cons_eq_ok_iff.mp h
      rw [if_neg (not_or.mpr ⟨hempty, hdot⟩), if_neg hdots] at h
      split at h
      · cases h
      · exact ⟨start, (Except.ok.inj h).symm⟩
  | cons first names ih =>
      obtain ⟨-, h⟩ := walk_cons_eq_ok_iff.mp h
      split at h
      · exact ih h
      · split at h
        · exact ih h
        · split at h
          · cases h
          · exact ih h

/-- The path of a file of facts leads to a place with the name of the file. -/
theorem exists_of_locate_path {relation : Relation} {directory : String}
    (h : tree.locate (relation.path directory) = .ok found) :
    ∃ base, found = base ++ [relation.fileName] := by
  obtain ⟨hslash, hempty, hdot, hdots⟩ := relation.fileName_plain
  obtain ⟨start, hnames⟩ := Path.exists_names_join directory hslash
  unfold locate follow at h
  rw [Relation.path, hnames] at h
  split at h
  · cases h
  · split at h
    · cases h
    · exact exists_of_walk_append hempty hdot hdots h

/-- A file that could be written is where its path leads, in place of a file or of nothing. -/
theorem ok_of_write {text : String} {after : FileTree}
    (h : (fileSystem.write path text).run tree = (.ok (), after)) :
    ∃ place, tree.locate path = .ok place ∧ tree.node? place ≠ some .directory ∧
      after = tree.put place (.text text) := by
  change change (fun tree => tree.write path text) tree = (.ok (), after) at h
  unfold change write at h
  cases hlocate : tree.locate path with
  | error fault =>
      simp only [hlocate] at h
      cases h
  | ok place =>
      simp only [hlocate] at h
      refine ⟨place, rfl, ?_⟩
      split at h
      · next hchanged =>
          split at hchanged
          · cases hchanged
          · next hnode =>
              cases hchanged
              cases h
              exact ⟨hnode, rfl⟩
      · cases h

/-- **A tree stores the files of facts that are written to it**, whatever the directory. -/
theorem stores (directory : String) : fileSystem.Stores text? directory where
  written := by
    intro relation text state after h
    obtain ⟨place, hlocate, hnode, rfl⟩ := ok_of_write h
    simp only [text?, locate_put.mpr hlocate, node?_put_self hnode]
  others := by
    intro relation other hother text state after h
    obtain ⟨place, hlocate, -, rfl⟩ := ok_of_write h
    obtain ⟨base, rfl⟩ := exists_of_locate_path hlocate
    unfold text?
    cases helse : state.locate (other.path directory) with
    | ok found =>
        obtain ⟨base', rfl⟩ := exists_of_locate_path helse
        have hne : base' ++ [other.fileName] ≠ base ++ [relation.fileName] := by
          intro hsame
          have hname := List.append_inj_right' hsame rfl
          exact hother (Relation.fileName_injective (List.singleton_inj.mp hname))
        simp only [locate_put.mpr helse, node?_put_of_ne hne]
    | error fault =>
        cases hafter : (state.put (base ++ [relation.fileName]) (.text text)).locate
            (other.path directory) with
        | error fault => rfl
        | ok found =>
            rw [locate_put, helse] at hafter
            cases hafter

end FileTree

end UnwindTables
