/-
UnwindTables.Proofs.Table.CursorTheorems — whatever the bytes of a section are, no cursor leaves its slice.

A section is read record by record, a record by a cursor over its body, and a search table by a cursor behind its
first four bytes. `LoadedSection.cursors_sound` is about all of them together, over any section that a slice can
hold, any target and any image: the runs come to their ends, so no access was out of range and no offset left the
machine words; every cursor was where it had to be whenever it was opened or asked for a field
(`Cursor.Reads`); and the results are those of the readers of windows, which everything else is said about.

## How the proof goes

A `Scanner` is to a stream of records what a cursor is to a window, and `Scanner.Shows` is the invariant: it is kept
by each request (`Scanner.Shows.ends_next`), and so by any number of them. A record that has been found lies in the
section (`Framing.lies_of_mem`), which is all that the readers of its body need.
-/
import UnwindTables.Proofs.Record.CursorTheorems
import UnwindTables.Proofs.Record.FormatTheorems
import UnwindTables.SearchTable

namespace UnwindTables

/-! ## 1. The records of a section -/

/-- A position between the records of a section. -/
structure Scanner where
  /-- The bytes of the section. -/
  data : List UInt8
  /-- The section offset of the next record. -/
  pos : Nat
  /-- Whether the end has been met. -/
  finished : Bool
deriving DecidableEq, Repr

namespace Scanner

/-- The start of a section. -/
def ofSection (bytes : List UInt8) : Scanner := ⟨bytes, 0, false⟩

/-- The next record, or none at the end. -/
def read (order : ByteOrder) (scanner : Scanner) : Run (Except Fault (Option Record) × Scanner) := do
  if scanner.pos = scanner.data.length then
    return (.ok none, scanner)
  else
    let unread ← Run.slice scanner.data scanner.pos scanner.data.length
    let cursor ← Cursor.new unread scanner.pos
    match ← Reading.record order cursor with
    | (.ok (some record), after) =>
      let pos ← Run.add scanner.pos after.pos
      return (.ok (some record), { scanner with pos })
    | (.ok none, _) => return (.ok none, scanner)
    | (.error fault, _) => return (.error fault, scanner)

/-- The next record or the fault that ends the records. -/
def next (order : ByteOrder) (scanner : Scanner) : Run (Option (Except Fault Record) × Scanner) := do
  if scanner.finished then
    return (none, scanner)
  else
    match ← scanner.read order with
    | (.ok (some record), after) => return (some (.ok record), after)
    | (.ok none, after) => return (none, { after with finished := true })
    | (.error fault, after) => return (some (.error fault), { after with finished := true })

/-- The answers to so many requests. -/
def answers (order : ByteOrder) : (requests : Nat) → Scanner → Run (List (Option (Except Fault Record)))
  | 0, _ => return []
  | requests + 1, scanner => do
    let (answer, after) ← scanner.next order
    return answer :: (← answers order requests after)

/-- A scanner is where a stream of records is. -/
structure Shows (loaded : LoadedSection) (scanner : Scanner) (stream : RecordStream) : Prop where
  data : scanner.data = loaded.bytes
  pos_le : scanner.pos ≤ loaded.bytes.length
  order : stream.order = loaded.target.order
  rest : stream.rest = ⟨loaded.bytes.drop scanner.pos, scanner.pos⟩
  finished : stream.finished = scanner.finished

variable {loaded : LoadedSection} {scanner : Scanner} {stream : RecordStream}

theorem shows_ofSection (loaded : LoadedSection) :
    (ofSection loaded.bytes).Shows loaded (.ofSection loaded.target.order loaded.bytes) :=
  ⟨rfl, Nat.zero_le _, rfl, rfl, rfl⟩

/-- A scanner finds what the reader of records finds, and is behind it. -/
inductive Finds (loaded : LoadedSection) (scanner : Scanner) :
    Except Fault (Option Record) × Scanner → Except Fault (Option (Record × Window)) → Prop
  | record {record : Record} {rest : Window} {after : Scanner}
      (hafter : after.Shows loaded ⟨loaded.target.order, rest, scanner.finished⟩) :
      Finds loaded scanner (.ok (some record), after) (.ok (some (record, rest)))
  | none : Finds loaded scanner (.ok none, scanner) (.ok none)
  | fault {fault : Fault} : Finds loaded scanner (.error fault, scanner) (.error fault)

/-- What is left of a section is a slice of it. -/
theorem within_drop {pos : Nat} (h : pos ≤ loaded.bytes.length) :
    Cursor.Within ⟨loaded.bytes.drop pos, pos, 0⟩ loaded.bytes where
  pos_le := Nat.zero_le _
  stop_le := by
    rw [List.length_drop]
    show pos + (loaded.bytes.length - pos) ≤ loaded.bytes.length
    omega
  data_eq := (List.take_length).symm

theorem Shows.ends_read (h : scanner.Shows loaded stream) :
    (scanner.read loaded.target.order).Ends (Event.Sound loaded) fun ending =>
      scanner.Finds loaded ending (Record.read loaded.target.order stream.rest) := by
  obtain ⟨data, pos, finished⟩ := scanner
  obtain ⟨rfl, hpos, -, hrest, -⟩ := h
  dsimp only at hpos hrest
  rw [read, hrest]
  dsimp only
  by_cases hend : pos = loaded.bytes.length
  · rw [if_pos hend, Record.read, if_pos (by simp [Window.size, hend])]
    exact Run.Ends.pure .none
  · have hcursor := within_drop hpos
    have hsome : (Cursor.window ⟨loaded.bytes.drop pos, pos, 0⟩).size ≠ 0 := by
      rw [Cursor.size_window, List.length_drop]
      show loaded.bytes.length - pos - 0 ≠ 0
      omega
    rw [if_neg hend, Run.slice_eq hpos (Nat.le_refl _), List.take_length, Run.pure_bind]
    refine (Cursor.ends_new hcursor).andThen ?_
    refine Run.Ends.bind (Reading.follows_record hcursor loaded.target.order hsome) ?_
    intro ending hcomes
    have hwindow : Cursor.window ⟨loaded.bytes.drop pos, pos, 0⟩ = ⟨loaded.bytes.drop pos, pos⟩ := rfl
    rw [hwindow] at hcomes
    generalize Record.read _ _ = result at hcomes ⊢
    cases hcomes with
    | error => exact Run.Ends.pure .fault
    | @ok _ after _ hleaves =>
        cases hleaves with
        | none => exact Run.Ends.pure .none
        | some left hsame hshows =>
            obtain ⟨record, rest⟩ := left
            obtain ⟨hafter, rfl⟩ := hshows
            have hbase : after.base = pos := hsame.base
            have hplace : after.place = pos + after.pos := by rw [Cursor.place, hbase]
            have hbehind : pos + after.pos ≤ loaded.bytes.length := by
              have hinside := hafter.pos_le
              have hstop := hafter.stop_le
              omega
            have hfits := loaded.fits
            dsimp only
            rw [Run.add_eq (by omega), Run.pure_bind]
            refine Run.Ends.pure (.record ⟨rfl, hbehind, rfl, ?_, rfl⟩)
            rw [Cursor.window, hplace, hsame.data, List.drop_drop]

theorem Shows.ends_next (h : scanner.Shows loaded stream) :
    (scanner.next loaded.target.order).Ends (Event.Sound loaded) fun ending =>
      ending.1 = stream.next.1 ∧ ending.2.Shows loaded stream.next.2 := by
  have hread := h.ends_read
  obtain ⟨order, rest, finished⟩ := stream
  obtain rfl : order = loaded.target.order := h.order
  obtain rfl : finished = scanner.finished := h.finished
  rw [next, RecordStream.next]
  dsimp only
  by_cases hfinished : scanner.finished
  · rw [if_pos hfinished, if_pos hfinished]
    exact Run.Ends.pure ⟨rfl, h⟩
  · rw [if_neg hfinished, if_neg hfinished]
    refine Run.Ends.bind hread ?_
    intro ending hfinds
    dsimp only at hfinds
    generalize Record.read _ _ = result at hfinds ⊢
    cases hfinds with
    | record hafter => exact Run.Ends.pure ⟨rfl, hafter⟩
    | none => exact Run.Ends.pure ⟨rfl, h.data, h.pos_le, rfl, h.rest, rfl⟩
    | fault => exact Run.Ends.pure ⟨rfl, h.data, h.pos_le, rfl, h.rest, rfl⟩

theorem Shows.ends_answers (h : scanner.Shows loaded stream) (requests : Nat) :
    (answers loaded.target.order requests scanner).Ends (Event.Sound loaded)
      (· = (List.range requests).map fun request => (stream.skip request).next.1) := by
  induction requests generalizing scanner stream with
  | zero => exact Run.Ends.pure rfl
  | succ requests ih =>
      refine Run.Ends.bind h.ends_next ?_
      intro ending hending
      obtain ⟨answer, after⟩ := ending
      obtain ⟨rfl, hafter⟩ := hending
      refine Run.Ends.andThen (ih hafter) ?_
      refine Run.Ends.pure ?_
      rw [List.range_succ_eq_map, List.map_cons, List.map_map]
      rfl

end Scanner

/-! ## 2. The entries of a table -/

/-- The records of a section lie in it. -/
theorem Framing.lies_of_mem {loaded : LoadedSection} {order : ByteOrder} {record : Record}
    (h : record ∈ (ofSection order loaded.bytes).records) : Reading.Lies loaded record where
  stop_le := (body_eq_of_mem h).1
  body := by
    obtain ⟨hstop, hbody⟩ := body_eq_of_mem h
    have hbehind : record.body.offset + record.body.bytes.length = record.stop :=
      (framed_of_mem h).bodyStop
    have hlength : record.stop - record.body.offset = record.body.bytes.length := by omega
    rw [hlength] at hbody
    exact ⟨Nat.zero_le _, Nat.le_trans (Nat.le_of_eq hbehind) hstop, hbody⟩

namespace Reading

/-- What the body of a record is read as. -/
def ofBody {α : Type} (record : Record) (reading : Reading α) : Run (Except Fault α) := do
  let cursor ← Cursor.new record.body.bytes record.body.offset
  return (← reading cursor).1

/-- The entry of a record. -/
def entry (target : Target) (image : Option Image) (seen : List Cie) (record : Record) : Run Entry :=
  match record.kind with
  | .cie => do
    match ← ofBody record (cie target record) with
    | .ok (c, ending) => return .cie c ending
    | .error fault => return .dropped record.offset fault.withinRecord
  | .fde owner =>
    match seen.find? fun c => c.offset == owner with
    | none => return .dropped record.offset (.danglingReference record.offset owner)
    | some c => do
      match ← ofBody record (fde target image c record) with
      | .ok (f, problem) => return .fde f problem
      | .error fault => return .dropped record.offset fault.withinRecord

/-- The entries after so many turns: each turn asks for a record, and reads it. -/
def entries (target : Target) (image : Option Image) :
    (turns : Nat) → Scanner → List Cie → Run (List Entry)
  | 0, _, _ => return []
  | turns + 1, scanner, seen => do
    match ← scanner.next target.order with
    | (some (.ok record), after) =>
      let entry ← entry target image seen record
      return entry :: (← entries target image turns after (entry.cie?.toList ++ seen))
    | (_, _) => return []

variable {loaded : LoadedSection} {cursor : Cursor}

/-- The value of a reading by a cursor of its own. -/
theorem ends_value {α : Type} {reading : Reading α} {result : Except Fault α}
    (h : reading.Yields loaded cursor result) :
    ((do return (← reading cursor).1) : Run (Except Fault α)).Ends (Event.Sound loaded) (· = result) := by
  refine Run.Ends.bind h ?_
  intro ending hcomes
  cases hcomes with
  | ok hfound => exact Run.Ends.pure (by rw [hfound])
  | error => exact Run.Ends.pure rfl

theorem ends_ofBody {α : Type} {record : Record} {reading : Reading α} {result : Except Fault α}
    (hrecord : Lies loaded record)
    (h : ∀ cursor : Cursor, cursor.Shows loaded record.body →
      reading.Yields loaded cursor result) :
    (ofBody record reading).Ends (Event.Sound loaded) (· = result) := by
  refine Run.Ends.andThen (Cursor.ends_new hrecord.body) ?_
  exact ends_value (h _ ⟨hrecord.body, rfl⟩)

theorem ends_entry {record : Record} (hrecord : Lies loaded record) (image : Option Image)
    (seen : List Cie) :
    (entry loaded.target image seen record).Ends (Event.Sound loaded)
      (· = Entry.read loaded.target image seen record) := by
  rw [entry, Entry.read]
  cases record.kind with
  | cie =>
      refine Run.Ends.andThen (ends_ofBody hrecord fun _ => follows_cie hrecord) ?_
      cases Cie.read loaded.target record <;> exact Run.Ends.pure rfl
  | fde owner =>
      dsimp only
      cases seen.find? fun c => c.offset == owner with
      | none => exact Run.Ends.pure rfl
      | some c =>
          refine Run.Ends.andThen
            (ends_ofBody hrecord fun _ hcursor => follows_fde hrecord hcursor image c) ?_
          dsimp only
          cases Fde.read loaded.target image c record <;> exact Run.Ends.pure rfl

theorem ends_entries {scanner : Scanner} {stream : RecordStream} (h : scanner.Shows loaded stream)
    (hrecords : ∀ record ∈ stream.drain.records, Lies loaded record) (image : Option Image)
    (seen : List Cie) (turns : Nat) :
    (entries loaded.target image turns scanner seen).Ends (Event.Sound loaded)
      (· = Entry.readAll loaded.target image seen (stream.drain.records.take turns)) := by
  induction turns generalizing scanner stream seen with
  | zero => exact Run.Ends.pure rfl
  | succ turns ih =>
      refine Run.Ends.bind h.ends_next ?_
      intro ending hending
      obtain ⟨answer, after⟩ := ending
      obtain ⟨rfl, hafter⟩ := hending
      rw [RecordStream.drain_eq] at hrecords ⊢
      generalize stream.next = answered at hafter hrecords ⊢
      obtain ⟨_ | fault | record, stream⟩ := answered
      · exact Run.Ends.pure rfl
      · exact Run.Ends.pure rfl
      · obtain ⟨hrecord, hlater⟩ := List.forall_mem_cons.mp hrecords
        refine Run.Ends.andThen (ends_entry hrecord image seen) ?_
        refine Run.Ends.andThen (ih hafter hlater _) ?_
        exact Run.Ends.pure rfl

/-! ## 3. Search tables -/

/-- So many entries of a search table. -/
def searchEntries (target : Target) (encoding : PointerEncoding) : Nat → Reading (List SearchEntry)
  | 0 => pure []
  | count + 1 => do
    let initialLocation ← pointer target encoding none
    let fdeAddress ← pointer target encoding none
    let entries ← searchEntries target encoding count
    return ⟨initialLocation.address, fdeAddress.address⟩ :: entries

/-- The entries with their count in front. -/
def countedEntries (target : Target) (countByte entryByte : UInt8) : Reading (List SearchEntry) :=
  if countByte = PointerEncoding.omitted ∨ entryByte = PointerEncoding.omitted then
    pure []
  else do
    let countEncoding ← ofExcept (PointerEncoding.decodePresent countByte)
    let count ← pointer target countEncoding none
    let entryEncoding ← ofExcept (PointerEncoding.decodePresent entryByte)
    searchEntries target entryEncoding count.address.toNat

/-- What follows the first four bytes of a search table. -/
def searchBody (target : Target) (version pointerByte countByte entryByte : UInt8) :
    Reading SearchTable := do
  let pointerEncoding ← ofExcept (PointerEncoding.decodePresent pointerByte)
  let ehFramePointer ← pointer target pointerEncoding none
  let entries ← countedEntries target countByte entryByte
  return ⟨version, ehFramePointer, entries⟩

/-- A search table. -/
def searchTable (target : Target) (bytes : List UInt8) : Run (Except Fault SearchTable) :=
  match bytes with
  | version :: pointerByte :: countByte :: entryByte :: _ =>
    if version = 1 then do
      let cursor ← Cursor.new (← Run.slice bytes 4 bytes.length) 4
      return (← searchBody target version pointerByte countByte entryByte cursor).1
    else
      return .error (.unsupportedHeaderVersion version)
  | _ => return .error (.malformed 0 .unexpectedEnd)

theorem follows_searchEntries (hcursor : cursor.Within loaded.bytes) (encoding : PointerEncoding)
    (count : Nat) :
    (searchEntries loaded.target encoding count).Yields loaded cursor
      (SearchTable.readEntries loaded.target encoding count cursor.window) := by
  induction count generalizing cursor with
  | zero => exact follows_pure rfl
  | succ count ih =>
      refine (gives_pointer hcursor encoding none).andThen ?_
      intro initialLocation after hafter _
      refine (gives_pointer hafter encoding none).andThen ?_
      intro fdeAddress after hafter _
      refine (ih hafter).andThen ?_
      intro entries after
      exact follows_pure rfl

theorem follows_countedEntries (hcursor : cursor.Within loaded.bytes) (countByte entryByte : UInt8) :
    (countedEntries loaded.target countByte entryByte).Yields loaded cursor
      (SearchTable.readCounted loaded.target countByte entryByte cursor.window) := by
  rw [countedEntries, SearchTable.readCounted]
  split
  · exact follows_pure rfl
  · refine follows_ofExcept_bind _ ?_
    intro countEncoding
    refine (gives_pointer hcursor countEncoding none).andThen ?_
    intro count after hafter _
    refine follows_ofExcept_bind _ ?_
    intro entryEncoding
    exact follows_searchEntries hafter entryEncoding _

theorem follows_searchBody (hcursor : cursor.Within loaded.bytes)
    (version pointerByte countByte entryByte : UInt8) :
    (searchBody loaded.target version pointerByte countByte entryByte).Yields loaded cursor
      (do
        let pointerEncoding ← PointerEncoding.decodePresent pointerByte
        let (ehFramePointer, rest) ← cursor.window.pointer loaded.target pointerEncoding none
        let entries ← SearchTable.readCounted loaded.target countByte entryByte rest
        return ⟨version, ehFramePointer, entries⟩) := by
  refine follows_ofExcept_bind _ ?_
  intro pointerEncoding
  refine (gives_pointer hcursor pointerEncoding none).andThen ?_
  intro ehFramePointer after hafter _
  refine (follows_countedEntries hafter countByte entryByte).andThen ?_
  intro entries after
  exact follows_pure rfl

theorem ends_searchTable (loaded : LoadedSection) (address : UInt64)
    (hbases : loaded.target.bases = Bases.ofSearchTable address) :
    (searchTable loaded.target loaded.bytes).Ends (Event.Sound loaded)
      (· = SearchTable.parse loaded.target.order loaded.target.addressSize address loaded.bytes) := by
  have htarget : loaded.target =
      ⟨loaded.target.order, loaded.target.addressSize, Bases.ofSearchTable address⟩ := by
    rw [← hbases]
  rcases hbytes : loaded.bytes with _ | ⟨version, _ | ⟨pointerByte, _ | ⟨countByte, _ | ⟨entryByte, rest⟩⟩⟩⟩
  case cons.cons.cons.cons =>
    have hcursor := Scanner.within_drop (show 4 ≤ loaded.bytes.length by simp [hbytes])
    have hrest : loaded.bytes.drop 4 = rest := by rw [hbytes]; rfl
    rw [hrest] at hcursor
    rw [searchTable, SearchTable.parse, ← htarget]
    by_cases hversion : version = 1
    · rw [if_pos hversion, if_pos hversion, Run.slice_eq (by simp) (Nat.le_refl _), List.take_length,
        Run.pure_bind]
      refine Run.Ends.andThen (Cursor.ends_new hcursor) ?_
      exact ends_value (follows_searchBody hcursor version pointerByte countByte entryByte)
    · rw [if_neg hversion, if_neg hversion]
      exact Run.Ends.pure rfl
  all_goals exact Run.Ends.pure rfl

end Reading

/-! ## 4. The cursors of a section -/

/-- The same bytes as a search table that is loaded at an address. -/
def LoadedSection.asSearchTable (loaded : LoadedSection) (address : UInt64) : LoadedSection :=
  { loaded with target := { loaded.target with bases := Bases.ofSearchTable address } }

/-- **No cursor leaves its slice, whatever the bytes are.** Any number of records can be asked for, and a table can
be read for any number of turns, as can a search table: no run traps, every cursor is where it has to be when it is
opened or asked for a field, and the results are those of the readers of windows. -/
theorem LoadedSection.cursors_sound (loaded : LoadedSection) (image : Option Image) :
    (∀ requests, (Scanner.answers loaded.target.order requests (.ofSection loaded.bytes)).Ends
      (Event.Sound loaded)
      (· = (List.range requests).map fun request =>
        ((RecordStream.ofSection loaded.target.order loaded.bytes).skip request).next.1)) ∧
    (∀ turns, (Reading.entries loaded.target image turns (.ofSection loaded.bytes) []).Ends
      (Event.Sound loaded)
      (· = Entry.readAll loaded.target image []
        ((Framing.ofSection loaded.target.order loaded.bytes).records.take turns))) ∧
    ∀ address, (Reading.searchTable (loaded.asSearchTable address).target loaded.bytes).Ends
      (Event.Sound (loaded.asSearchTable address))
      (· = SearchTable.parse loaded.target.order loaded.target.addressSize address loaded.bytes) := by
  refine ⟨?_, ?_, ?_⟩
  · exact (Scanner.shows_ofSection loaded).ends_answers
  · exact Reading.ends_entries (Scanner.shows_ofSection loaded) (fun _ => Framing.lies_of_mem) image []
  · intro address
    exact Reading.ends_searchTable (loaded.asSearchTable address) address rfl

/-- A CIE, and a record that ends before its length says. -/
def tornSection : LoadedSection where
  bytes := [12, 0, 0, 0, 0, 0, 0, 0, 1, 0, 1, 0x78, 0x10, 0, 0, 0, 8, 0, 0, 0, 0]
  fits := by decide
  target := ⟨.little, .eight, ⟨0x1000, none, none, none⟩⟩

/-- The record of the CIE. -/
def tornRecord : Record :=
  ⟨0, .dwarf32, 12, .cie, ⟨[1, 0, 1, 0x78, 0x10, 0, 0, 0], 8⟩⟩

/-- The CIE as it is read. -/
def tornCie : Cie where
  offset := 0
  format := .dwarf32
  length := 12
  version := .one
  augmentation := []
  codeAlignment := 1
  dataAlignment := -8
  returnAddressRegister := 16
  declared := ⟨⟨false, false, false, false, false, false⟩, none, none, none, none⟩
  instructions := ⟨13, 16⟩

theorem LoadedSection.cursors_sound_tornSection :
    (Scanner.answers .little 3 (.ofSection tornSection.bytes)).Ends (Event.Sound tornSection)
      (· = [some (.ok tornRecord), some (.error (.malformed 16 .lengthOverrun)), none]) ∧
    (Reading.entries tornSection.target none 2 (.ofSection tornSection.bytes) []).Ends
      (Event.Sound tornSection) (· = [.cie tornCie .complete]) ∧
    (Reading.searchTable (tornSection.asSearchTable 0x2000).target tornSection.bytes).Ends
      (Event.Sound (tornSection.asSearchTable 0x2000)) (· = .error (.unsupportedHeaderVersion 12)) := by
  obtain ⟨hanswers, hentries, hsearch⟩ := tornSection.cursors_sound none
  have hthree : ((List.range 3).map fun request =>
      ((RecordStream.ofSection tornSection.target.order tornSection.bytes).skip request).next.1) =
        [some (.ok tornRecord), some (.error (.malformed 16 .lengthOverrun)), none] := by decide +kernel
  have htwo : Entry.readAll tornSection.target none []
      ((Framing.ofSection tornSection.target.order tornSection.bytes).records.take 2) =
        [.cie tornCie .complete] := by cbv
  have hversion : SearchTable.parse tornSection.target.order tornSection.target.addressSize 0x2000
      tornSection.bytes = .error (.unsupportedHeaderVersion 12) := by cbv
  exact ⟨hthree ▸ hanswers 3, htwo ▸ hentries 2, hversion ▸ hsearch 0x2000⟩

end UnwindTables
