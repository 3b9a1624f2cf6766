/-
UnwindTables.Proofs.SearchTable.CountTheorems — a search table has as many entries as it claims.

The count of a search table is a number of 64 bits that nothing vouches for. `SearchTable.parse_counted` says
what it is worth: a search table is read exactly if all the entries that it claims are stored behind it, each
as two pointers with no gap before it, and then it has these entries and no others. What comes after the last
entry makes no difference. Where some of the entries are missing there is a fault, and it is met soon: a
pointer takes at least one byte, so the loop over the entries is left after half as many turns as there are
bytes, and one more, however many entries are claimed.

## How the proof goes

A pointer is read off its own bytes, so it can be said where each of them is stored without following the
reader (`SearchTable.StoresAt`), and a list of entries is a chain of such places (`SearchTable.EntriesAt`).
The loop finds the chain (`SearchTable.readEntries_eq_ok_iff`); a chain is still there in front of more bytes
(`SearchTable.EntriesAt.append`). The turns of the loop are counted by a second loop that gives the same
entries (`SearchTable.readEntriesWithTurns`), and what it counts is said by the chain: a turn for each entry
in it, and one for the entry that ends it (`SearchTable.RunFrom`).
-/
import UnwindTables.Proofs.Augmentation.FieldTheorems
import UnwindTables.Proofs.Bytes.Leb128ValueTheorems
import UnwindTables.Proofs.Pointer.CompletenessTheorems
import UnwindTables.SearchTable

namespace UnwindTables

/-! ## 1. A value is read off its own bytes -/

/-- A number is the same in front of more bytes. -/
theorem ByteOrder.read?_append {order : ByteOrder} {width n : Nat} {input : List UInt8}
    (h : order.read? width input = some n) (more : List UInt8) :
    order.read? width (input ++ more) = some n := by
  simp only [read?, List.length_take] at h
  split at h
  · next hfits =>
      have hwidth : width ≤ input.length := by omega
      simp only [read?, List.take_append_of_le_length hwidth, List.length_take, if_pos hfits]
      exact h
  · cases h

theorem ValueFormat.read?_append {format : ValueFormat} {order : ByteOrder} {addressSize : AddressSize}
    {input : List UInt8} {value : UInt64} {size : Nat}
    (h : format.read? order addressSize input = some (value, size)) (more : List UInt8) :
    format.read? order addressSize (input ++ more) = some (value, size) := by
  have hinput : input ++ more = input.take size ++ (input.drop size ++ more) := by
    rw [← List.append_assoc, List.take_append_drop]
  unfold read? at h ⊢
  split at h
  · next width hwidth =>
      obtain ⟨n, hread, hvalue⟩ := Option.map_eq_some_iff.mp h
      simp only [ByteOrder.read?_append hread more, Option.map_some, hvalue]
  · next hwidth =>
      rw [hinput]
      simp only
      split at h
      · next hsigned =>
          obtain ⟨⟨number, _⟩, hread, hvalue⟩ := Option.map_eq_some_iff.mp h
          obtain ⟨rfl, rfl⟩ := Prod.mk.inj hvalue
          rw [if_pos hsigned, Leb128.readSigned_take_append hread]
          rfl
      · next hsigned => rw [if_neg hsigned, Leb128.readUnsigned_take_append h]

/-- A pointer is the same in front of more bytes. -/
theorem PointerEncoding.resolve_append {encoding : PointerEncoding} {order : ByteOrder} {site : Site}
    {input : List UInt8} {pointer : Pointer} {size : Nat}
    (h : encoding.resolve order site input = .ok (pointer, size)) (more : List UInt8) :
    encoding.resolve order site (input ++ more) = .ok (pointer, size) := by
  obtain ⟨raw, base, hread, hbase, hpointer⟩ := resolve_eq_ok_iff.mp h
  exact resolve_eq_ok_iff.mpr ⟨raw, base, ValueFormat.read?_append hread more, hbase, hpointer⟩

/-- A byte stands for an encoding where one has to be present exactly if it stands for one at all. -/
theorem PointerEncoding.decodePresent_eq_ok_iff {byte : UInt8} {encoding : PointerEncoding} :
    decodePresent byte = .ok encoding ↔ decode byte = .ok (some encoding) := by
  unfold decodePresent
  cases decode byte with
  | error fault => simp [bind, Except.bind]
  | ok decoded => cases decoded <;> simp [bind, Except.bind]

namespace SearchTable

variable {order : ByteOrder} {addressSize : AddressSize} {address : UInt64} {bytes : List UInt8}
  {encoding : PointerEncoding} {offset start stop size : Nat} {pointer count : Pointer}
  {entries : List SearchEntry} {window rest : Window}

/-! ## 2. Where pointers and entries are stored -/

/-- The site of a pointer of a search table that is loaded at an address: data starts where the search table
does, and nothing else is known but the address of the pointer itself. -/
def site (addressSize : AddressSize) (address : UInt64) (offset : Nat) : Site where
  bases := { ehFrame := address, ehFrameHdr := some address, text := none, data := some address }
  fieldAddress := address + UInt64.ofNat offset
  function := none
  addressSize := addressSize

/-- A pointer is stored at an offset of a search table, in so many bytes. -/
def StoresAt (order : ByteOrder) (addressSize : AddressSize) (address : UInt64) (bytes : List UInt8)
    (encoding : PointerEncoding) (offset : Nat) (pointer : Pointer) (size : Nat) : Prop :=
  encoding.resolve order (site addressSize address offset) (bytes.drop offset) = .ok (pointer, size)

/-- Entries are stored one after the other, from one offset of a search table to another: each is two
pointers, and every pointer starts where the one before it ends. -/
inductive EntriesAt (order : ByteOrder) (addressSize : AddressSize) (address : UInt64)
    (bytes : List UInt8) (encoding : PointerEncoding) : Nat → List SearchEntry → Nat → Prop
  | nil (offset : Nat) : EntriesAt order addressSize address bytes encoding offset [] offset
  | cons {offset stop locationSize fdeSize : Nat} {location fde : Pointer} {entries : List SearchEntry} :
      StoresAt order addressSize address bytes encoding offset location locationSize →
      StoresAt order addressSize address bytes encoding (offset + locationSize) fde fdeSize →
      EntriesAt order addressSize address bytes encoding (offset + locationSize + fdeSize) entries stop →
      EntriesAt order addressSize address bytes encoding offset
        (⟨location.address, fde.address⟩ :: entries) stop

/-- A pointer takes a byte at least, and no more than there are. -/
theorem StoresAt.bounds (h : StoresAt order addressSize address bytes encoding offset pointer size) :
    0 < size ∧ offset + size ≤ bytes.length := by
  have hsize := PointerEncoding.size_of_resolve h
  rw [List.length_drop] at hsize
  omega

theorem StoresAt.append (h : StoresAt order addressSize address bytes encoding offset pointer size)
    (more : List UInt8) :
    StoresAt order addressSize address (bytes ++ more) encoding offset pointer size := by
  have hbounds := h.bounds
  rw [StoresAt, List.drop_append_of_le_length (by omega)]
  exact PointerEncoding.resolve_append h more

/-- An entry takes two bytes at least. -/
theorem EntriesAt.bounds (h : EntriesAt order addressSize address bytes encoding offset entries stop)
    (hoffset : offset ≤ bytes.length) :
    offset + 2 * entries.length ≤ stop ∧ stop ≤ bytes.length := by
  induction h with
  | nil offset => simpa using hoffset
  | cons hlocation hfde _ ih =>
      have hlocationSize := hlocation.bounds
      have hfdeSize := hfde.bounds
      have hrest := ih hfdeSize.2
      rw [List.length_cons]
      omega

theorem EntriesAt.append (h : EntriesAt order addressSize address bytes encoding offset entries stop)
    (more : List UInt8) :
    EntriesAt order addressSize address (bytes ++ more) encoding offset entries stop := by
  induction h with
  | nil offset => exact .nil offset
  | cons hlocation hfde _ ih => exact .cons (hlocation.append more) (hfde.append more) ih

/-! ## 3. The loop over the entries -/

/-- How a search table is stored and where it is loaded. -/
def target (order : ByteOrder) (addressSize : AddressSize) (address : UInt64) : Target :=
  ⟨order, addressSize, Bases.ofSearchTable address⟩

/-- The bytes of a search table from an offset on. -/
def windowAt (bytes : List UInt8) (offset : Nat) : Window := ⟨bytes.drop offset, offset⟩

theorem drop_windowAt (bytes : List UInt8) (offset size : Nat) :
    (windowAt bytes offset).drop size = windowAt bytes (offset + size) := by
  simp [windowAt, Window.drop, List.drop_drop]

/-- The reader of a pointer finds it where it is stored. -/
theorem pointer_windowAt_eq_ok_iff :
    (windowAt bytes offset).pointer (target order addressSize address) encoding none =
        .ok (pointer, rest) ↔
      ∃ size, StoresAt order addressSize address bytes encoding offset pointer size ∧
        rest = windowAt bytes (offset + size) := by
  simp only [Window.pointer_eq_ok_iff, drop_windowAt]
  rfl

/-- One turn of the loop: the entry at the start of a window. -/
def readEntry (target : Target) (encoding : PointerEncoding) (window : Window) :
    Except Fault (SearchEntry × Window) := do
  let (initialLocation, rest) ← window.pointer target encoding none
  let (fdeAddress, rest) ← rest.pointer target encoding none
  return (⟨initialLocation.address, fdeAddress.address⟩, rest)

/-- The loop is one turn after the other, up to the first that fails. -/
theorem readEntries_succ (target : Target) (encoding : PointerEncoding) (count : Nat)
    (window : Window) :
    readEntries target encoding (count + 1) window = (do
      let (entry, rest) ← readEntry target encoding window
      let entries ← readEntries target encoding count rest
      return entry :: entries) := by
  rw [readEntries, readEntry]
  cases window.pointer target encoding none with
  | error fault => rfl
  | ok read =>
      simp only [bind, Except.bind]
      cases read.2.pointer target encoding none <;> rfl

theorem readEntry_windowAt_eq_ok_iff {entry : SearchEntry} :
    readEntry (target order addressSize address) encoding (windowAt bytes offset) =
        .ok (entry, rest) ↔
      ∃ location locationSize fde fdeSize,
        StoresAt order addressSize address bytes encoding offset location locationSize ∧
        StoresAt order addressSize address bytes encoding (offset + locationSize) fde fdeSize ∧
        entry = ⟨location.address, fde.address⟩ ∧
        rest = windowAt bytes (offset + locationSize + fdeSize) := by
  constructor
  · intro h
    obtain ⟨⟨location, afterLocation⟩, hlocation, h⟩ := Steps.bind_eq_ok.mp h
    obtain ⟨⟨fde, afterFde⟩, hfde, h⟩ := Steps.bind_eq_ok.mp h
    obtain ⟨rfl, rfl⟩ := Prod.mk.inj (Steps.pure_eq_ok.mp h)
    obtain ⟨locationSize, hlocationAt, rfl⟩ := pointer_windowAt_eq_ok_iff.mp hlocation
    obtain ⟨fdeSize, hfdeAt, rfl⟩ := pointer_windowAt_eq_ok_iff.mp hfde
    exact ⟨location, locationSize, fde, fdeSize, hlocationAt, hfdeAt, rfl, rfl⟩
  · intro ⟨location, locationSize, fde, fdeSize, hlocation, hfde, hentry, hrest⟩
    refine Steps.bind_eq_ok.mpr ⟨_, pointer_windowAt_eq_ok_iff.mpr ⟨_, hlocation, rfl⟩, ?_⟩
    refine Steps.bind_eq_ok.mpr ⟨_, pointer_windowAt_eq_ok_iff.mpr ⟨_, hfde, rfl⟩, ?_⟩
    rw [hentry, hrest]
    rfl

/-- **The loop finds the entries that are stored one after the other**, if there are as many as it is asked
for. -/
theorem readEntries_eq_ok_iff {count : Nat} :
    readEntries (target order addressSize address) encoding count (windowAt bytes offset) =
        .ok entries ↔
      entries.length = count ∧
        ∃ stop, EntriesAt order addressSize address bytes encoding offset entries stop := by
  induction count generalizing offset entries with
  | zero =>
      constructor
      · intro h
        obtain rfl := Except.ok.inj h
        exact ⟨rfl, offset, .nil offset⟩
      · intro ⟨hlength, _⟩
        rw [List.eq_nil_of_length_eq_zero hlength]
        rfl
  | succ count ih =>
      rw [readEntries_succ]
      constructor
      · intro h
        obtain ⟨⟨entry, rest⟩, hentry, h⟩ := Steps.bind_eq_ok.mp h
        obtain ⟨later, hlater, h⟩ := Steps.bind_eq_ok.mp h
        obtain rfl := Steps.pure_eq_ok.mp h
        obtain ⟨location, locationSize, fde, fdeSize, hlocation, hfde, rfl, rfl⟩ :=
          readEntry_windowAt_eq_ok_iff.mp hentry
        obtain ⟨hlength, stop, hstored⟩ := ih.mp hlater
        exact ⟨by rw [List.length_cons, hlength], stop, .cons hlocation hfde hstored⟩
      · intro ⟨hlength, stop, hstored⟩
        cases hstored with
        | nil => cases hlength
        | cons hlocation hfde hlater =>
            have hread := readEntry_windowAt_eq_ok_iff.mpr ⟨_, _, _, _, hlocation, hfde, rfl, rfl⟩
            have hloop := ih.mpr ⟨Nat.succ.inj hlength, stop, hlater⟩
            exact Steps.bind_eq_ok.mpr ⟨_, hread, Steps.bind_eq_ok.mpr ⟨_, hloop, rfl⟩⟩

/-- The loop with the number of turns that it starts. -/
def readEntriesWithTurns (target : Target) (encoding : PointerEncoding) :
    Nat → Window → Except Fault (List SearchEntry) × Nat
  | 0, _ => (.ok [], 0)
  | count + 1, window =>
    match readEntry target encoding window with
    | .error fault => (.error fault, 1)
    | .ok (entry, rest) =>
      let (entries, turns) := readEntriesWithTurns target encoding count rest
      (entries.map (entry :: ·), turns + 1)

/-- Counting the turns makes no difference to the entries. -/
theorem readEntriesWithTurns_value (target : Target) (encoding : PointerEncoding) (count : Nat)
    (window : Window) :
    (readEntriesWithTurns target encoding count window).1 =
      readEntries target encoding count window := by
  induction count generalizing window with
  | zero => rfl
  | succ count ih =>
      rw [readEntries_succ, readEntriesWithTurns]
      cases readEntry target encoding window with
      | error fault => rfl
      | ok read =>
          simp only [ih, bind, Except.bind]
          cases readEntries target encoding count read.2 <;> rfl

/-- What a run of the loop from an offset on comes to: the entries that are stored there, with a turn for each
of them; or the fault of the first entry that cannot be read, with a turn for each entry before it and one
for that. -/
def RunFrom (order : ByteOrder) (addressSize : AddressSize) (address : UInt64) (bytes : List UInt8)
    (encoding : PointerEncoding) (start : Nat) : Except Fault (List SearchEntry) × Nat → Prop
  | (.ok entries, turns) =>
    (∃ stop, EntriesAt order addressSize address bytes encoding start entries stop) ∧
      turns = entries.length
  | (.error fault, turns) => ∃ entries stop,
    EntriesAt order addressSize address bytes encoding start entries stop ∧
      readEntry (target order addressSize address) encoding (windowAt bytes stop) = .error fault ∧
      turns = entries.length + 1

/-- A turn in front of a run. -/
theorem RunFrom.cons {location fde : Pointer} {locationSize fdeSize turns : Nat}
    {run : Except Fault (List SearchEntry)}
    (hlocation : StoresAt order addressSize address bytes encoding offset location locationSize)
    (hfde : StoresAt order addressSize address bytes encoding (offset + locationSize) fde fdeSize)
    (h : RunFrom order addressSize address bytes encoding (offset + locationSize + fdeSize) (run, turns)) :
    RunFrom order addressSize address bytes encoding offset
      (run.map (⟨location.address, fde.address⟩ :: ·), turns + 1) := by
  cases run with
  | ok entries =>
      obtain ⟨⟨stop, hstored⟩, hturns⟩ := h
      exact ⟨⟨stop, .cons hlocation hfde hstored⟩, congrArg Nat.succ hturns⟩
  | error fault =>
      obtain ⟨entries, stop, hstored, hfault, hturns⟩ := h
      exact ⟨_ :: entries, stop, .cons hlocation hfde hstored, hfault, congrArg Nat.succ hturns⟩

/-- **The turns are counted by the entries**, whatever the count is. -/
theorem runFrom_readEntriesWithTurns (count : Nat) :
    RunFrom order addressSize address bytes encoding offset
      (readEntriesWithTurns (target order addressSize address) encoding count
        (windowAt bytes offset)) := by
  induction count generalizing offset with
  | zero => exact ⟨⟨offset, .nil offset⟩, rfl⟩
  | succ count ih =>
      rw [readEntriesWithTurns]
      cases hentry : readEntry (target order addressSize address) encoding (windowAt bytes offset) with
      | error fault => exact ⟨[], offset, .nil offset, hentry, rfl⟩
      | ok read =>
          obtain ⟨location, locationSize, fde, fdeSize, hlocation, hfde, hread, hrest⟩ :=
            readEntry_windowAt_eq_ok_iff.mp hentry
          simp only [hread, hrest]
          exact ih.cons hlocation hfde

/-- The bytes bound the turns: an entry that is read has taken two of them. -/
theorem RunFrom.turns_le {run : Except Fault (List SearchEntry) × Nat}
    (h : RunFrom order addressSize address bytes encoding start run) (hstart : start ≤ bytes.length) :
    run.2 ≤ (bytes.length - start) / 2 + 1 := by
  obtain ⟨entries | fault, turns⟩ := run
  · obtain ⟨entries, stop, hstored, -, rfl⟩ := h
    have := hstored.bounds hstart
    omega
  · obtain ⟨⟨stop, hstored⟩, rfl⟩ := h
    have := hstored.bounds hstart
    omega

/-! ## 4. The whole search table -/

/-- The fields in front of the entries of a search table: its version, the pointer to the section, and the
count of the entries, which start right after it and are stored in an encoding. -/
def HeadIn (order : ByteOrder) (addressSize : AddressSize) (address : UInt64) (bytes : List UInt8)
    (pointer count : Pointer) (encoding : PointerEncoding) (start : Nat) : Prop :=
  ∃ pointerByte countByte entryByte rest pointerEncoding countEncoding pointerSize countSize,
    bytes = 1 :: pointerByte :: countByte :: entryByte :: rest ∧
      PointerEncoding.decode pointerByte = .ok (some pointerEncoding) ∧
      PointerEncoding.decode countByte = .ok (some countEncoding) ∧
      PointerEncoding.decode entryByte = .ok (some encoding) ∧
      StoresAt order addressSize address bytes pointerEncoding 4 pointer pointerSize ∧
      StoresAt order addressSize address bytes countEncoding (4 + pointerSize) count countSize ∧
      start = 4 + pointerSize + countSize

theorem HeadIn.bounds (h : HeadIn order addressSize address bytes pointer count encoding start) :
    6 ≤ start ∧ start ≤ bytes.length := by
  obtain ⟨_, _, _, _, _, _, pointerSize, countSize, -, -, -, -, hpointer, hcount, rfl⟩ := h
  have hpointerSize := hpointer.bounds
  have hcountSize := hcount.bounds
  omega

theorem HeadIn.append (h : HeadIn order addressSize address bytes pointer count encoding start)
    (more : List UInt8) :
    HeadIn order addressSize address (bytes ++ more) pointer count encoding start := by
  obtain ⟨pointerByte, countByte, entryByte, rest, pointerEncoding, countEncoding, pointerSize, countSize,
    hbytes, hdecode, hcountDecode, hentryDecode, hpointer, hcount, hstart⟩ := h
  refine ⟨pointerByte, countByte, entryByte, rest ++ more, pointerEncoding, countEncoding, pointerSize,
    countSize, ?_, hdecode, hcountDecode, hentryDecode, hpointer.append more, hcount.append more, hstart⟩
  rw [hbytes]
  rfl

/-- After its first fields, a search table is read by the loop. -/
theorem HeadIn.parse_eq (h : HeadIn order addressSize address bytes pointer count encoding start) :
    parse order addressSize address bytes =
      (readEntries (target order addressSize address) encoding count.address.toNat
        (windowAt bytes start)).map fun entries => ⟨1, pointer, entries⟩ := by
  obtain ⟨pointerByte, countByte, entryByte, rest, pointerEncoding, countEncoding, pointerSize, countSize,
    hbytes, hdecode, hcountDecode, hentryDecode, hpointer, hcount, rfl⟩ := h
  have hpointerRead := pointer_windowAt_eq_ok_iff.mpr ⟨_, hpointer, rfl⟩
  have hcountRead := pointer_windowAt_eq_ok_iff.mpr ⟨_, hcount, rfl⟩
  have hpresent : ¬(countByte = PointerEncoding.omitted ∨ entryByte = PointerEncoding.omitted) := by
    simp [(PointerEncoding.indirect_of_decode hcountDecode).1,
      (PointerEncoding.indirect_of_decode hentryDecode).1]
  have hcounted : readCounted (target order addressSize address) countByte entryByte
      (windowAt bytes (4 + pointerSize)) =
        readEntries (target order addressSize address) encoding count.address.toNat
          (windowAt bytes (4 + pointerSize + countSize)) := by
    simp [readCounted, if_neg hpresent, PointerEncoding.decodePresent_eq_ok_iff.mpr hcountDecode,
      PointerEncoding.decodePresent_eq_ok_iff.mpr hentryDecode, hcountRead, bind, Except.bind]
  subst hbytes
  have hfirst : Window.pointer ⟨rest, 4⟩ (target order addressSize address) pointerEncoding none = _ :=
    hpointerRead
  simp only [target] at hfirst hcounted ⊢
  simp only [parse, PointerEncoding.decodePresent_eq_ok_iff.mpr hdecode, hfirst, hcounted, bind,
    Except.bind, if_pos]
  cases readEntries _ encoding count.address.toNat _ <;> rfl

/-- After its first fields, a search table is read exactly if its entries are there. -/
theorem HeadIn.parse_eq_ok_iff (h : HeadIn order addressSize address bytes pointer count encoding start)
    {searchTable : SearchTable} :
    parse order addressSize address bytes = .ok searchTable ↔
      searchTable.entries.length = count.address.toNat ∧
      (∃ stop, EntriesAt order addressSize address bytes encoding start searchTable.entries stop) ∧
      searchTable.version = 1 ∧ searchTable.ehFramePointer = pointer := by
  rw [h.parse_eq]
  constructor
  · intro hread
    cases hloop : readEntries (target order addressSize address) encoding count.address.toNat
        (windowAt bytes start) with
    | error fault => simp [hloop, Except.map] at hread
    | ok entries =>
        rw [hloop] at hread
        obtain rfl := Except.ok.inj hread
        obtain ⟨hlength, hstored⟩ := readEntries_eq_ok_iff.mp hloop
        exact ⟨hlength, hstored, rfl, rfl⟩
  · intro ⟨hlength, hstored, hversion, hpointer⟩
    rw [readEntries_eq_ok_iff.mpr ⟨hlength, hstored⟩, ← hversion, ← hpointer]
    rfl

/-- A search table that is read has its first fields, unless it has no entries by its own account. -/
theorem exists_headIn_of_parse {searchTable : SearchTable} (hcount : bytes[2]? ≠ some PointerEncoding.omitted)
    (hentry : bytes[3]? ≠ some PointerEncoding.omitted)
    (h : parse order addressSize address bytes = .ok searchTable) :
    ∃ pointer count encoding start,
      HeadIn order addressSize address bytes pointer count encoding start := by
  unfold parse at h
  split at h
  · next version pointerByte countByte entryByte rest =>
      simp only [List.getElem?_cons_succ, List.getElem?_cons_zero, ne_eq, Option.some.injEq] at hcount hentry
      split at h
      · next hversion =>
          subst hversion
          obtain ⟨pointerEncoding, hdecode, h⟩ := Steps.bind_eq_ok.mp h
          obtain ⟨⟨pointer, afterPointer⟩, hpointer, h⟩ := Steps.bind_eq_ok.mp h
          obtain ⟨entries, hentries, -⟩ := Steps.bind_eq_ok.mp h
          rw [readCounted, if_neg (by simp [hcount, hentry])] at hentries
          obtain ⟨countEncoding, hcountDecode, hentries⟩ := Steps.bind_eq_ok.mp hentries
          obtain ⟨⟨count, afterCount⟩, hcountRead, hentries⟩ := Steps.bind_eq_ok.mp hentries
          obtain ⟨encoding, hentryDecode, -⟩ := Steps.bind_eq_ok.mp hentries
          have hfirst : (windowAt (1 :: pointerByte :: countByte :: entryByte :: rest) 4).pointer
              (target order addressSize address) pointerEncoding none = .ok (pointer, afterPointer) :=
            hpointer
          obtain ⟨pointerSize, hpointerAt, rfl⟩ := pointer_windowAt_eq_ok_iff.mp hfirst
          obtain ⟨countSize, hcountAt, -⟩ := pointer_windowAt_eq_ok_iff.mp hcountRead
          exact ⟨pointer, count, encoding, _, pointerByte, countByte, entryByte, rest, pointerEncoding,
            countEncoding, pointerSize, countSize, rfl, PointerEncoding.decodePresent_eq_ok_iff.mp hdecode,
            PointerEncoding.decodePresent_eq_ok_iff.mp hcountDecode,
            PointerEncoding.decodePresent_eq_ok_iff.mp hentryDecode, hpointerAt, hcountAt, rfl⟩
      · cases h
  · cases h

/-- A search table is read exactly if it has its first fields and then the entries that it claims. -/
theorem parse_eq_ok_iff (hcount : bytes[2]? ≠ some PointerEncoding.omitted)
    (hentry : bytes[3]? ≠ some PointerEncoding.omitted) {searchTable : SearchTable} :
    parse order addressSize address bytes = .ok searchTable ↔
      ∃ pointer count encoding start stop,
        HeadIn order addressSize address bytes pointer count encoding start ∧
        EntriesAt order addressSize address bytes encoding start searchTable.entries stop ∧
        searchTable.entries.length = count.address.toNat ∧
        searchTable.version = 1 ∧ searchTable.ehFramePointer = pointer := by
  constructor
  · intro h
    obtain ⟨pointer, count, encoding, start, hhead⟩ := exists_headIn_of_parse hcount hentry h
    obtain ⟨hlength, ⟨stop, hstored⟩, hversion, hpointer⟩ := hhead.parse_eq_ok_iff.mp h
    exact ⟨pointer, count, encoding, start, stop, hhead, hstored, hlength, hversion, hpointer⟩
  · intro ⟨pointer, count, encoding, start, stop, hhead, hstored, hlength, hversion, hpointer⟩
    exact hhead.parse_eq_ok_iff.mpr ⟨hlength, ⟨stop, hstored⟩, hversion, hpointer⟩

/-- A search table that is read has two bytes for each entry, and is the same in front of more bytes. -/
theorem HeadIn.parse_tail (hhead : HeadIn order addressSize address bytes pointer count encoding start)
    {searchTable : SearchTable} (h : parse order addressSize address bytes = .ok searchTable) :
    2 * searchTable.entries.length ≤ bytes.length - 4 ∧
      ∀ more, parse order addressSize address (bytes ++ more) = .ok searchTable := by
  obtain ⟨hlength, ⟨stop, hstored⟩, hversion, hpointer⟩ := hhead.parse_eq_ok_iff.mp h
  have hstart := hhead.bounds
  have hstop := hstored.bounds hstart.2
  refine ⟨by omega, ?_⟩
  intro more
  exact (hhead.append more).parse_eq_ok_iff.mpr
    ⟨hlength, ⟨stop, hstored.append more⟩, hversion, hpointer⟩

/-- Entries that are claimed and not stored are a fault. -/
theorem HeadIn.exists_fault (hhead : HeadIn order addressSize address bytes pointer count encoding start)
    (hmissing : (∀ entries stop, EntriesAt order addressSize address bytes encoding start entries stop →
        entries.length < count.address.toNat) ∨
      bytes.length - start < 2 * count.address.toNat) :
    ∃ fault, parse order addressSize address bytes = .error fault := by
  cases h : parse order addressSize address bytes with
  | error fault => exact ⟨fault, rfl⟩
  | ok searchTable =>
      obtain ⟨hlength, ⟨stop, hstored⟩, -⟩ := hhead.parse_eq_ok_iff.mp h
      have hstop := hstored.bounds hhead.bounds.2
      rcases hmissing with hfew | hshort
      · have := hfew _ _ hstored
        omega
      · omega

/-- **A search table has as many entries as it claims, or it is not read.** Where neither the count nor the
encoding of the entries is omitted, it is read exactly if the entries that it claims are stored one after the
other behind the count, and then it has these; they take two bytes each at least, and what comes after them
makes no difference. If more entries are claimed than are stored, or than there are bytes for, there is a
fault; and the loop over them starts one turn for each entry that is there and one for the first that is not,
which is no more than half as many turns as there are bytes, and one. -/
theorem parse_counted (order : ByteOrder) (addressSize : AddressSize) (address : UInt64)
    {bytes : List UInt8} (hcount : bytes[2]? ≠ some PointerEncoding.omitted)
    (hentry : bytes[3]? ≠ some PointerEncoding.omitted) :
    (∀ searchTable, parse order addressSize address bytes = .ok searchTable ↔
      ∃ pointer count encoding start stop,
        HeadIn order addressSize address bytes pointer count encoding start ∧
        EntriesAt order addressSize address bytes encoding start searchTable.entries stop ∧
        searchTable.entries.length = count.address.toNat ∧
        searchTable.version = 1 ∧ searchTable.ehFramePointer = pointer) ∧
    (∀ searchTable, parse order addressSize address bytes = .ok searchTable →
      2 * searchTable.entries.length ≤ bytes.length - 4 ∧
      ∀ more, parse order addressSize address (bytes ++ more) = .ok searchTable) ∧
    ∀ pointer count encoding start,
      HeadIn order addressSize address bytes pointer count encoding start →
      let loop := readEntriesWithTurns (target order addressSize address) encoding
        count.address.toNat (windowAt bytes start)
      parse order addressSize address bytes = loop.1.map (fun entries => ⟨1, pointer, entries⟩) ∧
      loop.2 ≤ (bytes.length - start) / 2 + 1 ∧
      RunFrom order addressSize address bytes encoding start loop ∧
      ((∀ entries stop, EntriesAt order addressSize address bytes encoding start entries stop →
          entries.length < count.address.toNat) ∨
        bytes.length - start < 2 * count.address.toNat →
        ∃ fault, parse order addressSize address bytes = .error fault) := by
  refine ⟨fun searchTable => parse_eq_ok_iff hcount hentry, ?_, ?_⟩
  · intro searchTable h
    obtain ⟨pointer, count, encoding, start, hhead⟩ := exists_headIn_of_parse hcount hentry h
    exact hhead.parse_tail h
  · intro pointer count encoding start hhead
    have hrun := @runFrom_readEntriesWithTurns order addressSize address bytes encoding start
      count.address.toNat
    refine ⟨?_, hrun.turns_le hhead.bounds.2, hrun, hhead.exists_fault⟩
    rw [readEntriesWithTurns_value]
    exact hhead.parse_eq

/-- A search table whose entries are stored in groups of seven bits, relative to where they are. Its count is
padded, and a byte follows the entries. -/
def groupedHeader : List UInt8 := [
  1, 0x02, 0x01, 0x19, 0, 0x20, 0x82, 0,
  0x7f, 0x80, 1,
  0, 0xff, 0x7e,
  0xaa]

/-- What is read of it. -/
def groupedSearchTable : SearchTable where
  version := 1
  ehFramePointer := ⟨0x2000, 0x2000, false⟩
  entries := [⟨0x1007, 0x1089⟩, ⟨0x100b, 0xf8b⟩]

/-- A search table that claims as many entries as it can, and has two bytes for them. -/
def boastingHeader : List UInt8 := [
  1, 0x02, 0x01, 0x19, 0, 0x20, 0xff, 0xff, 0xff, 0xff, 0xff, 0xff, 0xff, 0xff, 0xff, 1,
  0, 0]

theorem headIn_boastingHeader :
    HeadIn .little .eight 0x1000 boastingHeader ⟨0x2000, 0x2000, false⟩
      ⟨0xffffffffffffffff, 0xffffffffffffffff, false⟩ ⟨.sleb128, .pcrel, false⟩ 16 :=
  ⟨0x02, 0x01, 0x19, _, ⟨.udata2, .absolute, false⟩, ⟨.uleb128, .absolute, false⟩, 2, 10, rfl, rfl, rfl,
    rfl, by unfold StoresAt; cbv, by unfold StoresAt; cbv, rfl⟩

theorem parse_counted_groupedHeader :
    parse .little .eight 0x1000 groupedHeader = .ok groupedSearchTable ∧
    (∀ more, parse .little .eight 0x1000 (groupedHeader ++ more) = .ok groupedSearchTable) ∧
    (∃ fault, parse .little .eight 0x1000 boastingHeader = .error fault) ∧
    (readEntriesWithTurns (target .little .eight 0x1000) ⟨.sleb128, .pcrel, false⟩ (2 ^ 64 - 1)
      (windowAt boastingHeader 16)).2 ≤ 2 := by
  have hparse : parse .little .eight 0x1000 groupedHeader = .ok groupedSearchTable := by cbv
  have hgrouped := @parse_counted .little .eight 0x1000 groupedHeader (by decide) (by decide)
  have hboasting := @parse_counted .little .eight 0x1000 boastingHeader (by decide) (by decide)
  obtain ⟨-, hturns, -, hfault⟩ := hboasting.2.2 _ _ _ _ headIn_boastingHeader
  exact ⟨hparse, (hgrouped.2.1 _ hparse).2, hfault (Or.inr (by decide)), hturns⟩

end SearchTable

end UnwindTables
