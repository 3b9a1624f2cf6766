/-
UnwindTables.Proofs.Record.FormatTheorems — a section is cut into records in one way, and nothing of it
is lost.

Whatever bytes are left of a section, one of three things is the case, and none of them is stated in
terms of reading:

* `EndsSection` — there are no more bytes, or there is a length of zero;
* `Record.Damaged` — the bytes cannot start with a record, for one of five reasons;
* they are those of a record, `Record.write`, with anything after it.

`Framing.ofSection_partitions` puts it together for all records of a section: they lie end to end, their
bytes are the bytes of the section up to where the third case ends, and the other two cases say how it
ends there.

## How the proof goes

`Record.read_of_end`, `Record.read_of_damaged` and `Record.read_write` say what is read in each of the
cases, and `Record.format_cases` that there is no other one. So each case is also the only one in which
its answer is given (`Record.read_eq_none_iff`, `Record.read_eq_error_iff`). The proofs about all records
are inductions over what is left of the section, and they do not open the reader.
-/
import UnwindTables.Proofs.Pointer.CompletenessTheorems
import UnwindTables.Proofs.Record.HeaderTheorems

namespace UnwindTables

/-! ## 1. What the bytes of a section can start with -/

/-- A length that a length field can say. Zero in four bytes says something else. -/
structure RecordFormat.Holds (format : RecordFormat) (length : Nat) : Prop where
  fits : length < format.limit
  nonzero : format = .dwarf32 → length ≠ 0

/-- Nothing is left of a section, or a length of zero with anything after it. -/
def EndsSection (bytes : List UInt8) : Prop := bytes = [] ∨ ∃ more, bytes = [0, 0, 0, 0] ++ more

namespace Record

/-- A record as it can stand in a section: its body ends where its length says, and its header has room
for the length and for the distance to the CIE. -/
structure Storable (record : Record) : Prop where
  framed : record.Framed
  fits : record.length < record.format.limit
  reference : ∀ owner, record.kind = .fde owner →
    owner < record.idOffset ∧ record.idOffset - owner < capacity 4

/-- Why no record starts at a section offset, where `bytes` are left of the section. -/
inductive Damaged (order : ByteOrder) (offset : Nat) : List UInt8 → Fault → Prop
  /-- One to three bytes are left. -/
  | cutLength {bytes : List UInt8} : bytes ≠ [] → bytes.length < 4 →
      Damaged order offset bytes (.malformed offset .unexpectedEnd)
  /-- An extended length is cut off. -/
  | cutExtended {rest : List UInt8} : rest.length < 8 →
      Damaged order offset (order.bytes 4 RecordFormat.escape ++ rest)
        (.malformed (offset + 4) .unexpectedEnd)
  /-- The length exceeds what is left after it. -/
  | overrun {format : RecordFormat} {length : Nat} {rest : List UInt8} : format.Holds length →
      rest.length < length →
      Damaged order offset (format.lengthField order length ++ rest)
        (.malformed offset .lengthOverrun)
  /-- The length does not leave room for an id. -/
  | short {format : RecordFormat} {content more : List UInt8} : format.Holds content.length →
      content.length < 4 →
      Damaged order offset (format.lengthField order content.length ++ (content ++ more))
        (.malformed (offset + format.lengthSize) .unexpectedEnd)
  /-- The id refers to something before the start of the section. -/
  | farReference {format : RecordFormat} {id : Nat} {body more : List UInt8} :
      format.Holds (4 + body.length) → id < capacity 4 → offset + format.lengthSize < id →
      Damaged order offset
        (format.lengthField order (4 + body.length) ++ (order.bytes 4 id ++ body ++ more))
        (.malformed offset .ciePointerOutOfBounds)

variable {order : ByteOrder} {window rest : Window} {record : Record} {format : RecordFormat}
  {length offset : Nat} {fault : Fault}

/-! ## 2. What is read then -/

theorem readLength_lengthField (h : format.Holds length) (rest : List UInt8) (offset : Nat) :
    readLength order ⟨format.lengthField order length ++ rest, offset⟩ =
      .ok (some (format, length, ⟨rest, offset + format.lengthSize⟩)) := by
  cases format with
  | dwarf32 =>
      have hlimit : length < RecordFormat.escape := h.fits
      have hword : length < capacity 4 := by
        simp only [RecordFormat.escape, capacity] at hlimit ⊢
        omega
      rw [readLength, RecordFormat.lengthField, Window.word_bytes rest offset order hword]
      simp only [bind, Except.bind]
      rw [if_neg (h.nonzero rfl), if_neg (Nat.ne_of_lt hlimit)]
      rfl
  | dwarf64 =>
      have hescape : RecordFormat.escape < capacity 4 := by decide
      rw [readLength, RecordFormat.lengthField, List.append_assoc,
        Window.word_bytes _ offset order hescape]
      simp only [bind, Except.bind]
      rw [if_neg (by decide), if_pos trivial, Window.word_bytes rest _ order h.fits]
      rfl

/-- What is read of a record whose length is known, at the section offset of the record. -/
def readContent (order : ByteOrder) (offset : Nat) (format : RecordFormat) (length : Nat)
    (window : Window) : Except Fault (Option (Record × Window)) := do
  let (content, rest) ← window.split length
  let (id, body) ← content.word order 4
  match kindOf id content.offset with
  | none => throw (.malformed offset .ciePointerOutOfBounds)
  | some kind => return some (⟨offset, format, length, kind, body⟩, rest)

theorem read_lengthField (h : format.Holds length) (rest : List UInt8) (offset : Nat) :
    read order ⟨format.lengthField order length ++ rest, offset⟩ =
      if rest.length < length then .error (.malformed offset .lengthOverrun)
      else readContent order offset format length ⟨rest, offset + format.lengthSize⟩ := by
  have hnonempty : ¬ (⟨format.lengthField order length ++ rest, offset⟩ : Window).size = 0 := by
    have := format.lengthSize_pos
    simp only [Window.size, List.length_append, RecordFormat.length_lengthField]
    omega
  rw [read, if_neg hnonempty, readLength_lengthField h]
  rfl

theorem word_of_short {width : Nat} (h : window.size < width) :
    window.word order width = .error (window.fault .unexpectedEnd) := by
  have hread : order.read? width window.bytes = none := by
    refine if_neg ?_
    rw [List.length_take]
    simp only [Window.size] at h
    omega
  simp only [Window.word, hread]

theorem read_of_end {bytes : List UInt8} (h : EndsSection bytes) (order : ByteOrder) (offset : Nat) :
    read order ⟨bytes, offset⟩ = .ok none := by
  rcases h with rfl | ⟨more, rfl⟩
  · rfl
  · have hzero : order.bytes 4 0 = [0, 0, 0, 0] := by cases order <;> rfl
    rw [← hzero, read, if_neg (by simp [Window.size]), readLength,
      Window.word_bytes more offset order (by decide)]
    rfl

theorem read_of_damaged {bytes : List UInt8} (h : Damaged order offset bytes fault) :
    read order ⟨bytes, offset⟩ = .error fault := by
  cases h with
  | cutLength hne hshort =>
      have hsize : ¬ (⟨bytes, offset⟩ : Window).size = 0 := by simpa [Window.size] using hne
      have hword : (⟨bytes, offset⟩ : Window).word order 4 = .error (.malformed offset .unexpectedEnd) :=
        word_of_short hshort
      rw [read, if_neg hsize, readLength, hword]
      rfl
  | cutExtended hshort =>
      have hescape : RecordFormat.escape < capacity 4 := by decide
      rw [read, if_neg (by simp [Window.size]), readLength, Window.word_bytes _ offset order hescape]
      simp only [bind, Except.bind]
      rw [if_neg (by decide), if_pos trivial, word_of_short hshort]
      rfl
  | overrun hholds hless => rw [read_lengthField hholds, if_pos hless]
  | @short format content more hholds hshort =>
      rw [read_lengthField hholds, if_neg (by simp), readContent, Window.split_append]
      simp only [bind, Except.bind]
      rw [word_of_short hshort]
      rfl
  | @farReference format id body more hholds hid hfar =>
      have hlength : 4 + body.length = (order.bytes 4 id ++ body).length := by
        rw [List.length_append, ByteOrder.length_bytes]
      have hkind : kindOf id (offset + format.lengthSize) = none := by
        rw [kindOf, if_neg (by omega), if_neg (by omega)]
      rw [read_lengthField hholds, if_neg (by simp), readContent, hlength, Window.split_append]
      simp only [bind, Except.bind]
      rw [Window.word_bytes body _ order hid]
      simp only [hkind]
      rfl

/-- The length of a record that can stand in a section. -/
theorem Storable.holds (h : record.Storable) : record.format.Holds record.length :=
  ⟨h.fits, fun _ => by have := h.framed.length; omega⟩

theorem Storable.length_eq (h : record.Storable) : record.length = 4 + record.body.bytes.length := by
  have hstart := h.framed.bodyStart
  have hstop := h.framed.bodyStop
  have hlong := h.framed.length
  simp only [Window.stop, Window.size, stop, idOffset] at hstart hstop
  omega

theorem Storable.kindOf_idField (h : record.Storable) :
    record.idField < capacity 4 ∧ kindOf record.idField record.idOffset = some record.kind := by
  cases hkind : record.kind with
  | cie =>
      have hid : record.idField = 0 := by simp only [idField, hkind]
      rw [hid]
      exact ⟨by decide, rfl⟩
  | fde owner =>
      obtain ⟨hless, hfits⟩ := h.reference owner hkind
      have hid : record.idField = record.idOffset - owner := by simp only [idField, hkind]
      rw [hid]
      refine ⟨hfits, ?_⟩
      rw [kindOf, if_neg (by omega), if_pos (by omega)]
      congr 2
      omega

/-- A record ends where its bytes do. -/
theorem Storable.length_write (h : record.Storable) (order : ByteOrder) :
    record.offset + (record.write order).length = record.stop := by
  have hlength := h.length_eq
  simp only [write, List.length_append, RecordFormat.length_lengthField, ByteOrder.length_bytes, stop]
  omega

/-- **A record is read back from its bytes**, whatever follows them. -/
theorem read_write (h : record.Storable) (order : ByteOrder) (rest : List UInt8) :
    read order ⟨record.write order ++ rest, record.offset⟩ =
      .ok (some (record, ⟨rest, record.stop⟩)) := by
  obtain ⟨hid, hkind⟩ := h.kindOf_idField
  have hlength : record.length = (order.bytes 4 record.idField ++ record.body.bytes).length := by
    rw [List.length_append, ByteOrder.length_bytes]
    exact h.length_eq
  have hsplit : (⟨order.bytes 4 record.idField ++ record.body.bytes ++ rest, record.idOffset⟩ :
      Window).split record.length =
        .ok (⟨order.bytes 4 record.idField ++ record.body.bytes, record.idOffset⟩,
          ⟨rest, record.stop⟩) := by
    rw [stop, ← idOffset, hlength]
    exact Window.split_append rest record.idOffset _
  have hbody : (⟨record.body.bytes, record.idOffset + 4⟩ : Window) = record.body := by
    rw [← h.framed.bodyStart]
  rw [write, List.append_assoc, List.append_assoc, read_lengthField h.holds, ← idOffset,
    ← List.append_assoc, if_neg (by rw [hlength]; simp), readContent, hsplit]
  simp only [bind, Except.bind]
  rw [Window.word_bytes record.body.bytes _ order hid]
  simp only [hkind, hbody]
  rfl

/-! ## 3. There is nothing else -/

/-- The id of a record is the one that says what the record holds. -/
theorem storable_of_kindOf {id : Nat} (hframed : record.Framed)
    (hfits : record.length < record.format.limit) (hid : id < capacity 4)
    (hkind : kindOf id record.idOffset = some record.kind) :
    record.Storable ∧ record.idField = id := by
  unfold kindOf at hkind
  split at hkind
  · next hzero =>
      have hcie : record.kind = .cie := (Option.some.inj hkind).symm
      refine ⟨⟨hframed, hfits, ?_⟩, ?_⟩
      · intro owner howner
        rw [hcie] at howner
        cases howner
      · simp only [idField, hcie, hzero]
  · split at hkind
    · next hnonzero hnear =>
        have hfde : record.kind = .fde (record.idOffset - id) := (Option.some.inj hkind).symm
        refine ⟨⟨hframed, hfits, ?_⟩, ?_⟩
        · intro owner howner
          rw [hfde] at howner
          obtain rfl := RecordKind.fde.inj howner
          omega
        · simp only [idField, hfde]
          omega
    · simp at hkind

/-- What follows the length of a record. -/
theorem content_cases (order : ByteOrder) (offset : Nat) (h : format.Holds length)
    (rest : List UInt8) :
    (∃ fault, Damaged order offset (format.lengthField order length ++ rest) fault) ∨
      ∃ (record : Record) (more : List UInt8), record.Storable ∧ record.offset = offset ∧
        format.lengthField order length ++ rest = record.write order ++ more := by
  by_cases hover : rest.length < length
  · exact Or.inl ⟨_, .overrun h hover⟩
  · obtain ⟨content, more, rfl, rfl⟩ : ∃ content more, rest = content ++ more ∧
        content.length = length := by
      refine ⟨rest.take length, rest.drop length, (List.take_append_drop _ _).symm, ?_⟩
      rw [List.length_take]
      omega
    by_cases hshort : content.length < 4
    · exact Or.inl ⟨_, .short h hshort⟩
    · obtain ⟨id, body, hid, rfl⟩ := order.exists_bytes (Nat.le_of_not_lt hshort)
      have hlength : (order.bytes 4 id ++ body).length = 4 + body.length := by
        rw [List.length_append, ByteOrder.length_bytes]
      rw [hlength] at h ⊢
      by_cases hfar : offset + format.lengthSize < id
      · exact Or.inl ⟨_, .farReference h hid hfar⟩
      · obtain ⟨kind, hkind⟩ : ∃ kind, kindOf id (offset + format.lengthSize) = some kind := by
          unfold kindOf
          split
          · exact ⟨_, rfl⟩
          · exact ⟨_, if_pos (Nat.le_of_not_lt hfar)⟩
        have hframed : (⟨offset, format, 4 + body.length, kind,
            ⟨body, offset + format.lengthSize + 4⟩⟩ : Record).Framed := by
          refine ⟨rfl, ?_, Nat.le_add_right _ _⟩
          simp only [Window.stop, Window.size, stop]
          omega
        obtain ⟨hstorable, hfield⟩ := storable_of_kindOf hframed h.fits hid hkind
        refine Or.inr ⟨_, more, hstorable, rfl, ?_⟩
        rw [write, hfield]
        simp only [List.append_assoc]

/-- **There are three things that the rest of a section can be**: its end, damage, or a record with
something after it. -/
theorem format_cases (order : ByteOrder) (offset : Nat) (bytes : List UInt8) :
    EndsSection bytes ∨ (∃ fault, Damaged order offset bytes fault) ∨
      ∃ (record : Record) (more : List UInt8), record.Storable ∧ record.offset = offset ∧
        bytes = record.write order ++ more := by
  rcases Decidable.em (bytes = []) with hnil | hnil
  · exact Or.inl (Or.inl hnil)
  rcases Nat.lt_or_ge bytes.length 4 with hcut | hlong
  · exact Or.inr (Or.inl ⟨_, .cutLength hnil hcut⟩)
  obtain ⟨first, rest, hfirst, rfl⟩ := order.exists_bytes hlong
  rcases Decidable.em (first = 0) with rfl | hzero
  · have hbytes : order.bytes 4 0 = [0, 0, 0, 0] := by cases order <;> rfl
    exact Or.inl (Or.inr ⟨rest, by rw [hbytes]⟩)
  rcases Decidable.em (first = RecordFormat.escape) with rfl | hescape
  · rcases Nat.lt_or_ge rest.length 8 with hcut | hlong
    · exact Or.inr (Or.inl ⟨_, .cutExtended hcut⟩)
    · obtain ⟨length, rest, hlength, rfl⟩ := order.exists_bytes hlong
      have hholds : RecordFormat.dwarf64.Holds length := ⟨hlength, by simp⟩
      have hcases := content_cases order offset hholds rest
      simp only [RecordFormat.lengthField, List.append_assoc] at hcases
      exact Or.inr hcases
  · have hholds : RecordFormat.dwarf32.Holds first := by
      refine ⟨?_, fun _ => hzero⟩
      simp only [RecordFormat.limit, RecordFormat.escape, capacity] at hescape hfirst ⊢
      omega
    exact Or.inr (content_cases order offset hholds rest)

/-! Each case is the only one in which its answer is given. -/

theorem read_eq_none_iff {bytes : List UInt8} :
    read order ⟨bytes, offset⟩ = .ok none ↔ EndsSection bytes := by
  refine ⟨fun h => ?_, fun h => read_of_end h order offset⟩
  rcases format_cases order offset bytes with hend | ⟨fault, hdamaged⟩ | ⟨record, more, hs, rfl, rfl⟩
  · exact hend
  · simp [read_of_damaged hdamaged] at h
  · simp [read_write hs] at h

theorem read_eq_error_iff {bytes : List UInt8} :
    read order ⟨bytes, offset⟩ = .error fault ↔ Damaged order offset bytes fault := by
  refine ⟨fun h => ?_, read_of_damaged⟩
  rcases format_cases order offset bytes with hend | ⟨f, hdamaged⟩ | ⟨record, more, hs, rfl, rfl⟩
  · simp [read_of_end hend] at h
  · rw [read_of_damaged hdamaged] at h
    obtain rfl := Except.error.inj h
    exact hdamaged
  · simp [read_write hs] at h

/-- Bytes that start no record do so for one reason. -/
theorem Damaged.fault_unique {bytes : List UInt8} {other : Fault}
    (h : Damaged order offset bytes fault) (hother : Damaged order offset bytes other) :
    fault = other := by
  have hsame := read_of_damaged hother
  rw [read_of_damaged h] at hsame
  exact Except.error.inj hsame

theorem Damaged.not_endsSection {bytes : List UInt8} (h : Damaged order offset bytes fault) :
    ¬ EndsSection bytes := by
  intro hend
  have hboth := read_of_end hend order offset
  rw [read_of_damaged h] at hboth
  cases hboth

/-- **A record is read exactly from its own bytes.** -/
theorem read_eq_record_iff :
    read order window = .ok (some (record, rest)) ↔
      record.Storable ∧ record.offset = window.offset ∧
        window.bytes = record.write order ++ rest.bytes ∧ rest.offset = record.stop := by
  obtain ⟨bytes, offset⟩ := window
  obtain ⟨more, after⟩ := rest
  constructor
  · intro h
    rcases format_cases order offset bytes with hend | ⟨f, hdamaged⟩ | ⟨found, left, hs, rfl, rfl⟩
    · simp [read_of_end hend] at h
    · simp [read_of_damaged hdamaged] at h
    · rw [read_write hs] at h
      simp only [Except.ok.injEq, Option.some.injEq, Prod.mk.injEq, Window.mk.injEq] at h
      obtain ⟨rfl, rfl, rfl⟩ := h
      exact ⟨hs, rfl, rfl, rfl⟩
  · rintro ⟨hs, hoffset, hbytes, hafter⟩
    simp only at hoffset hbytes hafter
    subst hoffset hbytes hafter
    exact read_write hs order more

/-! ## 4. Records that lie end to end -/

/-- Some records lie end to end between two section offsets. -/
def Tile : (start : Nat) → List Record → (stop : Nat) → Prop
  | start, [], stop => start = stop
  | start, record :: records, stop => record.offset = start ∧ Tile record.stop records stop

/-- A record takes at least eight bytes. -/
theorem Storable.eight_le_length_write (h : record.Storable) (order : ByteOrder) :
    8 ≤ (record.write order).length := by
  have hlength := h.framed.length
  have hstop := h.length_write order
  have hheader : 4 ≤ record.format.lengthSize := by cases record.format <;> decide
  simp only [stop] at hstop
  omega

theorem eight_mul_length_le {records : List Record} (hs : ∀ record ∈ records, record.Storable)
    (order : ByteOrder) : 8 * records.length ≤ (records.flatMap (write order)).length := by
  induction records with
  | nil => exact Nat.le_refl _
  | cons record records ih =>
      have hfirst := (hs record List.mem_cons_self).eight_le_length_write order
      have hrest := ih fun later h => hs later (List.mem_cons_of_mem record h)
      rw [List.flatMap_cons, List.length_append, List.length_cons]
      omega

/-- The body of a record is the last part of its bytes. -/
theorem Storable.drop_write (h : record.Storable) (order : ByteOrder) (more : List UInt8) :
    (record.write order ++ more).drop (record.body.offset - record.offset) =
      record.body.bytes ++ more := by
  have hstart := h.framed.bodyStart
  have hheader : (record.format.lengthField order record.length ++
      order.bytes 4 record.idField).length = record.body.offset - record.offset := by
    rw [List.length_append, RecordFormat.length_lengthField, ByteOrder.length_bytes, hstart, idOffset]
    omega
  rw [write, List.append_assoc, ← hheader, List.drop_left]

/-- The bytes of records that lie end to end, from one of them on. -/
theorem Tile.drop_flatMap {records : List Record} {start stop : Nat} (h : Tile start records stop)
    (hs : ∀ record ∈ records, record.Storable) (order : ByteOrder) (tail : List UInt8)
    (hmem : record ∈ records) :
    start ≤ record.offset ∧ ∃ more,
      (records.flatMap (write order) ++ tail).drop (record.offset - start) =
        record.write order ++ more := by
  induction records generalizing start with
  | nil => simp at hmem
  | cons first records ih =>
      obtain ⟨rfl, hafter⟩ := h
      have hfirst := (hs first List.mem_cons_self).length_write order
      rw [List.flatMap_cons, List.append_assoc]
      rcases List.mem_cons.mp hmem with rfl | hmem
      · exact ⟨Nat.le_refl _, _, by rw [Nat.sub_self, List.drop_zero]⟩
      · obtain ⟨hle, more, hmore⟩ :=
          ih hafter (fun record h => hs record (List.mem_cons_of_mem first h)) hmem
        have hbefore : (first.write order).length ≤ record.offset - first.offset := by omega
        have hdistance : record.offset - first.offset - (first.write order).length =
            record.offset - first.stop := by omega
        refine ⟨by omega, more, ?_⟩
        rw [List.drop_append, List.drop_eq_nil_of_le hbefore, hdistance, List.nil_append, hmore]

end Record

namespace RecordStream

variable {window : Window} {record : Record}

/-- A stream after some requests. -/
def skip (stream : RecordStream) : (requests : Nat) → RecordStream
  | 0 => stream
  | requests + 1 => stream.next.2.skip requests

/-- Once a stream has ended it gives nothing any more. -/
theorem next_skip_finished (order : ByteOrder) (window : Window) (requests : Nat) :
    ((⟨order, window, true⟩ : RecordStream).skip requests).next.1 = none := by
  induction requests with
  | zero => rfl
  | succ requests ih => exact ih

/-- What a stream gives to each request, the first one to come having the number zero. -/
theorem next_skip (order : ByteOrder) (window : Window) (requests : Nat) :
    ((ofWindow order window).skip requests).next.1 =
      ((ofWindow order window).drain.records.map Except.ok ++
        (ofWindow order window).drain.fault.toList.map Except.error)[requests]? := by
  induction window using window_induction order generalizing requests with
  | none window hr =>
      have hnext : (ofWindow order window).next = (none, ⟨order, window, true⟩) := by
        simp [next, ofWindow, hr]
      rw [drain_of_none hr]
      cases requests with
      | zero => exact congrArg Prod.fst hnext
      | succ requests =>
          rw [skip, hnext]
          exact next_skip_finished order window requests
  | fault window fault hr =>
      have hnext : (ofWindow order window).next = (some (.error fault), ⟨order, window, true⟩) := by
        simp [next, ofWindow, hr]
      rw [drain_of_fault hr]
      cases requests with
      | zero => exact congrArg Prod.fst hnext
      | succ requests =>
          rw [skip, hnext]
          exact next_skip_finished order window requests
  | record window record rest hr ih =>
      have hnext : (ofWindow order window).next = (some (.ok record), ofWindow order rest) := by
        simp [next, ofWindow, hr]
      rw [drain_of_record hr]
      cases requests with
      | zero => exact congrArg Prod.fst hnext
      | succ requests =>
          rw [skip, hnext]
          exact ih requests

/-- The records of a stream lie end to end, up to what is left after them. -/
theorem tile_drain (order : ByteOrder) (window : Window) :
    Record.Tile window.offset (ofWindow order window).drain.records
      (ofWindow order window).drain.stream.rest.offset := by
  induction window using window_induction order with
  | none window hr =>
      rw [drain_of_none hr]
      rfl
  | fault window fault hr =>
      rw [drain_of_fault hr]
      rfl
  | record window record rest hr ih =>
      obtain ⟨-, hoffset, -, hafter⟩ := Record.read_eq_record_iff.mp hr
      rw [drain_of_record hr]
      rw [hafter] at ih
      exact ⟨hoffset, ih⟩

/-- Their bytes and what is left after them are what the stream is over. -/
theorem bytes_drain (order : ByteOrder) (window : Window) :
    window.bytes = (ofWindow order window).drain.records.flatMap (Record.write order) ++
      (ofWindow order window).drain.stream.rest.bytes := by
  induction window using window_induction order with
  | none window hr =>
      rw [drain_of_none hr]
      rfl
  | fault window fault hr =>
      rw [drain_of_fault hr]
      rfl
  | record window record rest hr ih =>
      obtain ⟨-, -, hbytes, -⟩ := Record.read_eq_record_iff.mp hr
      rw [drain_of_record hr, List.flatMap_cons, List.append_assoc, ← ih, hbytes]

theorem storable_of_mem_drain {order : ByteOrder}
    (h : record ∈ (ofWindow order window).drain.records) : record.Storable := by
  obtain ⟨before, after, hr⟩ := exists_read_of_mem_drain h
  exact (Record.read_eq_record_iff.mp hr).1

/-- Where the records end, the section ends or it is damaged. -/
theorem read_rest_drain (order : ByteOrder) (window : Window) :
    Record.read order (ofWindow order window).drain.stream.rest =
      match (ofWindow order window).drain.fault with
      | none => .ok none
      | some fault => .error fault := by
  induction window using window_induction order with
  | none window hr =>
      rw [drain_of_none hr]
      exact hr
  | fault window fault hr =>
      rw [drain_of_fault hr]
      exact hr
  | record window record rest hr ih =>
      rw [drain_of_record hr]
      exact ih

/-- Records that were written end to end are read back, and what follows them is read after them. -/
theorem drain_write {records : List Record} {start stop : Nat} (h : Record.Tile start records stop)
    (hs : ∀ record ∈ records, record.Storable) (order : ByteOrder) (tail : List UInt8) :
    (ofWindow order ⟨records.flatMap (Record.write order) ++ tail, start⟩).drain =
      { (ofWindow order ⟨tail, stop⟩).drain with
        records := records ++ (ofWindow order ⟨tail, stop⟩).drain.records } := by
  induction records generalizing start with
  | nil =>
      obtain rfl : start = stop := h
      rfl
  | cons record records ih =>
      obtain ⟨rfl, hafter⟩ := h
      have hread := Record.read_write (hs record List.mem_cons_self) order
        (records.flatMap (Record.write order) ++ tail)
      have hrest := ih hafter fun later h => hs later (List.mem_cons_of_mem record h)
      rw [List.flatMap_cons, List.append_assoc, drain_of_record hread, hrest]
      rfl

end RecordStream

/-! ## 5. The records of a section -/

namespace Framing

/-- The records of a section are its format and nothing less: they are what it is made of, up to where
it ends or is damaged. -/
structure Partitions (order : ByteOrder) (bytes : List UInt8) (framing : Framing) : Prop where
  /-- The records lie end to end, from the start of the section. -/
  tile : Record.Tile 0 framing.records framing.stream.rest.offset
  /-- Each of them can stand in a section, with its body where the section has it. -/
  record : ∀ record ∈ framing.records, record.Storable ∧ record.stop ≤ bytes.length ∧
    record.body.bytes =
      (bytes.drop record.body.offset).take (record.stop - record.body.offset)
  /-- Written again they are the section, up to what is left after them. -/
  written : bytes = framing.records.flatMap (Record.write order) ++ framing.stream.rest.bytes
  /-- They are no more than one for eight bytes. -/
  count : 8 * framing.records.length ≤ bytes.length
  /-- A stream gives the records, then the damage if there is any, and then nothing for ever. -/
  answers : ∀ requests, ((RecordStream.ofSection order bytes).skip requests).next.1 =
    (framing.records.map Except.ok ++ framing.fault.toList.map Except.error)[requests]?
  /-- There is no damage exactly if the section ends where the records do. -/
  ends : framing.fault = none ↔ EndsSection framing.stream.rest.bytes
  /-- Otherwise it is damaged there. -/
  damaged : ∀ fault, framing.fault = some fault ↔
    Record.Damaged order framing.stream.rest.offset framing.stream.rest.bytes fault
  /-- It neither ends nor is damaged where a record starts. -/
  undamaged : ∀ record ∈ framing.records, ¬ EndsSection (bytes.drop record.offset) ∧
    ∀ fault, ¬ Record.Damaged order record.offset (bytes.drop record.offset) fault
  /-- No other records are in the section: those that it was written from are these. -/
  only : ∀ records stop tail, Record.Tile 0 records stop → (∀ record ∈ records, record.Storable) →
    bytes = records.flatMap (Record.write order) ++ tail →
    EndsSection tail ∨ (∃ fault, Record.Damaged order stop tail fault) → framing.records = records

variable {bytes : List UInt8} {record : Record}

theorem tile_ofSection (order : ByteOrder) (bytes : List UInt8) :
    Record.Tile 0 (ofSection order bytes).records (ofSection order bytes).stream.rest.offset :=
  RecordStream.tile_drain order (.ofSection bytes)

theorem storable_of_mem {order : ByteOrder} (h : record ∈ (ofSection order bytes).records) :
    record.Storable :=
  RecordStream.storable_of_mem_drain h

/-- A section is its records and what they leave of it. -/
theorem bytes_ofSection (order : ByteOrder) (bytes : List UInt8) :
    bytes = (ofSection order bytes).records.flatMap (Record.write order) ++
      (ofSection order bytes).stream.rest.bytes :=
  RecordStream.bytes_drain order (.ofSection bytes)

/-- From where a record starts, a section has the bytes of the record. -/
theorem exists_drop_of_mem {order : ByteOrder} (h : record ∈ (ofSection order bytes).records) :
    ∃ more, bytes.drop record.offset = record.write order ++ more := by
  obtain ⟨-, more, hmore⟩ := (tile_ofSection order bytes).drop_flatMap
    (fun _ hr => storable_of_mem hr) order (ofSection order bytes).stream.rest.bytes h
  rw [← bytes_ofSection order bytes] at hmore
  exact ⟨more, hmore⟩

/-- The body of a record is where the section has it. -/
theorem body_eq_of_mem {order : ByteOrder} (h : record ∈ (ofSection order bytes).records) :
    record.stop ≤ bytes.length ∧
      record.body.bytes = (bytes.drop record.body.offset).take (record.stop - record.body.offset) := by
  have hstorable := storable_of_mem h
  have hwritten := hstorable.length_write order
  have height := hstorable.eight_le_length_write order
  have hstart := hstorable.framed.bodyStart
  have hstop := hstorable.framed.bodyStop
  obtain ⟨more, hmore⟩ := exists_drop_of_mem h
  have hlength := congrArg List.length hmore
  rw [List.length_drop, List.length_append] at hlength
  have hbody : bytes.drop record.body.offset = record.body.bytes ++ more := by
    have hoffset : record.body.offset = record.offset + (record.body.offset - record.offset) := by
      rw [hstart, Record.idOffset]
      omega
    rw [hoffset, ← List.drop_drop, hmore, hstorable.drop_write]
  have hsize : record.body.bytes.length = record.stop - record.body.offset := by
    rw [← hstop, Window.stop, Window.size]
    omega
  exact ⟨by omega, by rw [hbody, ← hsize, List.take_left]⟩

/-- Records take at least eight bytes each. -/
theorem eight_mul_length_records_le (order : ByteOrder) (bytes : List UInt8) :
    8 * (ofSection order bytes).records.length ≤ bytes.length := by
  have hbytes := congrArg List.length (bytes_ofSection order bytes)
  have hrecords : 8 * (ofSection order bytes).records.length ≤
      ((ofSection order bytes).records.flatMap (Record.write order)).length :=
    Record.eight_mul_length_le (fun _ hr => storable_of_mem hr) order
  rw [List.length_append] at hbytes
  omega

/-- What the records of a section leave of it is its end or damage. -/
theorem rest_cases (order : ByteOrder) (bytes : List UInt8) :
    let framing := ofSection order bytes
    (framing.fault = none ∧ EndsSection framing.stream.rest.bytes) ∨
      ∃ fault, framing.fault = some fault ∧
        Record.Damaged order framing.stream.rest.offset framing.stream.rest.bytes fault := by
  intro framing
  have hread := RecordStream.read_rest_drain order (.ofSection bytes)
  change Record.read order framing.stream.rest = (match framing.fault with
    | none => .ok none
    | some fault => .error fault) at hread
  cases hfault : framing.fault with
  | none =>
      rw [hfault] at hread
      exact Or.inl ⟨rfl, Record.read_eq_none_iff.mp hread⟩
  | some fault =>
      rw [hfault] at hread
      exact Or.inr ⟨fault, rfl, Record.read_eq_error_iff.mp hread⟩

/-- Records that lie end to end, with the end of a section after them. -/
theorem ofSection_of_end (order : ByteOrder) {records : List Record} {stop : Nat}
    {tail : List UInt8} (h : Record.Tile 0 records stop)
    (hs : ∀ record ∈ records, record.Storable) (htail : EndsSection tail) :
    (ofSection order (records.flatMap (Record.write order) ++ tail)).records = records ∧
      (ofSection order (records.flatMap (Record.write order) ++ tail)).fault = none := by
  have hdrain := RecordStream.drain_write h hs order tail
  rw [RecordStream.drain_of_none (Record.read_of_end htail order stop)] at hdrain
  exact ⟨(congrArg Framing.records hdrain).trans (List.append_nil _), congrArg Framing.fault hdrain⟩

/-- Records that lie end to end, with damage after them. -/
theorem ofSection_of_damaged {order : ByteOrder} {records : List Record} {stop : Nat}
    {tail : List UInt8} {fault : Fault} (h : Record.Tile 0 records stop)
    (hs : ∀ record ∈ records, record.Storable) (htail : Record.Damaged order stop tail fault) :
    (ofSection order (records.flatMap (Record.write order) ++ tail)).records = records ∧
      (ofSection order (records.flatMap (Record.write order) ++ tail)).fault = some fault := by
  have hdrain := RecordStream.drain_write h hs order tail
  rw [RecordStream.drain_of_fault (Record.read_of_damaged htail)] at hdrain
  exact ⟨(congrArg Framing.records hdrain).trans (List.append_nil _), congrArg Framing.fault hdrain⟩

/-- A section that was written from records is cut into these. -/
theorem records_of_write {order : ByteOrder} {records : List Record} {stop : Nat} {tail : List UInt8}
    (h : Record.Tile 0 records stop) (hs : ∀ record ∈ records, record.Storable)
    (htail : EndsSection tail ∨ ∃ fault, Record.Damaged order stop tail fault) :
    (ofSection order (records.flatMap (Record.write order) ++ tail)).records = records := by
  rcases htail with hend | ⟨fault, hdamaged⟩
  · exact (ofSection_of_end order h hs hend).1
  · exact (ofSection_of_damaged h hs hdamaged).1

/-- **A section is cut into records in one way, and nothing of it is lost.** -/
theorem ofSection_partitions (order : ByteOrder) (bytes : List UInt8) :
    (ofSection order bytes).Partitions order bytes where
  tile := RecordStream.tile_drain order (.ofSection bytes)
  record := by
    intro record h
    exact ⟨RecordStream.storable_of_mem_drain h, body_eq_of_mem h⟩
  written := RecordStream.bytes_drain order (.ofSection bytes)
  count := eight_mul_length_records_le order bytes
  answers := RecordStream.next_skip order (.ofSection bytes)
  ends := by
    rcases rest_cases order bytes with ⟨hnone, hend⟩ | ⟨fault, hsome, hdamaged⟩
    · exact iff_of_true hnone hend
    · exact iff_of_false (by simp [hsome]) hdamaged.not_endsSection
  damaged := by
    intro fault
    rcases rest_cases order bytes with ⟨hnone, hend⟩ | ⟨found, hsome, hdamaged⟩
    · exact iff_of_false (by simp [hnone]) fun h => h.not_endsSection hend
    · rw [hsome, Option.some.injEq]
      refine ⟨fun h => h ▸ hdamaged, fun h => hdamaged.fault_unique h⟩
  undamaged := by
    intro record h
    obtain ⟨more, hmore⟩ := exists_drop_of_mem h
    have hread := Record.read_write (RecordStream.storable_of_mem_drain h) order more
    rw [← hmore] at hread
    refine ⟨fun hend => ?_, fun fault hdamaged => ?_⟩
    · simp [Record.read_of_end hend] at hread
    · simp [Record.read_of_damaged hdamaged] at hread
  only := by
    rintro records stop tail htile hs rfl htail
    exact records_of_write htile hs htail

end Framing

end UnwindTables
