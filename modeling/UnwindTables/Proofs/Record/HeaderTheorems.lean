/-
UnwindTables.Proofs.Record.HeaderTheorems — a record is read off its header.

The length field and the id say where a record ends and what it holds; the bytes of the body and of
what follows are taken as they are. `Record.exists_header_of_read` states it: with any other body of
the same size, and anything after it, the same record is read.

A reference is the distance back from the id field to a CIE, and it is not zero. So an FDE always
refers to something before its own id (`Record.owner_lt_of_read`), and since records do not overlap,
to no record after it.
-/
import UnwindTables.Proofs.Bytes.ReadBackTheorems
import UnwindTables.Proofs.Record.FramingTheorems

namespace UnwindTables

/-! ## 1. Numbers at the front of a window -/

/-- A number depends on the bytes of its field alone. -/
theorem Window.exists_field_of_word {window rest : Window} {order : ByteOrder} {width n : Nat}
    (h : window.word order width = .ok (n, rest)) :
    ∃ field, window.bytes = field ++ rest.bytes ∧ field.length = width ∧
      ∀ more offset, (⟨field ++ more, offset⟩ : Window).word order width =
        .ok (n, ⟨more, offset + width⟩) := by
  obtain ⟨hfits, rfl⟩ := rest_of_word h
  have hlength : (window.bytes.take width).length = width := by
    rw [List.length_take]
    exact Nat.min_eq_left hfits
  refine ⟨window.bytes.take width, (List.take_append_drop width _).symm, hlength, ?_⟩
  intro more offset
  have hvalue : order.read? width window.bytes = some n := by
    unfold word at h
    split at h
    · simp at h
    · next hread => rw [hread, (Prod.mk.inj (Except.ok.inj h)).1]
  have hfield : order.read? width (window.bytes.take width ++ more) = some n := by
    rw [← hvalue]
    simp only [ByteOrder.read?]
    rw [List.take_left' hlength]
  simp only [word, hfield]
  rw [drop, List.drop_left' hlength]

/-- The two sides of a cut, put together again. -/
theorem Window.bytes_of_split {window content rest : Window} {n : Nat}
    (h : window.split n = .ok (content, rest)) :
    window.bytes = content.bytes ++ rest.bytes ∧ content.bytes.length = n := by
  refine ⟨?_, (size_of_split h).1⟩
  unfold split at h
  split at h
  · obtain ⟨rfl, rfl⟩ := Prod.mk.inj (Except.ok.inj h)
    exact (List.take_append_drop n window.bytes).symm
  · simp at h

namespace Record

variable {order : ByteOrder} {window rest : Window} {record : Record}

/-! ## 2. One record -/

/-- The steps of reading a record. -/
theorem read_eq_some_iff :
    read order window = .ok (some (record, rest)) ↔
      ∃ afterLength content id,
        readLength order window = .ok (some (record.format, record.length, afterLength)) ∧
        afterLength.split record.length = .ok (content, rest) ∧
        content.word order 4 = .ok (id, record.body) ∧
        kindOf id content.offset = some record.kind ∧ record.offset = window.offset := by
  obtain ⟨offset, format, length, kind, body⟩ := record
  constructor
  · intro h
    unfold read at h
    split at h
    · simp at h
    · obtain ⟨_ | ⟨format', length', afterLength⟩, hlength, h⟩ := Steps.bind_eq_ok.mp h
      · simp [Steps.pure_eq_ok] at h
      · simp only at h
        split at h
        · exact absurd h Steps.throw_ne_ok
        · obtain ⟨⟨content, after⟩, hcontent, h⟩ := Steps.bind_eq_ok.mp h
          obtain ⟨⟨id, body'⟩, hid, h⟩ := Steps.bind_eq_ok.mp h
          simp only at h
          split at h
          · exact absurd h Steps.throw_ne_ok
          · next kind' hkind =>
              simp only [Steps.pure_eq_ok, Option.some.injEq, Prod.mk.injEq, Record.mk.injEq] at h
              obtain ⟨⟨rfl, rfl, rfl, rfl, rfl⟩, rfl⟩ := h
              exact ⟨afterLength, content, id, hlength, hcontent, hid, hkind, rfl⟩
  · rintro ⟨afterLength, content, id, hlength, hcontent, hid, hkind, rfl⟩
    have hsize := size_of_readLength hlength
    have hcut := Window.size_of_split hcontent
    have hpositive := format.lengthSize_pos
    simp only at hlength hcontent hid hkind hcut hsize
    rw [read, if_neg (by omega)]
    refine Steps.bind_eq_ok.mpr ⟨_, hlength, ?_⟩
    simp only
    rw [if_neg (by omega)]
    refine Steps.bind_eq_ok.mpr ⟨_, hcontent, ?_⟩
    refine Steps.bind_eq_ok.mpr ⟨_, hid, ?_⟩
    simp only [hkind]
    rfl

/-- The length field depends on its own bytes alone. -/
theorem exists_field_of_readLength {format : RecordFormat} {length : Nat}
    (h : readLength order window = .ok (some (format, length, rest))) :
    ∃ field, window.bytes = field ++ rest.bytes ∧ ∀ more,
      readLength order ⟨field ++ more, window.offset⟩ =
        .ok (some (format, length, ⟨more, rest.offset⟩)) := by
  have hoffset := offset_of_readLength h
  obtain ⟨⟨first, afterFirst⟩, hfirst, h⟩ := Steps.bind_eq_ok.mp h
  obtain ⟨firstField, hfirstBytes, -, hfirstReads⟩ := Window.exists_field_of_word hfirst
  simp only at h hfirstBytes
  split at h
  · simp [Steps.pure_eq_ok] at h
  · next hzero =>
      split at h
      · next hescape =>
          obtain ⟨⟨second, afterSecond⟩, hsecond, h⟩ := Steps.bind_eq_ok.mp h
          obtain ⟨secondField, hsecondBytes, -, hsecondReads⟩ :=
            Window.exists_field_of_word hsecond
          obtain ⟨rfl, rfl, rfl⟩ :
              RecordFormat.dwarf64 = format ∧ second = length ∧ afterSecond = rest := by
            simpa [Steps.pure_eq_ok] using h
          refine ⟨firstField ++ secondField, ?_, ?_⟩
          · rw [List.append_assoc, ← hsecondBytes, ← hfirstBytes]
          · intro more
            rw [List.append_assoc]
            refine Steps.bind_eq_ok.mpr ⟨_, hfirstReads _ _, ?_⟩
            simp only
            rw [if_neg hzero, if_pos hescape]
            refine Steps.bind_eq_ok.mpr ⟨_, hsecondReads _ _, ?_⟩
            rw [hoffset]
            rfl
      · next hescape =>
          obtain ⟨rfl, rfl, rfl⟩ :
              RecordFormat.dwarf32 = format ∧ first = length ∧ afterFirst = rest := by
            simpa [Steps.pure_eq_ok] using h
          refine ⟨firstField, hfirstBytes, ?_⟩
          intro more
          refine Steps.bind_eq_ok.mpr ⟨_, hfirstReads _ _, ?_⟩
          simp only
          rw [if_neg hzero, if_neg hescape, hoffset]
          rfl

/-- **A record is read off its header.** What is in its body does not matter, as long as its size
does not change, and neither does what comes after it. -/
theorem exists_header_of_read (h : read order window = .ok (some (record, rest))) :
    ∃ header, window.bytes = header ++ record.body.bytes ++ rest.bytes ∧
      ∀ body more, body.length = record.body.bytes.length →
        read order ⟨header ++ body ++ more, window.offset⟩ =
          .ok (some ({ record with body := ⟨body, record.body.offset⟩ }, ⟨more, rest.offset⟩)) := by
  obtain ⟨afterLength, content, id, hlength, hcontent, hid, hkind, hoffset⟩ :=
    read_eq_some_iff.mp h
  obtain ⟨lengthField, hlengthBytes, hlengthReads⟩ := exists_field_of_readLength hlength
  obtain ⟨idField, hidBytes, hidLength, hidReads⟩ := Window.exists_field_of_word hid
  obtain ⟨hcontentBytes, hcontentLength⟩ := Window.bytes_of_split hcontent
  obtain ⟨hstart, hrest⟩ := Window.sides_of_split hcontent
  have hbody : record.body = content.drop 4 := (Window.rest_of_word hid).2
  refine ⟨lengthField ++ idField, ?_, ?_⟩
  · rw [hlengthBytes, hcontentBytes, hidBytes]
    simp only [List.append_assoc]
  · intro body more hsize
    have hsame : (idField ++ body).length = record.length := by
      rw [← hcontentLength, hidBytes, List.length_append, List.length_append, hsize]
    refine read_eq_some_iff.mpr
      ⟨⟨idField ++ body ++ more, afterLength.offset⟩, ⟨idField ++ body, content.offset⟩, id, ?_, ?_,
        ?_, hkind, hoffset⟩
    · simpa only [List.append_assoc] using hlengthReads (idField ++ body ++ more)
    · have hsplit := Window.split_append more afterLength.offset (idField ++ body)
      rw [hsame] at hsplit
      rw [hsplit, hstart, hrest]
      rfl
    · rw [hidReads, hbody]
      rfl

/-- An FDE refers to something before its own id. -/
theorem owner_lt_of_read (h : read order window = .ok (some (record, rest))) {owner : Nat}
    (hkind : record.kind = .fde owner) : owner < record.idOffset := by
  obtain ⟨afterLength, content, id, hlength, hcontent, -, hkindOf, hoffset⟩ := read_eq_some_iff.mp h
  have hstart : content.offset = record.idOffset := by
    rw [(Window.sides_of_split hcontent).1, offset_of_readLength hlength, idOffset, hoffset]
  rw [hkind, hstart] at hkindOf
  unfold kindOf at hkindOf
  split at hkindOf
  · simp at hkindOf
  · split at hkindOf
    · obtain rfl := RecordKind.fde.inj (Option.some.inj hkindOf)
      omega
    · simp at hkindOf

end Record

/-! ## 3. The records of a section -/

namespace RecordStream

variable {order : ByteOrder} {window : Window} {record : Record}

/-- Every record of a stream was read from somewhere. -/
theorem exists_read_of_mem_drain (h : record ∈ (ofWindow order window).drain.records) :
    ∃ before after, Record.read order before = .ok (some (record, after)) := by
  refine mem_drain_induction h ?here ?later
  case here =>
    intro window rest hr
    exact ⟨window, rest, hr⟩
  case later =>
    intro window first rest _ hfound
    exact hfound

end RecordStream

namespace Framing

variable {order : ByteOrder} {bytes : List UInt8} {record : Record}

theorem owner_lt_of_mem (h : record ∈ (ofSection order bytes).records) {owner : Nat}
    (hkind : record.kind = .fde owner) : owner < record.idOffset := by
  obtain ⟨before, after, hread⟩ := RecordStream.exists_read_of_mem_drain h
  exact Record.owner_lt_of_read hread hkind

/-- Every record of a section ends before the next one starts. -/
theorem ordered (order : ByteOrder) (bytes : List UInt8) :
    (ofSection order bytes).records.Pairwise fun earlier later => earlier.stop ≤ later.offset :=
  RecordStream.drain_ordered order (.ofSection bytes)

/-- Of two records of a section, one ends before the other one starts. -/
theorem apart {first second : Record} (hfirst : first ∈ (ofSection order bytes).records)
    (hsecond : second ∈ (ofSection order bytes).records) (hne : first ≠ second) :
    first.stop ≤ second.offset ∨ second.stop ≤ first.offset := by
  obtain ⟨before, after, hsplit⟩ := List.append_of_mem hfirst
  have hordered := ordered order bytes
  rw [hsplit] at hordered hsecond
  obtain ⟨-, hafter, hbefore⟩ := List.pairwise_append.mp hordered
  rcases List.mem_append.mp hsecond with h | h
  · exact Or.inr (hbefore second h first List.mem_cons_self)
  · rcases List.mem_cons.mp h with rfl | h
    · exact absurd rfl hne
    · exact Or.inl ((List.pairwise_cons.mp hafter).1 second h)

end Framing

end UnwindTables
