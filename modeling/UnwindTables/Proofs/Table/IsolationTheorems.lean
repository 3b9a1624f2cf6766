/-
UnwindTables.Proofs.Table.IsolationTheorems — damage inside a record stays there.

Two sections that differ in the body of one record only have tables that differ in what is said about
this record, and, if it is a CIE, about the FDEs that refer to it: `Table.parse_isolates`. The bytes
of the body may be anything, lengths and encodings that point out of the record included.

## How the proof goes

A record is read off its header, so a changed body changes no other record and no framing
(`RecordStream.drain_withBody`). What becomes of a record is up to the record and to the CIE that it
refers to (`Entry.readAll_eq_map`, `Entry.read_congr`), and the lookup of a CIE at another section
offset is not affected (`Cie.find?_ofRecord?_of_ne`). So the two lists of entries agree at every
section offset that is not touched, and tables are made of entries one by one
(`Table.agree_ofEntries`).
-/
import UnwindTables.Proofs.Table.TwoPassTheorems

namespace UnwindTables

/-! ## 1. Sections that differ in one place -/

/-- Two sections of one size hold the same bytes, except from the offset `start` up to `stop`. -/
structure SameOutside (start stop : Nat) (bytes bytes' : List UInt8) : Prop where
  length : bytes'.length = bytes.length
  same : ∀ offset, offset < start ∨ stop ≤ offset → bytes'[offset]? = bytes[offset]?

namespace SameOutside

variable (front back : List UInt8) {middle : List UInt8}

theorem of_append {middle' : List UInt8} (h : middle'.length = middle.length) :
    SameOutside front.length (front.length + middle.length) (front ++ middle ++ back)
      (front ++ middle' ++ back) := by
  refine ⟨by simp [h], ?_⟩
  intro offset hout
  simp only [List.append_assoc, List.getElem?_append, h]
  split
  · rfl
  · rw [if_neg (by omega), if_neg (by omega)]

/-- What is between the same bytes has the same size. -/
theorem exists_middle {bytes' : List UInt8}
    (h : SameOutside front.length (front.length + middle.length) (front ++ middle ++ back) bytes') :
    ∃ middle', middle'.length = middle.length ∧ bytes' = front ++ middle' ++ back := by
  have hlength := h.length
  simp only [List.length_append] at hlength
  refine ⟨(bytes'.drop front.length).take middle.length, ?_, ?_⟩
  · rw [List.length_take, List.length_drop]
    omega
  · refine List.ext_getElem? ?_
    intro offset
    have hsize : ((bytes'.drop front.length).take middle.length).length = middle.length := by
      rw [List.length_take, List.length_drop]
      omega
    by_cases hin : front.length ≤ offset ∧ offset < front.length + middle.length
    · rw [List.append_assoc, List.getElem?_append_right hin.1,
        List.getElem?_append_left (by omega), List.getElem?_take_of_lt (by omega),
        List.getElem?_drop]
      congr 1
      omega
    · rw [h.same offset (by omega)]
      simp only [List.append_assoc, List.getElem?_append, hsize]
      split
      · rfl
      · rw [if_neg (by omega), if_neg (by omega)]

end SameOutside

/-! ## 2. The records of such sections -/

/-- The body of a record starts where its header ends. -/
theorem Record.length_header {order : ByteOrder} {window rest : Window} {record : Record}
    {header : List UInt8} (h : read order window = .ok (some (record, rest)))
    (hbytes : window.bytes = header ++ record.body.bytes ++ rest.bytes) :
    window.offset + header.length = record.body.offset := by
  have hframes := frames_of_read h
  have hsize := congrArg List.length hbytes
  have hbodyStop := hframes.framed.bodyStop
  have hrestStart := hframes.restStart
  have hrestStop := hframes.restStop
  simp only [Window.stop, Window.size, List.length_append] at *
  omega

namespace RecordStream

variable {order : ByteOrder} {window : Window} {record : Record}

/-- Another body of the same size in the place of a record's body gives the same records, apart from
that body. -/
theorem drain_withBody (h : record ∈ (ofWindow order window).drain.records) :
    ∃ front back before after,
      window.bytes = front ++ record.body.bytes ++ back ∧
      window.offset + front.length = record.body.offset ∧
      (ofWindow order window).drain.records = before ++ record :: after ∧
      ∀ body, body.length = record.body.bytes.length →
        (ofWindow order ⟨front ++ body ++ back, window.offset⟩).drain.records =
            before ++ { record with body := ⟨body, record.body.offset⟩ } :: after ∧
          (ofWindow order ⟨front ++ body ++ back, window.offset⟩).drain.fault =
            (ofWindow order window).drain.fault := by
  refine mem_drain_induction h ?here ?later
  case here =>
    intro window rest hr
    obtain ⟨header, hbytes, hreads⟩ := Record.exists_header_of_read hr
    rw [drain_of_record hr]
    refine ⟨header, rest.bytes, [], (ofWindow order rest).drain.records, hbytes,
      Record.length_header hr hbytes, rfl, ?_⟩
    intro body hbody
    rw [drain_of_record (hreads body rest.bytes hbody)]
    exact ⟨rfl, rfl⟩
  case later =>
    intro window first rest hr ⟨front, back, before, after, hrest, hfront, hrecords, hchanged⟩
    obtain ⟨header, hbytes, hreads⟩ := Record.exists_header_of_read hr
    have hheader := Record.length_header hr hbytes
    rw [drain_of_record hr]
    refine ⟨header ++ first.body.bytes ++ front, back, first :: before, after, ?_, ?_, ?_, ?_⟩
    · rw [hbytes, hrest]
      simp only [List.append_assoc]
    · have hframes := Record.frames_of_read hr
      have hbodyStop := hframes.framed.bodyStop
      have hrestStart := hframes.restStart
      simp only [Window.stop, Window.size, List.length_append] at *
      omega
    · exact congrArg (first :: ·) hrecords
    · intro body hbody
      obtain ⟨hrecords', hfault'⟩ := hchanged body hbody
      have hread := hreads first.body.bytes (front ++ body ++ back) rfl
      rw [show header ++ first.body.bytes ++ front ++ body ++ back =
        header ++ first.body.bytes ++ (front ++ body ++ back) by simp only [List.append_assoc],
        drain_of_record hread]
      exact ⟨congrArg (first :: ·) hrecords', hfault'⟩

end RecordStream

/-- A section whose bytes differ in the body of one record has the same records apart from it. -/
theorem Framing.exists_withBody {order : ByteOrder} {bytes bytes' : List UInt8} {record : Record}
    (hr : record ∈ (ofSection order bytes).records)
    (h : SameOutside record.body.offset record.stop bytes bytes') :
    ∃ before after body,
      (ofSection order bytes).records = before ++ record :: after ∧
      (ofSection order bytes').records = before ++ { record with body } :: after ∧
      (ofSection order bytes').fault = (ofSection order bytes).fault := by
  obtain ⟨front, back, before, after, hbytes, hfront, hrecords, hchanged⟩ :=
    RecordStream.drain_withBody hr
  obtain rfl : bytes = front ++ record.body.bytes ++ back := hbytes
  have hstart : record.body.offset = front.length := hfront.symm.trans (Nat.zero_add _)
  have hstop : record.stop = front.length + record.body.bytes.length := by
    rw [← (framed_of_mem hr).bodyStop, ← hstart]
    rfl
  rw [hstart, hstop] at h
  obtain ⟨body, hbody, rfl⟩ := h.exists_middle
  obtain ⟨hrecords', hfault'⟩ := hchanged body hbody
  exact ⟨before, after, _, hrecords, hrecords', hfault'⟩

/-! ## 3. Tables that agree -/

/-- A CIE at another section offset than that of a record does not depend on the record. -/
theorem Cie.find?_ofRecord?_of_ne {target : Target} {before after : List Record} {record : Record}
    {offset : Nat} (h : offset ≠ record.offset) :
    ((before ++ record :: after).filterMap (ofRecord? target)).find? (·.offset == offset) =
      ((before ++ after).filterMap (ofRecord? target)).find? (·.offset == offset) := by
  rw [List.filterMap_append, List.filterMap_append, List.find?_append, List.find?_append]
  congr 1
  cases hofRecord : ofRecord? target record with
  | none => rw [List.filterMap_cons_none hofRecord]
  | some c =>
      have hoffset := (ofRecord?_eq_some hofRecord).2
      rw [List.filterMap_cons_some hofRecord, List.find?_cons_of_neg]
      simp only [beq_iff_eq]
      omega

namespace Entry

/-- Two entries are about one record, and are the same if its section offset is one of some. -/
def AgreeAt (among : Nat → Bool) (entry entry' : Entry) : Prop :=
  entry'.offset = entry.offset ∧ (among entry.offset = true → entry' = entry)

end Entry

/-- Items that are picked one by one agree where what they are picked from agrees. -/
theorem filter_filterMap_agree {α : Type} {among : Nat → Bool} {pick : Entry → Option α}
    (key : α → Nat) (hkey : ∀ entry a, pick entry = some a → key a = entry.offset)
    {entries entries' : List Entry} (h : List.Forall₂ (Entry.AgreeAt among) entries entries') :
    (entries'.filterMap pick).filter (fun a => among (key a)) =
      (entries.filterMap pick).filter fun a => among (key a) := by
  rw [List.filter_filterMap, List.filter_filterMap]
  induction h with
  | nil => rfl
  | @cons entry entry' entries entries' hfirst _ ih =>
      have hsame : (pick entry').filter (fun a => among (key a)) =
          (pick entry).filter fun a => among (key a) := by
        by_cases hamong : among entry.offset = true
        · rw [hfirst.2 hamong]
        · -- neither of them is picked
          have hnone : ∀ e : Entry, e.offset = entry.offset →
              (pick e).filter (fun a => among (key a)) = none := by
            intro e he
            cases hpick : pick e with
            | none => rfl
            | some a =>
                rw [Option.filter_some, hkey e a hpick, he, if_neg hamong]
          rw [hnone entry' hfirst.1, hnone entry rfl]
      rw [List.filterMap_cons, List.filterMap_cons, hsame, ih]

/-- Where items agree, one is found among either of them. -/
theorem find?_of_filter_agree {α : Type} {among : Nat → Bool} {key : α → Nat} {items items' : List α}
    (h : items'.filter (fun a => among (key a)) = items.filter fun a => among (key a)) {offset : Nat}
    (hamong : among offset = true) :
    items'.find? (fun a => key a == offset) = items.find? fun a => key a == offset := by
  have hfind : ∀ items : List α, items.find? (fun a => key a == offset) =
      (items.filter fun a => among (key a)).find? fun a => key a == offset := by
    intro items
    rw [List.find?_filter]
    congr 1
    funext a
    by_cases ha : key a = offset
    · simp [ha, hamong]
    · simp [ha]
  rw [hfind items', h, ← hfind items]

namespace Table

theorem agree_ofEntries {among : Nat → Bool} {entries entries' : List Entry}
    (h : List.Forall₂ (Entry.AgreeAt among) entries entries') :
    (∀ offset, among offset = true →
      (ofEntries entries').fde? offset = (ofEntries entries).fde? offset) ∧
    (ofEntries entries').diagnostics.filter (fun diagnostic => among diagnostic.offset) =
      (ofEntries entries).diagnostics.filter fun diagnostic => among diagnostic.offset := by
  refine ⟨?_, filter_filterMap_agree Diagnostic.offset (fun _ _ => Entry.offset_of_diagnostic?) h⟩
  intro offset hamong
  exact find?_of_filter_agree
    (filter_filterMap_agree Fde.offset (fun _ _ => Entry.offset_of_fde?) h) hamong

variable (target : Target) (image : Option Image) (before after : List Record)
  {record record' : Record}

/-- The tables of records that differ in one place agree where neither the record there nor the CIE
that is referred to has changed. -/
theorem agree_ofRecords (among : Nat → Bool) (hoffset : record'.offset = record.offset)
    (hrecord : among record.offset = false)
    (hcies : ∀ other ∈ before ++ after, among other.offset = true → ∀ owner,
      other.kind = .fde owner →
      ((before ++ record' :: after).filterMap (Cie.ofRecord? target)).find? (·.offset == owner) =
        ((before ++ record :: after).filterMap (Cie.ofRecord? target)).find?
          (·.offset == owner)) :
    (∀ offset, among offset = true →
      (ofRecords target image (before ++ record' :: after)).fde? offset =
        (ofRecords target image (before ++ record :: after)).fde? offset) ∧
    (ofRecords target image (before ++ record' :: after)).diagnostics.filter
        (fun diagnostic => among diagnostic.offset) =
      (ofRecords target image (before ++ record :: after)).diagnostics.filter
        fun diagnostic => among diagnostic.offset := by
  refine agree_ofEntries ?_
  generalize (before ++ record :: after).filterMap (Cie.ofRecord? target) = cies at hcies
  generalize (before ++ record' :: after).filterMap (Cie.ofRecord? target) = cies' at hcies
  have hread : ∀ (cies : List Cie) (record : Record),
      (Entry.read target image cies record).offset = record.offset :=
    fun cies record => (Entry.accounts_read target image cies record).offset
  have hothers : ∀ others : List Record, (∀ other ∈ others, other ∈ before ++ after) →
      List.Forall₂ (Entry.AgreeAt among) (others.map (Entry.read target image cies))
        (others.map (Entry.read target image cies')) := by
    intro others hmem
    rw [List.forall₂_map_left_iff, List.forall₂_map_right_iff, List.forall₂_same]
    intro other hother
    refine ⟨by rw [hread, hread], ?_⟩
    intro hamong
    rw [hread] at hamong
    exact Entry.read_congr (hcies other (hmem other hother) hamong)
  rw [List.map_append, List.map_append, List.map_cons, List.map_cons]
  refine List.rel_append (hothers before fun _ h => List.mem_append_left _ h)
    (.cons ⟨?_, ?_⟩ (hothers after fun _ h => List.mem_append_right _ h))
  · rw [hread, hread, hoffset]
  · intro hamong
    rw [hread, hrecord] at hamong
    simp at hamong

/-- Another FDE in the place of an FDE changes nothing but what is said about it. -/
theorem ofRecords_replacedFde (hoffset : record'.offset = record.offset) {owner owner' : Nat}
    (hkind : record.kind = .fde owner) (hkind' : record'.kind = .fde owner') :
    (ofRecords target image (before ++ record' :: after)).cies =
      (ofRecords target image (before ++ record :: after)).cies ∧
    (∀ offset, offset ≠ record.offset →
      (ofRecords target image (before ++ record' :: after)).fde? offset =
        (ofRecords target image (before ++ record :: after)).fde? offset) ∧
    (ofRecords target image (before ++ record' :: after)).diagnostics.filter
        (fun diagnostic => diagnostic.offset != record.offset) =
      (ofRecords target image (before ++ record :: after)).diagnostics.filter
        fun diagnostic => diagnostic.offset != record.offset := by
  have hcies : (before ++ record' :: after).filterMap (Cie.ofRecord? target) =
      (before ++ record :: after).filterMap (Cie.ofRecord? target) := by
    simp [Cie.ofRecord?, hkind, hkind', List.filterMap_append]
  obtain ⟨hfdes, hdiagnostics⟩ := agree_ofRecords target image before after
    (fun offset => offset != record.offset) hoffset (by simp) fun _ _ _ _ _ => by rw [hcies]
  refine ⟨by rw [cies_ofRecords, cies_ofRecords, hcies], ?_, hdiagnostics⟩
  intro offset hne
  exact hfdes offset (by simpa using hne)

/-- Whether a section offset is that of a record, or of one that refers to it. -/
def touches (records : List Record) (record : Record) (offset : Nat) : Bool :=
  records.any fun other =>
    other.offset == offset && (other.offset == record.offset || other.kind == .fde record.offset)

/-- Another CIE in the place of a CIE changes nothing but what is said about it and about the FDEs that
refer to it. -/
theorem ofRecords_replacedCie (hoffset : record'.offset = record.offset) :
    (∀ offset, offset ≠ record.offset →
      (ofRecords target image (before ++ record' :: after)).cie? offset =
        (ofRecords target image (before ++ record :: after)).cie? offset) ∧
    (∀ offset, touches (before ++ record :: after) record offset = false →
      (ofRecords target image (before ++ record' :: after)).fde? offset =
        (ofRecords target image (before ++ record :: after)).fde? offset) ∧
    (ofRecords target image (before ++ record' :: after)).diagnostics.filter
        (fun diagnostic => !touches (before ++ record :: after) record diagnostic.offset) =
      (ofRecords target image (before ++ record :: after)).diagnostics.filter
        fun diagnostic => !touches (before ++ record :: after) record diagnostic.offset := by
  have hlookup : ∀ offset, offset ≠ record.offset →
      ((before ++ record' :: after).filterMap (Cie.ofRecord? target)).find? (·.offset == offset) =
        ((before ++ record :: after).filterMap (Cie.ofRecord? target)).find?
          (·.offset == offset) := by
    intro offset hne
    rw [Cie.find?_ofRecord?_of_ne hne, Cie.find?_ofRecord?_of_ne (hoffset ▸ hne)]
  have hnamed : ∀ other ∈ before ++ after,
      (!touches (before ++ record :: after) record other.offset) = true → ∀ owner,
      other.kind = .fde owner → owner ≠ record.offset := by
    rintro other hother huntouched _ hkind rfl
    have hmem : other ∈ before ++ record :: after := by
      rcases List.mem_append.mp hother with h | h
      · exact List.mem_append_left _ h
      · exact List.mem_append_right _ (List.mem_cons_of_mem _ h)
    have : touches (before ++ record :: after) record other.offset = true :=
      List.any_eq_true.mpr ⟨other, hmem, by simp [hkind]⟩
    simp [this] at huntouched
  obtain ⟨hfdes, hdiagnostics⟩ := agree_ofRecords target image before after
    (fun offset => !touches (before ++ record :: after) record offset) hoffset (by simp [touches])
    fun other hother huntouched owner hkind =>
      hlookup owner (hnamed other hother huntouched owner hkind)
  refine ⟨?_, ?_, hdiagnostics⟩
  · intro offset hne
    rw [cie?, cie?, cies_ofRecords, cies_ofRecords, hlookup offset hne]
  · intro offset huntouched
    exact hfdes offset (by simp [huntouched])

/-- An FDE that does not refer to a CIE is not touched by it. -/
theorem touches_eq_false {records : List Record} {other : Record}
    (hincrease : (records.map Record.offset).Pairwise (· < ·)) (hr : record ∈ records)
    (hkind : record.kind = .cie) (hother : other ∈ records) {owner : Nat}
    (hotherKind : other.kind = .fde owner) (hne : owner ≠ record.offset) :
    touches records record other.offset = false := by
  refine List.any_eq_false.mpr ?_
  intro found hfound
  simp only [Bool.and_eq_true, Bool.or_eq_true, beq_iff_eq, not_and, not_or]
  intro hat
  obtain rfl := eq_of_key_eq hincrease hfound hother hat
  refine ⟨?_, ?_⟩
  · intro hsame
    rw [eq_of_key_eq hincrease hother hr hsame, hkind] at hotherKind
    simp at hotherKind
  · rw [hotherKind]
    simpa using hne

/-- **Damage inside a record stays there.** If two sections differ in the body of one record only and
one of them has a table, the other one has one as well. Where the record is an FDE, the tables have
the same CIEs, the same FDEs at all other section offsets, and the same diagnostics about all other
records. Where it is a CIE, they have the same CIEs at all other section offsets, the same FDEs for all
records that do not refer to it, and the same diagnostics about all of these. -/
theorem parse_isolates {bytes bytes' : List UInt8}
    (hr : record ∈ (Framing.ofSection target.order bytes).records)
    (hsame : SameOutside record.body.offset record.stop bytes bytes') {table : Table}
    (h : parse target image bytes = .ok table) :
    ∃ table', parse target image bytes' = .ok table' ∧
      (∀ owner, record.kind = .fde owner →
        table'.cies = table.cies ∧
        (∀ offset, offset ≠ record.offset → table'.fde? offset = table.fde? offset) ∧
        table'.diagnostics.filter (fun diagnostic => diagnostic.offset != record.offset) =
          table.diagnostics.filter fun diagnostic => diagnostic.offset != record.offset) ∧
      (record.kind = .cie →
        (∀ offset, offset ≠ record.offset → table'.cie? offset = table.cie? offset) ∧
        (∀ other ∈ (Framing.ofSection target.order bytes).records, ∀ owner,
          other.kind = .fde owner → owner ≠ record.offset →
          table'.fde? other.offset = table.fde? other.offset) ∧
        table'.diagnostics.filter (fun diagnostic =>
            !touches (Framing.ofSection target.order bytes).records record diagnostic.offset) =
          table.diagnostics.filter fun diagnostic =>
            !touches (Framing.ofSection target.order bytes).records record diagnostic.offset) := by
  have hincrease := Framing.offsets_increasing target.order bytes
  have hfault := fault_eq_none_of_parse h
  obtain ⟨before, after, body, hrecords, hrecords', hfault'⟩ := Framing.exists_withBody hr hsame
  have hparse' := parse_eq_ofRecords image (hfault'.trans hfault)
  obtain rfl := Except.ok.inj (h.symm.trans (parse_eq_ofRecords image hfault))
  rw [hrecords'] at hparse'
  rw [hrecords] at hr hincrease ⊢
  refine ⟨_, hparse', ?_, ?_⟩
  · intro owner hkind
    exact ofRecords_replacedFde target image before after rfl hkind hkind
  · intro hkind
    have hchanged : { record with body : Record }.offset = record.offset := rfl
    obtain ⟨hcies, hfdes, hdiagnostics⟩ :=
      ofRecords_replacedCie target image before after hchanged
    refine ⟨hcies, ?_, hdiagnostics⟩
    intro other hother owner hotherKind hne
    exact hfdes other.offset (touches_eq_false hincrease hr hkind hother hotherKind hne)

/-- The body of a CIE. -/
def soundBody : List UInt8 := [1, 0x7a, 0x52, 0, 1, 0x78, 16, 1, 0x1b, 0, 0, 0]

/-- The same with a number that has no end. -/
def runawayBody : List UInt8 :=
  [1, 0x7a, 0x52, 0, 0xff, 0xff, 0xff, 0xff, 0xff, 0xff, 0xff, 0xff]

/-- The length and the zero that a CIE with such a body starts with. -/
def cieHeader : List UInt8 := [16, 0, 0, 0, 0, 0, 0, 0]

/-- An FDE that refers to the CIE before it, and another CIE with an FDE. -/
def secondFunction : List UInt8 :=
  [16, 0, 0, 0, 24, 0, 0, 0, 0, 0x10, 0, 0, 0x40, 0, 0, 0, 0, 0, 0, 0,
   16, 0, 0, 0, 0, 0, 0, 0, 1, 0x7a, 0x52, 0, 1, 0x78, 16, 1, 0x1b, 0, 0, 0,
   16, 0, 0, 0, 24, 0, 0, 0, 0, 0x20, 0, 0, 0x40, 0, 0, 0, 0, 0, 0, 0]

/-- A section that starts with a CIE of the given body. -/
def twoFunctions (body : List UInt8) : List UInt8 :=
  cieHeader ++ body ++ secondFunction

/-- The first record of that section. -/
def soundRecord : Record := ⟨0, .dwarf32, 16, .cie, ⟨soundBody, 8⟩⟩

theorem parse_twoFunctions :
    soundRecord ∈ (Framing.ofSection sectionTarget.order (twoFunctions soundBody)).records ∧
      SameOutside soundRecord.body.offset soundRecord.stop (twoFunctions soundBody)
        (twoFunctions runawayBody) ∧
      ∃ table, parse sectionTarget none (twoFunctions soundBody) = .ok table ∧
        ∃ table', parse sectionTarget none (twoFunctions runawayBody) = .ok table' ∧
          (∀ owner, soundRecord.kind = .fde owner →
            table'.cies = table.cies ∧
            (∀ offset, offset ≠ soundRecord.offset → table'.fde? offset = table.fde? offset) ∧
            table'.diagnostics.filter (fun diagnostic => diagnostic.offset != soundRecord.offset) =
              table.diagnostics.filter fun diagnostic =>
                diagnostic.offset != soundRecord.offset) ∧
          (soundRecord.kind = .cie →
            (∀ offset, offset ≠ soundRecord.offset → table'.cie? offset = table.cie? offset) ∧
            (∀ other ∈
                (Framing.ofSection sectionTarget.order (twoFunctions soundBody)).records,
              ∀ owner, other.kind = .fde owner → owner ≠ soundRecord.offset →
              table'.fde? other.offset = table.fde? other.offset) ∧
            table'.diagnostics.filter (fun diagnostic => !touches
                (Framing.ofSection sectionTarget.order (twoFunctions soundBody)).records
                soundRecord diagnostic.offset) =
              table.diagnostics.filter fun diagnostic => !touches
                (Framing.ofSection sectionTarget.order (twoFunctions soundBody)).records
                soundRecord diagnostic.offset) := by
  have hread : Record.read .little (.ofSection (twoFunctions soundBody)) =
      .ok (some (soundRecord, ⟨(twoFunctions soundBody).drop 20, 20⟩)) := by cbv
  have hmem : soundRecord ∈
      (Framing.ofSection sectionTarget.order (twoFunctions soundBody)).records := by
    show soundRecord ∈ (RecordStream.ofWindow .little (.ofSection _)).drain.records
    rw [RecordStream.drain_of_record hread]
    exact List.mem_cons_self
  have hsame : SameOutside soundRecord.body.offset soundRecord.stop (twoFunctions soundBody)
      (twoFunctions runawayBody) :=
    SameOutside.of_append cieHeader secondFunction
      (show runawayBody.length = soundBody.length from rfl)
  have hends : (Framing.ofSection sectionTarget.order (twoFunctions soundBody)).fault = none := by
    cbv
  have hparse := parse_eq_ofRecords none hends
  exact ⟨hmem, hsame, _, hparse, parse_isolates sectionTarget none hmem hsame hparse⟩

end Table

end UnwindTables
