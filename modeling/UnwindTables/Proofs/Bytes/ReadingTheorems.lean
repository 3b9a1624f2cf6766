/-
UnwindTables.Proofs.Bytes.ReadingTheorems — readings by cursors agree with the readers of windows.

A reading that starts with a cursor in its slice comes to its end without a trap, every event of it is sound, and it
gives what the reader of windows of the same name gives (`Reading.Gives`). That is said of each operation here, and
of sequences of them.

## How the proofs go

Each operation asks for one field at most, so `Reading.gives_logged` is the one place where an event is checked, and
an operation has to show two things only: how it ends, and what the reader of the window says (`Cursor.Takes`). A
reading made of several operations follows the reader of windows step by step (`Reading.Gives.bind`,
`Reading.Follows.bind`).
-/
import UnwindTables.Proofs.Bytes.CursorTheorems

namespace UnwindTables

/-! ## 1. What a reading gives -/

/-- A cursor ends as the reader of its window says: with a value in the relation `rel`, where the reader leaves off,
or with the same fault. -/
inductive Cursor.Agrees {α β : Type} (loaded : LoadedSection) (rel : α → β → Prop) (cursor : Cursor) :
    Except Fault α × Cursor → Except Fault (β × Window) → Prop
  | ok {value : α} {value' : β} {after : Cursor} (hrel : rel value value')
      (hwithin : after.Within loaded.bytes) (hsame : after.SameSlice cursor) :
      Agrees loaded rel cursor (.ok value, after) (.ok (value', after.window))
  | error {fault : Fault} {after : Cursor} (hwithin : after.Within loaded.bytes)
      (hsame : after.SameSlice cursor)
      (hplace : ∀ offset reason, fault = .malformed offset reason → offset = after.place) :
      Agrees loaded rel cursor (.error fault, after) (.error fault)

/-- The next bytes of a cursor. -/
structure Cursor.FrontIs (cursor : Cursor) (count : Nat) (taken taken' : List UInt8) : Prop where
  same : taken = taken'
  front : taken = cursor.window.bytes.take count
  count_le : count ≤ cursor.window.size

theorem Cursor.FrontIs.length_eq {cursor : Cursor} {count : Nat} {taken taken' : List UInt8}
    (h : cursor.FrontIs count taken taken') : taken.length = count := by
  rw [h.front, List.length_take]
  exact Nat.min_eq_left h.count_le

/-- A cursor is where a window is. -/
structure Cursor.Shows (loaded : LoadedSection) (cursor : Cursor) (window : Window) : Prop where
  within : cursor.Within loaded.bytes
  window_eq : cursor.window = window

/-- An operation takes a field or leaves its cursor, as the reader of the window does. -/
inductive Cursor.Takes {α β : Type} (cursor : Cursor) (field : CursorField) (rel : α → β → Prop) :
    Run (Except Fault α × Cursor) → Except Fault (β × Window) → Prop
  | field {value : α} {value' : β} {size : Nat} (hsize : field.size? cursor.window.bytes = some size)
      (hrel : rel value value') :
      Takes cursor field rel (pure (.ok value, cursor.advance size))
        (.ok (value', cursor.window.drop size))
  | nothing {fault : Fault} (hsize : field.size? cursor.window.bytes = none)
      (hplace : ∀ offset reason, fault = .malformed offset reason → offset = cursor.place) :
      Takes cursor field rel (pure (.error fault, cursor)) (.error fault)

namespace Cursor.Takes

variable {α β : Type} {loaded : LoadedSection} {cursor : Cursor} {field : CursorField} {rel : α → β → Prop}

/-- A field is found, and the cursor moves by its bytes. -/
theorem found {value : α} {value' : β} {size : Nat} (hcursor : cursor.Within loaded.bytes)
    (hsize : field.size? cursor.window.bytes = some size) (hrel : rel value value') :
    cursor.Takes field rel (cursor.move size >>= fun after => pure (.ok value, after))
      (.ok (value', cursor.window.drop size)) := by
  rw [hcursor.move_eq (CursorField.size_le hsize), Run.pure_bind]
  exact .field hsize hrel

/-- A field is missing, and the cursor says where. -/
theorem missing (reason : Malformation) (hcursor : cursor.Within loaded.bytes)
    (hsize : field.size? cursor.window.bytes = none) :
    cursor.Takes field rel (cursor.malformed reason >>= fun fault => pure (.error fault, cursor))
      (.error (cursor.window.fault reason)) := by
  rw [hcursor.malformed_eq, Run.pure_bind]
  refine .nothing hsize ?_
  intro offset reason' hfault
  exact (Fault.malformed.inj hfault).1.symm

end Cursor.Takes

/-- What a cursor comes to is the same for all cursors of its slice. -/
theorem Cursor.Agrees.of_sameSlice {α β : Type} {loaded : LoadedSection} {rel : α → β → Prop}
    {cursor other : Cursor} {ending : Except Fault α × Cursor} {result : Except Fault (β × Window)}
    (h : cursor.Agrees loaded rel ending result) (hsame : cursor.SameSlice other) :
    other.Agrees loaded rel ending result := by
  cases h with
  | ok hrel hwithin hafter => exact .ok hrel hwithin (hafter.trans hsame)
  | error hwithin hafter hplace => exact .error hwithin (hafter.trans hsame) hplace

namespace Reading

/-- A reading comes to its end, and gives what the reader of the window gives. -/
def Gives {α β : Type} (loaded : LoadedSection) (reading : Reading α) (cursor : Cursor)
    (rel : α → β → Prop) (result : Except Fault (β × Window)) : Prop :=
  Run.Ends (Event.Sound loaded) (reading cursor) fun ending => cursor.Agrees loaded rel ending result

variable {α β γ δ : Type} {loaded : LoadedSection} {cursor : Cursor} {rel : α → β → Prop}
  {rel' : γ → δ → Prop} {reading : Reading α} {result : Except Fault (β × Window)}

/-- **A reading is sound if each of its operations takes its field or leaves the cursor.** -/
theorem gives_logged {field : CursorField} {operation : Reading α} (hcursor : cursor.Within loaded.bytes)
    (haddressed : field.Addressed loaded.target cursor.place)
    (h : cursor.Takes field rel (operation cursor) result) :
    (logged field operation).Gives loaded cursor rel result := by
  rw [Gives, logged]
  generalize operation cursor = run at h
  cases h with
  | field hsize hrel =>
      have hafter := hcursor.advance (CursorField.size_le hsize)
      rw [Run.pure_bind]
      refine Run.Ends.log_bind ?_ (Run.Ends.pure ?_)
      · exact ⟨hcursor, hafter, haddressed, fun _ => ⟨_, hsize, rfl⟩, by simp⟩
      · rw [← Cursor.window_advance]
        exact .ok hrel hafter (cursor.sameSlice_advance _)
  | nothing hsize hplace =>
      rw [Run.pure_bind]
      refine Run.Ends.log_bind ?_ (Run.Ends.pure ?_)
      · refine ⟨hcursor, hcursor, haddressed, by simp, ?_⟩
        intro cause hcause
        obtain rfl := Option.some.inj hcause
        exact ⟨hsize, rfl, hplace⟩
      · exact .error hcursor (.refl cursor) hplace

/-! ## 2. Sequences -/

theorem gives_pure {value : α} {value' : β} (hrel : rel value value')
    (hcursor : cursor.Within loaded.bytes) :
    Gives loaded (pure value) cursor rel (.ok (value', cursor.window)) :=
  Run.Ends.pure (.ok hrel hcursor (.refl cursor))

/-- **A sequence follows the reader of windows step by step.** -/
theorem Gives.bind {more : α → Reading γ} {next : β × Window → Except Fault (δ × Window)}
    (h : reading.Gives loaded cursor rel result)
    (hmore : ∀ value value' after, rel value value' → after.Within loaded.bytes →
      (more value).Gives loaded after rel' (next (value', after.window))) :
    (reading >>= more).Gives loaded cursor rel' (result >>= next) := by
  refine Run.Ends.bind h ?_
  intro ending hagrees
  cases hagrees with
  | ok hrel hwithin hsame =>
      exact (hmore _ _ _ hrel hwithin).mono fun _ hending => hending.of_sameSlice hsame
  | error hwithin hsame hplace => exact Run.Ends.pure (.error hwithin hsame hplace)

/-- A reading finds a value out and leaves the cursor as it is. -/
def Finds {ε : Type} (loaded : LoadedSection) (reading : Reading ε) (cursor : Cursor) (value : ε) : Prop :=
  Run.Ends (Event.Sound loaded) (reading cursor) (· = (.ok value, cursor))

variable {ε : Type} {finding : Reading ε} {found : ε} {more : ε → Reading α}

theorem Finds.bind (h : finding.Finds loaded cursor found)
    (hmore : (more found).Gives loaded cursor rel result) :
    (finding >>= more).Gives loaded cursor rel result :=
  Run.Ends.andThen h hmore

theorem finds_lift {run : Run ε} (h : run.Ends (Event.Sound loaded) (· = found)) :
    (liftM run : Reading ε).Finds loaded cursor found :=
  Run.Ends.andThen h (Run.Ends.pure rfl)

theorem finds_offset (hcursor : cursor.Within loaded.bytes) :
    offset.Finds loaded cursor cursor.place :=
  finds_lift hcursor.ends_offset

theorem finds_len (hcursor : cursor.Within loaded.bytes) :
    len.Finds loaded cursor cursor.window.size :=
  finds_lift hcursor.ends_len

/-- A reading may end with something that needs no cursor. -/
theorem gives_lift {run : Run α} {value' : β} (h : run.Ends (Event.Sound loaded) (rel · value'))
    (hcursor : cursor.Within loaded.bytes) :
    (liftM run : Reading α).Gives loaded cursor rel (.ok (value', cursor.window)) :=
  Run.Ends.bind h fun _ hrel => Run.Ends.pure (.ok hrel hcursor (.refl cursor))

/-! ## 3. The operations -/

theorem gives_unsigned (hcursor : cursor.Within loaded.bytes) :
    unsigned.Gives loaded cursor Eq cursor.window.unsigned := by
  refine gives_logged hcursor trivial ?_
  rw [hcursor.remaining_eq, Run.pure_bind, Window.unsigned]
  cases hread : Leb128.readUnsigned cursor.window.bytes with
  | none => exact .missing _ hcursor (by simp [CursorField.size?, hread])
  | some found => exact .found hcursor (by simp [CursorField.size?, hread]) rfl

theorem gives_signed (hcursor : cursor.Within loaded.bytes) :
    signed.Gives loaded cursor Eq cursor.window.signed := by
  refine gives_logged hcursor trivial ?_
  rw [hcursor.remaining_eq, Run.pure_bind, Window.signed]
  cases hread : Leb128.readSigned cursor.window.bytes with
  | none => exact .missing _ hcursor (by simp [CursorField.size?, hread])
  | some found => exact .found hcursor (by simp [CursorField.size?, hread]) rfl

theorem gives_text (hcursor : cursor.Within loaded.bytes) :
    text.Gives loaded cursor Eq cursor.window.text := by
  refine gives_logged hcursor trivial ?_
  rw [hcursor.remaining_eq, Run.pure_bind, Window.text_eq]
  cases hfind : cursor.window.bytes.findIdx? (· == 0) with
  | none => exact .missing _ hcursor (by simp [CursorField.size?, hfind])
  | some size =>
      have hlt := (List.findIdx?_eq_some_iff_getElem.mp hfind).1
      have hlength : cursor.window.bytes.length ≤ loaded.bytes.length := hcursor.size_le
      have hfits := loaded.fits
      simp only [Run.add_eq (show size + 1 < 2 ^ 64 by omega), Run.pure_bind,
        Run.slice_eq (Nat.zero_le size) (Nat.le_of_lt hlt), List.drop_zero]
      exact .found hcursor (by simp [CursorField.size?, hfind]) rfl

theorem gives_pointerAt (hcursor : cursor.Within loaded.bytes) (encoding : PointerEncoding)
    (function : Option UInt64) :
    (pointerAt encoding loaded.target.order (loaded.target.site cursor.place function)).Gives loaded
      cursor Eq (cursor.window.pointer loaded.target encoding function) := by
  refine gives_logged hcursor ⟨rfl, rfl⟩ ?_
  rw [hcursor.remaining_eq, Run.pure_bind, Window.pointer]
  have hoffset : cursor.window.offset = cursor.place := rfl
  rw [hoffset]
  cases hresolve : encoding.resolve loaded.target.order (loaded.target.site cursor.place function)
      cursor.window.bytes with
  | ok found => exact .found hcursor (by simp [CursorField.size?, hresolve]) rfl
  | error fault =>
      have hsize : CursorField.size? (.pointer encoding loaded.target.order
          (loaded.target.site cursor.place function)) cursor.window.bytes = none := by
        simp [CursorField.size?, hresolve]
      obtain rfl | ⟨byte, rfl⟩ | ⟨application, rfl⟩ := PointerEncoding.resolve_eq_error hresolve
      · exact .missing _ hcursor hsize
      · exact .nothing hsize (by simp)
      · exact .nothing hsize (by simp)

theorem gives_bytes (hcursor : cursor.Within loaded.bytes) (count : Nat) :
    (bytes count).Gives loaded cursor (cursor.FrontIs count) (cursor.window.front count) := by
  refine gives_logged hcursor trivial ?_
  rw [hcursor.len_eq, Run.pure_bind, Window.front]
  by_cases hcount : count ≤ cursor.window.size
  · have hpos := hcursor.pos_le
    have hlength := hcursor.stop_le
    have hfits := loaded.fits
    have hsize := cursor.size_window
    rw [if_neg (Nat.not_lt.mpr hcount), if_pos hcount, Run.add_eq (by omega), Run.pure_bind,
      Run.slice_eq (by omega) (by omega), Run.pure_bind]
    have hslice : (cursor.data.take (cursor.pos + count)).drop cursor.pos =
        cursor.window.bytes.take count := by
      rw [List.drop_take, Nat.add_sub_cancel_left]
      rfl
    rw [hslice]
    exact .found hcursor (if_pos hcount) ⟨rfl, rfl, hcount⟩
  · rw [if_pos (Nat.not_le.mp hcount), if_neg hcount]
    exact .missing _ hcursor (if_neg hcount)

theorem gives_pointer (hcursor : cursor.Within loaded.bytes) (encoding : PointerEncoding)
    (function : Option UInt64) :
    (pointer loaded.target encoding function).Gives loaded cursor Eq
      (cursor.window.pointer loaded.target encoding function) := by
  refine (finds_offset hcursor).bind ?_
  exact gives_pointerAt hcursor encoding function

theorem gives_byte (hcursor : cursor.Within loaded.bytes) :
    byte.Gives loaded cursor Eq cursor.window.byte := by
  rw [Window.byte_eq]
  refine (gives_bytes hcursor 1).bind ?_
  intro taken taken' after hfront hafter
  obtain rfl := hfront.same
  obtain ⟨first, rfl⟩ := List.length_eq_one_iff.mp hfront.length_eq
  exact gives_lift (Run.Ends.pure rfl) hafter

theorem gives_word (hcursor : cursor.Within loaded.bytes) (order : ByteOrder) (width : Nat) :
    (word order width).Gives loaded cursor Eq (cursor.window.word order width) := by
  rw [Window.word_eq]
  refine (gives_bytes hcursor width).bind ?_
  intro taken taken' after hfront hafter
  obtain rfl := hfront.same
  have hread : order.read? width taken = some (order.value taken) := by
    rw [ByteOrder.read?, List.take_of_length_le (Nat.le_of_eq hfront.length_eq),
      if_pos hfront.length_eq]
  rw [hread]
  exact gives_lift (Run.Ends.pure rfl) hafter

/-- A number is missing at the end of a slice. Its fault names the offset where it would start, and the cursor stays
there. -/
example : ((do let first ← byte; return (first, ← word .little 4)) : Reading (UInt8 × Nat))
    ⟨[1, 2, 3], 0x40, 0⟩ =
      .ok ((.error (.malformed 0x41 .unexpectedEnd), ⟨[1, 2, 3], 0x40, 1⟩),
        [.read (.bytes 1) ⟨[1, 2, 3], 0x40, 0⟩ ⟨[1, 2, 3], 0x40, 1⟩ none,
          .read (.bytes 4) ⟨[1, 2, 3], 0x40, 1⟩ ⟨[1, 2, 3], 0x40, 1⟩
            (some (.malformed 0x41 .unexpectedEnd))]) := by
  rfl

/-- The next bytes with a cursor of their own are the next bytes as a window of their own. -/
theorem gives_split (hcursor : cursor.Within loaded.bytes) (count : Nat) :
    (split count).Gives loaded cursor (Cursor.Shows loaded) (cursor.window.split count) := by
  rw [Window.split_eq]
  refine (finds_offset hcursor).bind ?_
  refine (gives_bytes hcursor count).bind ?_
  intro taken taken' after hfront hafter
  obtain rfl := hfront.same
  have hblock := hcursor.front hfront.count_le
  rw [← hfront.front] at hblock
  exact gives_lift ((Cursor.ends_new hblock).mono fun _ hnew => hnew ▸ ⟨hblock, rfl⟩) hafter

theorem gives_skip (hcursor : cursor.Within loaded.bytes) :
    (skip cursor.window.size).Gives loaded cursor (fun _ (_ : Unit) => True)
      (.ok ((), cursor.window.dropAll)) := by
  have hall : (.ok ((), cursor.window.dropAll) : Except Fault (Unit × Window)) =
      cursor.window.front cursor.window.size >>= fun read => .ok ((), read.2) := by
    rw [Window.front, if_pos (Nat.le_refl _)]
    rfl
  rw [hall]
  exact (gives_bytes hcursor _).bind fun _ _ _ _ hafter => gives_pure trivial hafter

theorem gives_block (hcursor : cursor.Within loaded.bytes) :
    block.Gives loaded cursor (Cursor.Shows loaded) cursor.window.block := by
  refine (gives_unsigned hcursor).bind ?_
  intro length length' after hlength hafter
  obtain rfl := hlength
  exact gives_split hafter length.toNat

/-! ## 4. What a reading comes to

A reading may end in the middle of a window, and what it gives may not be what the reader of the window gives: a
window in a value is a cursor then. -/

/-- The end of a reading and a result are values in a relation, or the same fault. -/
inductive ComesTo {α β : Type} (rel : α → Cursor → β → Prop) :
    Except Fault α × Cursor → Except Fault β → Prop
  | ok {value : α} {after : Cursor} {value' : β} (h : rel value after value') :
      ComesTo rel (.ok value, after) (.ok value')
  | error {fault : Fault} {after : Cursor} : ComesTo rel (.error fault, after) (.error fault)

/-- A reading comes to its end, and to the result. -/
def Follows {α β : Type} (loaded : LoadedSection) (reading : Reading α) (cursor : Cursor)
    (rel : α → Cursor → β → Prop) (result : Except Fault β) : Prop :=
  Run.Ends (Event.Sound loaded) (reading cursor) fun ending => ComesTo rel ending result

/-- A reading comes to its end with the value of the result, wherever the cursor is then. -/
abbrev Yields {α : Type} (loaded : LoadedSection) (reading : Reading α) (cursor : Cursor)
    (result : Except Fault α) : Prop :=
  reading.Follows loaded cursor (fun value _ value' => value = value') result

/-- A value is given, and the cursor is where the window is that is left. -/
structure Leaves {α β : Type} (loaded : LoadedSection) (cursor : Cursor) (rel : α → β → Prop)
    (value : α) (after : Cursor) (left : β × Window) : Prop where
  value : rel value left.1
  same : after.SameSlice cursor
  shows : after.Shows loaded left.2

section

variable {α β γ δ ε : Type} {loaded : LoadedSection} {cursor block : Cursor}
  {rel : α → Cursor → β → Prop} {rel' : γ → Cursor → δ → Prop} {reading : Reading α}
  {result : Except Fault β} {result' : Except Fault δ}

theorem Gives.follows {rel : α → β → Prop} {result : Except Fault (β × Window)}
    (h : reading.Gives loaded cursor rel result) :
    reading.Follows loaded cursor (Leaves loaded cursor rel) result := by
  refine Run.Ends.mono h ?_
  intro ending hagrees
  cases hagrees with
  | ok hrel hwithin hsame => exact .ok ⟨hrel, hsame, hwithin, rfl⟩
  | error => exact .error

theorem follows_pure {value : α} {value' : β} (h : rel value cursor value') :
    Follows loaded (pure value) cursor rel (.ok value') :=
  Run.Ends.pure (.ok h)

theorem follows_fail (fault : Fault) :
    Follows loaded (fail fault : Reading α) cursor rel (.error fault) :=
  Run.Ends.pure .error

/-- **A sequence is followed step by step.** -/
theorem Follows.bind {more : α → Reading γ} {next : β → Except Fault δ}
    (h : reading.Follows loaded cursor rel result)
    (hmore : ∀ value after value', rel value after value' →
      (more value).Follows loaded after rel' (next value')) :
    (reading >>= more).Follows loaded cursor rel' (result >>= next) := by
  refine Run.Ends.bind h ?_
  intro ending hcomes
  cases hcomes with
  | ok hrel => exact hmore _ _ _ hrel
  | error => exact Run.Ends.pure .error

/-- A step without a fault is followed by what comes next. -/
theorem Follows.andThen {more : α → Reading γ} {value' : β}
    (h : reading.Follows loaded cursor rel (.ok value'))
    (hmore : ∀ value after, rel value after value' →
      (more value).Follows loaded after rel' result') :
    (reading >>= more).Follows loaded cursor rel' result' := by
  refine Run.Ends.bind h ?_
  intro ending hcomes
  cases hcomes with
  | ok hrel => exact hmore _ _ hrel

/-- What is read is given on together with what is left. -/
theorem Gives.andThen {more : α → Reading γ} {result : Except Fault (α × Window)}
    {next : α × Window → Except Fault δ} (h : reading.Gives loaded cursor Eq result)
    (hmore : ∀ value after, after.Within loaded.bytes → after.SameSlice cursor →
      (more value).Follows loaded after rel' (next (value, after.window))) :
    (reading >>= more).Follows loaded cursor rel' (result >>= next) := by
  refine h.follows.bind ?_
  intro value after left hleaves
  obtain ⟨value', rest⟩ := left
  obtain ⟨hvalue, hsame, hafter, hrest⟩ := hleaves
  obtain rfl : value = value' := hvalue
  obtain rfl : after.window = rest := hrest
  exact hmore value after hafter hsame

/-- What is yielded is given on. -/
theorem Yields.andThen {more : α → Reading γ} {result : Except Fault α} {next : α → Except Fault δ}
    (h : reading.Yields loaded cursor result)
    (hmore : ∀ value after, (more value).Follows loaded after rel' (next value)) :
    (reading >>= more).Follows loaded cursor rel' (result >>= next) := by
  refine Follows.bind h ?_
  intro value after value' hvalue
  obtain rfl := hvalue
  exact hmore value after

/-- A step that needs no cursor is the same step for the reader of windows. -/
theorem follows_ofExcept_bind (outcome : Except Fault α) {more : α → Reading γ} {next : α → Except Fault δ}
    (hmore : ∀ value, (more value).Follows loaded cursor rel' (next value)) :
    (ofExcept outcome >>= more).Follows loaded cursor rel' (outcome >>= next) := by
  cases outcome with
  | ok value => exact Run.Ends.andThen (Run.Ends.pure rfl) (hmore value)
  | error fault => exact Run.Ends.andThen (Run.Ends.pure rfl) (Run.Ends.pure .error)

theorem Finds.andThen {finding : Reading ε} {found : ε} {more : ε → Reading α}
    (h : finding.Finds loaded cursor found) (hmore : (more found).Follows loaded cursor rel result) :
    (finding >>= more).Follows loaded cursor rel result :=
  Run.Ends.andThen h hmore

/-- What another cursor comes to leaves the own one as it is. -/
theorem Follows.on (h : reading.Follows loaded block rel result) :
    (reading.on block).Follows loaded cursor
      (fun found after value' => rel found.1 found.2 value' ∧ after = cursor) result := by
  refine Run.Ends.bind h ?_
  intro ending hcomes
  cases hcomes with
  | ok hrel => exact Run.Ends.pure (.ok ⟨hrel, rfl⟩)
  | error => exact Run.Ends.pure .error

/-- A fault that is looked at is a value. -/
theorem Follows.attempt (h : reading.Follows loaded cursor rel result) :
    reading.attempt.Follows loaded cursor
      (fun outcome after result' => ComesTo rel (outcome, after) result') (.ok result) :=
  Run.Ends.bind h fun _ hcomes => Run.Ends.pure (.ok hcomes)

/-- A fault that is looked at has left the cursor in its slice, where the field is that could not be read. -/
theorem Gives.attempt {rel : α → β → Prop} {result : Except Fault (β × Window)}
    (h : reading.Gives loaded cursor rel result) :
    reading.attempt.Follows loaded cursor
      (fun outcome after result' => cursor.Agrees loaded rel (outcome, after) result') (.ok result) :=
  Run.Ends.bind h fun _ hagrees => Run.Ends.pure (.ok hagrees)

end

end Reading

end UnwindTables
