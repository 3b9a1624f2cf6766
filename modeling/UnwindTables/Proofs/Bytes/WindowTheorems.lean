/-
UnwindTables.Proofs.Bytes.WindowTheorems — readers stay in the window they are given.

A record and a block are read through windows that end where they end. What has to hold for damage
to stay inside them is the same for every reader: what it leaves is a part of its window, and a
fault that names a section offset names one of the window. `Window.Stays` says both.

## How the proofs go

Every reader of `Window` takes some bytes from the front, and `stays_drop` is the one argument for
all of them: as many bytes are taken as there are at most. A sequence of readers is followed by
`Window.Blames.read`, which moves on to what the reader before has left. Where a field has been read,
`Window.Leaves` says more than `Stays`: what is left ends where the window does.
-/
import UnwindTables.Bytes.Window
import UnwindTables.Steps

namespace UnwindTables

/-! ## 1. Where a fault is -/

namespace Fault

/-- The section offset at which a field could not be read, if that is what the fault is about. -/
def place? : Fault → Option Nat
  | malformed offset _ | invalidAugmentation offset | truncatedRecord offset => some offset
  | _ => none

/-- The fault is one of reading a field of a window: it names no section offset outside of it, and
it is neither about a value without a window nor about a search table. -/
structure BlamesIn (window : Window) (fault : Fault) : Prop where
  place : ∀ offset, fault.place? = some offset → window.offset ≤ offset ∧ offset ≤ window.stop
  located : fault ≠ .truncatedValue
  own : ∀ initialLocation fdeAddress, fault ≠ .staleSearchEntry initialLocation fdeAddress

/-- A fault of a window is placed at its start. -/
theorem blamesIn_fault (window : Window) (reason : Malformation) :
    (window.fault reason).BlamesIn window := by
  refine ⟨?_, ?_, ?_⟩
  · intro offset h
    have : window.offset = offset := by simpa [Window.fault, place?] using h
    have : window.offset ≤ window.stop := Nat.le_add_right _ _
    omega
  · simp [Window.fault]
  · simp [Window.fault]

theorem blamesIn_unsupportedEncoding (window : Window) (byte : UInt8) :
    (unsupportedEncoding byte).BlamesIn window :=
  ⟨by simp [place?], by simp, by simp⟩

/-- What a fault means inside a record is placed where the fault is. -/
theorem BlamesIn.withinRecord {window : Window} {fault : Fault} (h : fault.BlamesIn window) :
    fault.withinRecord.BlamesIn window := by
  cases fault with
  | malformed offset reason => exact ⟨h.place, by simp [Fault.withinRecord],
      by simp [Fault.withinRecord]⟩
  | _ => exact h

/-- What a fault means inside a block is placed where the fault is. -/
theorem BlamesIn.withinBlock {window : Window} {fault : Fault} (h : fault.BlamesIn window) :
    fault.withinBlock.BlamesIn window := by
  cases fault with
  | malformed offset reason => exact ⟨h.place, by simp [Fault.withinBlock],
      by simp [Fault.withinBlock]⟩
  | _ => exact h

end Fault

namespace Window

/-! ## 2. Parts of a window -/

/-- One window is a part of another, by the section offsets they cover. -/
structure Within (inner outer : Window) : Prop where
  start : outer.offset ≤ inner.offset
  stop : inner.stop ≤ outer.stop

theorem Within.refl (window : Window) : window.Within window := ⟨Nat.le_refl _, Nat.le_refl _⟩

theorem Within.trans {inner middle outer : Window} (h : inner.Within middle)
    (h' : middle.Within outer) : inner.Within outer :=
  ⟨Nat.le_trans h'.start h.start, Nat.le_trans h.stop h'.stop⟩

@[simp] theorem offset_drop (window : Window) (n : Nat) :
    (window.drop n).offset = window.offset + n := rfl

theorem within_drop {window : Window} {n : Nat} (h : n ≤ window.size) :
    (window.drop n).Within window := by
  refine ⟨Nat.le_add_right _ _, ?_⟩
  simp only [stop, size_drop, offset_drop]
  omega

end Window

/-- A fault of a part of a window is one of the window. -/
theorem Fault.BlamesIn.mono {inner outer : Window} {fault : Fault} (h : fault.BlamesIn inner)
    (hw : inner.Within outer) : fault.BlamesIn outer := by
  refine ⟨?_, h.located, h.own⟩
  intro offset ho
  obtain ⟨hstart, hstop⟩ := h.place offset ho
  exact ⟨Nat.le_trans hw.start hstart, Nat.le_trans hstop hw.stop⟩

/-! ## 3. Faults of pointers -/

/-- A pointer that cannot be resolved has a value that does not end, or no base. -/
theorem PointerEncoding.resolve_eq_error {encoding : PointerEncoding} {order : ByteOrder} {site : Site}
    {bytes : List UInt8} {fault : Fault} (h : encoding.resolve order site bytes = .error fault) :
    fault = .truncatedValue ∨ (∃ byte, fault = .unsupportedEncoding byte) ∨
      ∃ application, fault = .missingBase application := by
  unfold resolve at h
  split at h
  · exact Or.inl (Except.error.inj h).symm
  · split at h
    · next hb =>
        obtain rfl := Except.error.inj h
        refine Or.inr ?_
        cases ha : encoding.application <;> rw [ha] at hb <;>
          simp only [Site.base, Site.base.known] at hb
        case absolute | pcrel => simp at hb
        case aligned => exact Or.inl ⟨_, (Except.error.inj hb).symm⟩
        all_goals
          split at hb
          · simp at hb
          · exact Or.inr ⟨_, (Except.error.inj hb).symm⟩
    · simp at h

namespace Window

variable {α β : Type}

/-! ## 4. Readers -/

/-- A result of reading in a window: its fault, if it is one, is one of the window. -/
def Blames (window : Window) (result : Except Fault β) : Prop :=
  ∀ fault, result = .error fault → fault.BlamesIn window

/-- A result of reading from the front of a window: what is left is a part of it. -/
structure Stays (window : Window) (result : Except Fault (α × Window)) : Prop where
  rest : ∀ value rest, result = .ok (value, rest) → rest.Within window
  blames : window.Blames result

theorem blames_ok (window : Window) (value : β) : window.Blames (.ok value) := by
  intro fault h
  simp at h

theorem blames_error {window : Window} {fault : Fault} (h : fault.BlamesIn window) :
    window.Blames (.error fault : Except Fault β) := by
  intro _ hf
  rw [← Except.error.inj hf]
  exact h

theorem blames_pure (window : Window) (value : β) :
    window.Blames (pure value : Except Fault β) :=
  blames_ok window value

theorem Blames.mono {inner outer : Window} {result : Except Fault β} (h : inner.Blames result)
    (hw : inner.Within outer) : outer.Blames result :=
  fun fault hf => (h fault hf).mono hw

/-- A sequence fails with a fault of a window if each of its steps does. -/
theorem Blames.bind {window : Window} {first : Except Fault α} {next : α → Except Fault β}
    (h : window.Blames first) (hn : ∀ value, first = .ok value → window.Blames (next value)) :
    window.Blames (first >>= next) := by
  intro fault hf
  rcases Steps.bind_eq_error.mp hf with hf | ⟨value, hv, hf⟩
  · exact h fault hf
  · exact hn value hv fault hf

/-- A reader at the front of a part of a window, followed by readers of what it has left. -/
theorem Blames.read {window outer : Window} {first : Except Fault (α × Window)}
    {next : α × Window → Except Fault β} (hw : window.Within outer) (h : window.Stays first)
    (hn : ∀ value rest, first = .ok (value, rest) → rest.Within outer →
      outer.Blames (next (value, rest))) :
    outer.Blames (first >>= next) := by
  refine Blames.bind (h.blames.mono hw) ?_
  rintro ⟨value, rest⟩ hv
  exact hn value rest hv ((h.rest value rest hv).trans hw)

/-- A reader that takes no more bytes than there are stays in its window. -/
theorem stays_drop {window : Window} (value : α) {n : Nat} (h : n ≤ window.size) :
    window.Stays (.ok (value, window.drop n)) := by
  refine ⟨?_, blames_ok window _⟩
  intro _ rest hr
  obtain ⟨-, rfl⟩ := Prod.mk.inj (Except.ok.inj hr)
  exact within_drop h

theorem stays_error {window : Window} {fault : Fault} (h : fault.BlamesIn window) :
    window.Stays (.error fault : Except Fault (α × Window)) :=
  ⟨by simp, blames_error h⟩

theorem stays_fault (window : Window) (reason : Malformation) :
    window.Stays (.error (window.fault reason) : Except Fault (α × Window)) :=
  stays_error (Fault.blamesIn_fault window reason)

theorem stays_byte (window : Window) : window.Stays window.byte := by
  unfold byte
  split
  · exact stays_fault window _
  · next bytes hb =>
      refine stays_drop _ ?_
      simp [size, hb]

/-- A number leaves what comes after its bytes. -/
theorem rest_of_word {window rest : Window} {order : ByteOrder} {width n : Nat}
    (h : window.word order width = .ok (n, rest)) :
    width ≤ window.size ∧ rest = window.drop width := by
  have hs := size_of_word h
  refine ⟨by omega, ?_⟩
  unfold word at h
  split at h
  · simp at h
  · exact (Prod.mk.inj (Except.ok.inj h)).2.symm

theorem stays_unsigned (window : Window) : window.Stays window.unsigned := by
  unfold unsigned
  split
  · exact stays_fault window _
  · next hr => exact stays_drop _ (Leb128.size_of_readUnsigned hr).2

theorem stays_signed (window : Window) : window.Stays window.signed := by
  unfold signed
  split
  · exact stays_fault window _
  · next hr => exact stays_drop _ (Leb128.size_of_readSigned hr).2

theorem stays_text (window : Window) : window.Stays window.text := by
  simp only [text]
  split
  · exact stays_drop _ ‹_›
  · exact stays_fault window _

theorem stays_split (window : Window) (n : Nat) : window.Stays (window.split n) := by
  unfold split
  split
  · exact stays_drop _ ‹_›
  · exact stays_fault window _

/-- The two sides of a cut. -/
theorem sides_of_split {window content rest : Window} {n : Nat}
    (h : window.split n = .ok (content, rest)) :
    content.offset = window.offset ∧ rest = window.drop n := by
  unfold split at h
  split at h
  · obtain ⟨rfl, rfl⟩ := Prod.mk.inj (Except.ok.inj h)
    exact ⟨rfl, rfl⟩
  · simp at h

/-- What is split off is a part of the window as well. -/
theorem within_of_split {window content rest : Window} {n : Nat}
    (h : window.split n = .ok (content, rest)) : content.Within window := by
  have hs := size_of_split h
  have ho := (sides_of_split h).1
  exact ⟨by omega, by simp only [stop]; omega⟩

theorem stays_block (window : Window) : window.Stays window.block := by
  refine ⟨?_, ?_⟩
  · intro content rest h
    obtain ⟨⟨length, afterLength⟩, hl, h⟩ := Steps.bind_eq_ok.mp h
    exact ((stays_split _ _).rest _ _ h).trans ((stays_unsigned window).rest _ _ hl)
  · refine Blames.read (Within.refl window) (stays_unsigned window) ?_
    intro length afterLength _ hw
    exact (stays_split _ _).blames.mono hw

theorem within_of_block {window content rest : Window} (h : window.block = .ok (content, rest)) :
    content.Within window := by
  obtain ⟨⟨length, afterLength⟩, hl, h⟩ := Steps.bind_eq_ok.mp h
  exact (within_of_split h).trans ((stays_unsigned window).rest _ _ hl)

theorem stays_pointer (window : Window) (target : Target) (encoding : PointerEncoding)
    (function : Option UInt64) : window.Stays (window.pointer target encoding function) := by
  unfold pointer
  split
  · next hr => exact stays_drop _ (PointerEncoding.size_of_resolve hr).2
  · exact stays_fault window _
  · next fault hne hr =>
      refine stays_error ⟨?_, hne, ?_⟩
      · rcases PointerEncoding.resolve_eq_error hr with rfl | ⟨byte, rfl⟩ | ⟨application, rfl⟩ <;>
          simp [Fault.place?]
      · rcases PointerEncoding.resolve_eq_error hr with rfl | ⟨byte, rfl⟩ | ⟨application, rfl⟩ <;> simp

/-- A byte that stands for no encoding is the fault itself. -/
theorem blames_decode (window : Window) (byte : UInt8) :
    window.Blames (PointerEncoding.decode byte) := by
  unfold PointerEncoding.decode
  split
  · exact blames_ok window _
  · split
    · exact blames_ok window _
    · exact blames_error (Fault.blamesIn_unsupportedEncoding window byte)

/-! ## 5. What is left after a field -/

/-- Some bytes of a window have been read, and another one is what is left. -/
def Leaves (window rest : Window) : Prop := ∃ n, n ≤ window.size ∧ rest = window.drop n

theorem Leaves.trans {window middle rest : Window} (h : window.Leaves middle) (h' : middle.Leaves rest) :
    window.Leaves rest := by
  obtain ⟨n, hn, rfl⟩ := h
  obtain ⟨m, hm, rfl⟩ := h'
  rw [size_drop] at hm
  refine ⟨n + m, by omega, ?_⟩
  simp only [drop, List.drop_drop, Nat.add_assoc]

/-- What is left ends where the window does. -/
theorem Leaves.stop {window rest : Window} (h : window.Leaves rest) : rest.stop = window.stop := by
  obtain ⟨n, hn, rfl⟩ := h
  simp only [Window.stop, size_drop, offset_drop]
  omega

theorem leaves_byte {window rest : Window} {value : UInt8} (h : window.byte = .ok (value, rest)) :
    window.Leaves rest := by
  unfold byte at h
  split at h
  · cases h
  · next hbytes =>
      obtain ⟨-, rfl⟩ := Prod.mk.inj (Except.ok.inj h)
      exact ⟨1, by simp [size, hbytes], rfl⟩

theorem leaves_text {window rest : Window} {string : List UInt8}
    (h : window.text = .ok (string, rest)) : window.Leaves rest := by
  simp only [text] at h
  split at h
  · next hends =>
      obtain ⟨-, rfl⟩ := Prod.mk.inj (Except.ok.inj h)
      exact ⟨_, hends, rfl⟩
  · cases h

theorem leaves_unsigned {window rest : Window} {value : UInt64}
    (h : window.unsigned = .ok (value, rest)) : window.Leaves rest := by
  unfold unsigned at h
  split at h
  · cases h
  · next hread =>
      obtain ⟨-, rfl⟩ := Prod.mk.inj (Except.ok.inj h)
      exact ⟨_, (Leb128.size_of_readUnsigned hread).2, rfl⟩

theorem leaves_signed {window rest : Window} {value : Int64}
    (h : window.signed = .ok (value, rest)) : window.Leaves rest := by
  unfold signed at h
  split at h
  · cases h
  · next hread =>
      obtain ⟨-, rfl⟩ := Prod.mk.inj (Except.ok.inj h)
      exact ⟨_, (Leb128.size_of_readSigned hread).2, rfl⟩

/-- A block is its length and then as many bytes. -/
theorem block_eq_ok_iff {window content rest : Window} :
    window.block = .ok (content, rest) ↔
      ∃ length start, window.unsigned = .ok (length, start) ∧ length.toNat ≤ start.size ∧
        content = ⟨start.bytes.take length.toNat, start.offset⟩ ∧ rest = start.drop length.toNat := by
  constructor
  · intro h
    obtain ⟨⟨length, start⟩, hlength, h⟩ := Steps.bind_eq_ok.mp h
    simp only [split] at h
    split at h
    · next hfits =>
        obtain ⟨rfl, rfl⟩ := Prod.mk.inj (Except.ok.inj h)
        exact ⟨length, start, hlength, hfits, rfl, rfl⟩
    · cases h
  · rintro ⟨length, start, hlength, hfits, rfl, rfl⟩
    refine Steps.bind_eq_ok.mpr ⟨_, hlength, ?_⟩
    simp only [split, if_pos hfits]

/-- A block that does not fit has no length, or one that is too long. -/
theorem block_eq_error_iff {window : Window} :
    (∃ fault, window.block = .error fault) ↔
      ∀ length start, window.unsigned = .ok (length, start) → start.size < length.toNat := by
  constructor
  · rintro ⟨fault, h⟩ length start hlength
    apply Nat.lt_of_not_le
    intro hfits
    rw [block_eq_ok_iff.mpr ⟨length, start, hlength, hfits, rfl, rfl⟩] at h
    cases h
  · intro h
    cases hblock : window.block with
    | error fault => exact ⟨fault, rfl⟩
    | ok read =>
        obtain ⟨length, start, hlength, hfits, -⟩ := block_eq_ok_iff.mp hblock
        have := h length start hlength
        omega

end Window

end UnwindTables
