/-
UnwindTables.Proofs.Bytes.ShiftTheorems — the same bytes further on in a section.

`Window.shift n` is the window that has the same bytes `n` bytes further on in its section. What is
read from it is what is read from the window itself, with `n` added to every section offset: to that of
what is left, and to that of the fault if nothing can be read. There is one lemma for each kind of
field, and `shifted_bind` follows readers that come one after the other.

Of the addresses that a pointer can be relative to, only that of its field depends on the section
offset, and it is the sum of the address of the section and the offset. So a pointer that is `n` bytes
further on is read as if the section were loaded `n` bytes further on (`Window.pointer_shift`).
-/
import UnwindTables.Proofs.Bytes.WindowTheorems

namespace UnwindTables

variable {α α' β β' : Type} (n : Nat)

/-! ## 1. Results -/

/-- The same fault `n` bytes further on in the section. -/
def Fault.shift : Fault → Fault
  | malformed offset reason => malformed (offset + n) reason
  | danglingReference fde cie => danglingReference (fde + n) (cie + n)
  | invalidStart fde address => invalidStart (fde + n) address
  | unsupportedCieVersion cie version => unsupportedCieVersion (cie + n) version
  | invalidAugmentation offset => invalidAugmentation (offset + n)
  | truncatedRecord offset => truncatedRecord (offset + n)
  | fault => fault

@[simp] theorem Fault.withinRecord_shift (fault : Fault) :
    (fault.shift n).withinRecord = fault.withinRecord.shift n := by
  cases fault <;> rfl

@[simp] theorem Fault.withinBlock_shift (fault : Fault) :
    (fault.shift n).withinBlock = fault.withinBlock.shift n := by
  cases fault <;> rfl

/-- A result of reading as it is `n` bytes further on, where `move` says what becomes of a value. -/
def shifted (move : α → β) : Except Fault α → Except Fault β
  | .ok value => .ok (move value)
  | .error fault => .error (fault.shift n)

@[simp] theorem shifted_ok (move : α → β) (value : α) :
    shifted n move (.ok value) = .ok (move value) := rfl

@[simp] theorem shifted_error (move : α → β) (fault : Fault) :
    shifted n move (.error fault) = .error (fault.shift n) := rfl

/-- Steps that are read further on give a result that is read further on. -/
theorem shifted_bind {first : Except Fault α} {first' : Except Fault α'}
    {next : α → Except Fault β} {next' : α' → Except Fault β'} {move : α → α'} {move' : β → β'}
    (h : first' = shifted n move first)
    (hn : ∀ value, next' (move value) = shifted n move' (next value)) :
    (first' >>= next') = shifted n move' (first >>= next) := by
  subst h
  cases first with
  | error fault => rfl
  | ok value => exact hn value

/-! ## 2. Fields -/

namespace Window

variable (window : Window)

/-- The same bytes, `n` bytes further on in the section. -/
def shift : Window := ⟨window.bytes, window.offset + n⟩

/-- What was read, and what is left `n` bytes further on. -/
def shiftRest (read : α × Window) : α × Window := (read.1, read.2.shift n)

@[simp] theorem bytes_shift : (window.shift n).bytes = window.bytes := rfl

@[simp] theorem offset_shift : (window.shift n).offset = window.offset + n := rfl

@[simp] theorem size_shift : (window.shift n).size = window.size := rfl

theorem drop_shift (k : Nat) : (window.shift n).drop k = (window.drop k).shift n := by
  simp only [drop, shift, Nat.add_right_comm]

theorem dropAll_shift : (window.shift n).dropAll = window.dropAll.shift n :=
  drop_shift n window window.size

theorem byte_shift : (window.shift n).byte = shifted n (shiftRest n) window.byte := by
  unfold byte
  rw [bytes_shift]
  split
  · rfl
  · rw [drop_shift]
    rfl

theorem word_shift (order : ByteOrder) (width : Nat) :
    (window.shift n).word order width = shifted n (shiftRest n) (window.word order width) := by
  unfold word
  rw [bytes_shift]
  split
  · rfl
  · rw [drop_shift]
    rfl

theorem unsigned_shift : (window.shift n).unsigned = shifted n (shiftRest n) window.unsigned := by
  unfold unsigned
  rw [bytes_shift]
  split
  · rfl
  · rw [drop_shift]
    rfl

theorem signed_shift : (window.shift n).signed = shifted n (shiftRest n) window.signed := by
  unfold signed
  rw [bytes_shift]
  split
  · rfl
  · rw [drop_shift]
    rfl

theorem text_shift : (window.shift n).text = shifted n (shiftRest n) window.text := by
  simp only [text, bytes_shift, size_shift, drop_shift]
  split <;> rfl

theorem split_shift (k : Nat) :
    (window.shift n).split k = shifted n (Prod.map (shift n) (shift n)) (window.split k) := by
  simp only [split, bytes_shift, size_shift, offset_shift, drop_shift]
  split <;> rfl

theorem block_shift :
    (window.shift n).block = shifted n (Prod.map (shift n) (shift n)) window.block := by
  refine shifted_bind n (unsigned_shift n window) ?_
  rintro ⟨length, rest⟩
  exact split_shift n rest length.toNat

end Window

/-! ## 3. Pointers -/

/-- The same target with the section loaded `n` bytes further on. -/
def Target.advance (target : Target) : Target :=
  { target with bases.ehFrame := target.bases.ehFrame + UInt64.ofNat n }

variable (target : Target)

@[simp] theorem Target.order_advance : (target.advance n).order = target.order := rfl

/-- A field has the same address further on in its section as in a section that is loaded further
on. -/
theorem Target.fieldAddress_advance (offset : Nat) :
    (target.advance n).fieldAddress offset = target.fieldAddress (offset + n) := by
  simp only [fieldAddress, advance]
  rw [UInt64.ofNat_add, UInt64.add_assoc, UInt64.add_comm (UInt64.ofNat n)]

theorem Target.base_site_advance (offset : Nat) (function : Option UInt64)
    (application : Application) :
    ((target.advance n).site offset function).base application =
      (target.site (offset + n) function).base application := by
  cases application with
  | pcrel => exact congrArg Except.ok (target.fieldAddress_advance n offset)
  | _ => rfl

theorem PointerEncoding.resolve_site_advance (encoding : PointerEncoding) (order : ByteOrder)
    (offset : Nat) (function : Option UInt64) (bytes : List UInt8) :
    encoding.resolve order ((target.advance n).site offset function) bytes =
      encoding.resolve order (target.site (offset + n) function) bytes := by
  unfold resolve
  rw [Target.base_site_advance]
  rfl

/-- A byte that stands for no encoding is the same fault anywhere. -/
theorem PointerEncoding.shift_fault_of_decode {byte : UInt8} {fault : Fault}
    (h : decode byte = .error fault) : fault.shift n = fault := by
  unfold decode at h
  split at h
  · simp at h
  · split at h
    · simp at h
    · obtain rfl := Except.error.inj h
      rfl

theorem PointerEncoding.decode_shift (byte : UInt8) : decode byte = shifted n id (decode byte) := by
  cases h : decode byte with
  | ok encoding => rfl
  | error fault => rw [shifted_error, shift_fault_of_decode n h]

/-- A pointer is read as in a section that is loaded further on. -/
theorem Window.pointer_shift (window : Window) (encoding : PointerEncoding)
    (function : Option UInt64) :
    (window.shift n).pointer target encoding function =
      shifted n (shiftRest n) (window.pointer (target.advance n) encoding function) := by
  simp only [pointer, bytes_shift, offset_shift, drop_shift, Target.order_advance,
    PointerEncoding.resolve_site_advance]
  cases hresult : encoding.resolve target.order (target.site (window.offset + n) function)
      window.bytes with
  | ok result => rfl
  | error fault =>
      rcases PointerEncoding.resolve_eq_error hresult with rfl | ⟨byte, rfl⟩ | ⟨application, rfl⟩ <;>
        rfl

end UnwindTables
