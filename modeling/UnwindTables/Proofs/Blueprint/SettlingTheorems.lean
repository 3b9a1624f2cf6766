/-
UnwindTables.Proofs.Blueprint.SettlingTheorems — when the search for the size of a length field
ends.

A block is written after its length. The length takes the fewer bytes the shorter the block is, and
the block may depend on where it starts, so sizes of the length are tried until one agrees with the
block that follows it. `Settles` says that the search ends if it is given enough attempts, and
`Oscillates` that it comes back to where it was: after a length of `size` bytes the block is so long
that its length takes one byte more, and one byte further on it is so short that its length takes
one byte less.

    build_returns_iff : every search of a section ends ↔ no block of a CIE oscillates

The writer as it stands does not always return: `oscillating_section` is a section it never gets
done with. A block oscillates only if it holds a pointer to a personality routine that is relative
to its own place and stored in groups of seven bits; the blocks of FDEs never do.

## How the proof goes

`Steady` collects what the search needs to know about a block: the sizes it asks for, wherever it
is placed, are at most one apart (`6 ≤ 128` is all there is to it: no block is more than six times
as long as itself at another place), and a block that changes its size is never refused. Given
that, the search is in a window of two sizes after its first attempt, and two sizes either hold a
fixed point or swap.
-/
import UnwindTables.Proofs.Blueprint.EmissionTheorems
import UnwindTables.Proofs.Pointer.StoreTheorems
import Mathlib.Algebra.Group.Nat.Defs

namespace UnwindTables

/-! ## 1. The search -/

/-- The search for the size of a length field ends, if it is given enough attempts. -/
def Settles (offset : Nat) (block : Nat → Except WriteFault (List UInt8)) : Prop :=
  ∃ attempts, settleBlock offset block attempts 1 ≠ .error .unsettledLength

/-- The size that the length of a block takes, if the block is written after a length that is
assumed to take `size` bytes. -/
def askedSize (offset : Nat) (block : Nat → Except WriteFault (List UInt8)) (size : Nat) :
    Except WriteFault Nat :=
  (block (offset + size)).map fun data => (Leb128.ofNat data.length).length

/-- The search comes back to where it was. -/
def Oscillates (offset : Nat) (block : Nat → Except WriteFault (List UInt8)) : Prop :=
  ∃ size, askedSize offset block size = .ok (size + 1) ∧
    askedSize offset block (size + 1) = .ok size

/-- What the search needs to know about a block. -/
structure Steady (block : Nat → Except WriteFault (List UInt8)) : Prop where
  /-- Refusing a block is not the end of a search. -/
  refusal : ∀ a, block a ≠ .error .unsettledLength
  /-- Two lengths of the block take sizes that are at most one apart. -/
  near : ∀ a b data other, block a = .ok data → block b = .ok other →
    (Leb128.ofNat other.length).length ≤ (Leb128.ofNat data.length).length + 1
  /-- A block that changes its size is never refused. -/
  total : ∀ a b data other, block a = .ok data → block b = .ok other →
    data.length ≠ other.length → ∀ c, ∃ data, block c = .ok data

variable {offset : Nat} {block : Nat → Except WriteFault (List UInt8)}

theorem settleBlock_of_error {size : Nat} {fault : WriteFault}
    (h : block (offset + size) = .error fault) (n : Nat) :
    settleBlock offset block (n + 1) size = .error fault := by
  rw [settleBlock, h]
  rfl

theorem settleBlock_of_ok {size : Nat} {data : List UInt8}
    (h : block (offset + size) = .ok data) (n : Nat) :
    settleBlock offset block (n + 1) size
      = if (Leb128.ofNat data.length).length = size then
          .ok (Leb128.ofNat data.length ++ data)
        else settleBlock offset block n (Leb128.ofNat data.length).length := by
  rw [settleBlock, h]
  rfl

theorem askedSize_of_ok {size : Nat} {data : List UInt8} (h : block (offset + size) = .ok data) :
    askedSize offset block size = .ok (Leb128.ofNat data.length).length := by
  rw [askedSize, h]
  rfl

theorem askedSize_eq_ok_iff {size asked : Nat} :
    askedSize offset block size = .ok asked ↔
      ∃ data, block (offset + size) = .ok data ∧ (Leb128.ofNat data.length).length = asked := by
  unfold askedSize
  cases block (offset + size) <;> simp [Except.map]

/-- An attempt that is still open has found a block that asks for another size, and goes on with
that size. -/
theorem asked_of_unsettled (steady : Steady block) {n size : Nat}
    (h : settleBlock offset block (n + 1) size = .error .unsettledLength) :
    ∃ asked, askedSize offset block size = .ok asked ∧ asked ≠ size ∧
      settleBlock offset block n asked = .error .unsettledLength := by
  cases hb : block (offset + size) with
  | error fault =>
      rw [settleBlock_of_error hb] at h
      exact absurd (hb.trans h) (steady.refusal _)
  | ok data =>
      rw [settleBlock_of_ok hb] at h
      split at h
      · simp at h
      · next other => exact ⟨_, askedSize_of_ok hb, other, h⟩

theorem asked_near (steady : Steady block) {a b s t : Nat}
    (ha : askedSize offset block a = .ok s) (hb : askedSize offset block b = .ok t) :
    t ≤ s + 1 := by
  obtain ⟨data, hdata, rfl⟩ := askedSize_eq_ok_iff.mp ha
  obtain ⟨other, hother, rfl⟩ := askedSize_eq_ok_iff.mp hb
  exact steady.near _ _ _ _ hdata hother

/-- Three attempts decide: if they leave the search open, it oscillates. -/
theorem oscillates_of_unsettled (steady : Steady block) {n size : Nat}
    (h : settleBlock offset block (n + 3) size = .error .unsettledLength) :
    Oscillates offset block := by
  obtain ⟨s, hs, -, h⟩ := asked_of_unsettled steady h
  obtain ⟨t, ht, hts, h⟩ := asked_of_unsettled steady h
  obtain ⟨u, hu, hut, -⟩ := asked_of_unsettled steady h
  have h1 := asked_near steady hs ht
  have h2 := asked_near steady ht hs
  have h3 := asked_near steady hs hu
  have h4 := asked_near steady hu hs
  have h5 := asked_near steady ht hu
  have h6 := asked_near steady hu ht
  -- `s` and `t` are neighbours, and `u` is within one of both without being `t`
  obtain rfl : u = s := by omega
  rcases Nat.lt_or_gt_of_ne hts with below | above
  · obtain rfl : u = t + 1 := by omega
    exact ⟨t, hu, ht⟩
  · obtain rfl : t = u + 1 := by omega
    exact ⟨u, ht, hu⟩

/-- A search that is at one of two sizes that ask for each other stays there. -/
theorem unsettled_of_swap {size : Nat} (up : askedSize offset block size = .ok (size + 1))
    (down : askedSize offset block (size + 1) = .ok size) (n : Nat) :
    settleBlock offset block n size = .error .unsettledLength ∧
      settleBlock offset block n (size + 1) = .error .unsettledLength := by
  obtain ⟨long, hlong, hup⟩ := askedSize_eq_ok_iff.mp up
  obtain ⟨short, hshort, hdown⟩ := askedSize_eq_ok_iff.mp down
  induction n with
  | zero => exact ⟨rfl, rfl⟩
  | succ n ih =>
      rw [settleBlock_of_ok hlong, settleBlock_of_ok hshort, hup, hdown, if_neg (by omega),
        if_neg (by omega)]
      exact ih.symm

/-- A block that oscillates asks for one of its two sizes wherever it is placed. -/
theorem asked_of_swap (steady : Steady block) {size : Nat}
    (up : askedSize offset block size = .ok (size + 1))
    (down : askedSize offset block (size + 1) = .ok size) (attempt : Nat) :
    ∃ asked, askedSize offset block attempt = .ok asked ∧ (asked = size ∨ asked = size + 1) := by
  obtain ⟨long, hlong, hup⟩ := askedSize_eq_ok_iff.mp up
  obtain ⟨short, hshort, hdown⟩ := askedSize_eq_ok_iff.mp down
  have differ : long.length ≠ short.length := by
    intro same
    rw [same, hdown] at hup
    omega
  obtain ⟨data, hdata⟩ := steady.total _ _ _ _ hlong hshort differ (offset + attempt)
  have hasked := askedSize_of_ok hdata
  have h1 := asked_near steady up hasked
  have h2 := asked_near steady down hasked
  have h3 := asked_near steady hasked up
  have h4 := asked_near steady hasked down
  exact ⟨_, hasked, by omega⟩

/-- A block that oscillates is never done. -/
theorem unsettled_of_oscillates (steady : Steady block) (h : Oscillates offset block) (n : Nat) :
    settleBlock offset block n 1 = .error .unsettledLength := by
  obtain ⟨size, up, down⟩ := h
  cases n with
  | zero => rfl
  | succ n =>
      obtain ⟨asked, hasked, here⟩ := asked_of_swap steady up down 1
      -- if the first attempt agreed with its block, one of the two sizes would ask for itself
      have other : asked ≠ 1 := by
        rintro rfl
        rcases here with rfl | here
        · have := Except.ok.inj (hasked.symm.trans up)
          omega
        · obtain rfl : size = 0 := by omega
          have := Except.ok.inj (hasked.symm.trans down)
          omega
      obtain ⟨data, hdata, hlength⟩ := askedSize_eq_ok_iff.mp hasked
      rw [settleBlock_of_ok hdata, hlength, if_neg other]
      have open' := unsettled_of_swap up down n
      rcases here with rfl | rfl
      · exact open'.1
      · exact open'.2

theorem settles_iff (steady : Steady block) : Settles offset block ↔ ¬ Oscillates offset block := by
  constructor
  · rintro ⟨attempts, done⟩ oscillates
    exact done (unsettled_of_oscillates steady oscillates attempts)
  · intro calm
    refine ⟨3, fun unsettled => calm ?_⟩
    exact oscillates_of_unsettled (n := 0) steady unsettled

/-- The attempts that the writer makes are enough: it gives up only where no number of them would
do. -/
theorem writeBlock_unsettled_iff (steady : Steady block) :
    writeBlock offset block = .error .unsettledLength ↔ ¬ Settles offset block := by
  constructor
  · intro unsettled settles
    refine (settles_iff steady).mp settles ?_
    exact oscillates_of_unsettled (n := 7) steady unsettled
  · intro never
    refine Classical.byContradiction fun done => never ⟨lengthAttempts, done⟩

/-! ## 2. The blocks of CIEs -/

theorem decodeForWriting_ne_unsettled (byte : UInt8) :
    decodeForWriting byte ≠ .error .unsettledLength := by
  unfold decodeForWriting
  cases PointerEncoding.decode byte <;> rintro ⟨⟩

theorem PointerEncoding.store_ne_unsettled (encoding : PointerEncoding) (order : ByteOrder)
    (site : Site) (address : UInt64) :
    encoding.store order site address ≠ .error .unsettledLength := by
  unfold store ValueFormat.store
  split
  · simp
  · split <;> simp

/-- Only a base that is the place of the field itself depends on that place. -/
theorem Target.base_of_ne_pcrel (target : Target) {application : Application}
    (h : application ≠ .pcrel) (a b : Nat) (function : Option UInt64) :
    (target.site a function).base application = (target.site b function).base application := by
  cases application with
  | pcrel => exact absurd rfl h
  | _ => rfl

namespace CieBlueprint

variable {target : Target} {cie : CieBlueprint}

/-- The personality routine is stored relative to its own place, in groups of seven bits. -/
def MovingPersonality (cie : CieBlueprint) : Prop :=
  ∃ byte address encoding, cie.personality = some (byte, address) ∧
    PointerEncoding.decode byte = .ok (some encoding) ∧ encoding.application = .pcrel ∧
    (encoding.format = .uleb128 ∨ encoding.format = .sleb128)

theorem writePersonality_ne_unsettled (offset : Nat) :
    cie.writePersonality target offset ≠ .error .unsettledLength := by
  unfold writePersonality
  obtain ⟨byte, address⟩ := cie.personality.getD (PointerEncoding.omitted, 0)
  simp only [ne_eq, Steps.bind_eq_error, not_or, not_exists, not_and]
  refine ⟨decodeForWriting_ne_unsettled byte, fun decoded _ h => ?_⟩
  cases decoded with
  | none => simp [pure, Except.pure] at h
  | some encoding =>
      exact PointerEncoding.store_ne_unsettled _ _ _ _ (Steps.bind_pure_eq_error.mp h)

/-- An encoding that is not omitted has been set. -/
theorem personality_of_decode {byte : UInt8} {address : UInt64} {encoding : PointerEncoding}
    (h : cie.personality.getD (PointerEncoding.omitted, 0) = (byte, address))
    (hd : PointerEncoding.decode byte = .ok (some encoding)) :
    cie.personality = some (byte, address) := by
  cases hp : cie.personality with
  | some given =>
      rw [hp] at h
      exact congrArg some h
  | none =>
      rw [hp] at h
      obtain ⟨rfl, -⟩ := Prod.mk.inj h
      simp [PointerEncoding.decode] at hd

/-- Two fields of the same personality routine have the same size, unless it is stored relative to
its own place in groups of seven bits. -/
theorem length_writePersonality {a b : Nat} {field other : List UInt8}
    (ha : cie.writePersonality target a = .ok field)
    (hb : cie.writePersonality target b = .ok other) :
    other.length = field.length ∨
      (cie.MovingPersonality ∧ 2 ≤ field.length ∧ other.length ≤ 11) := by
  obtain ⟨byte, address, hp, ha⟩ := writePersonality_eq_ok_iff.mp ha
  obtain ⟨_, _, hq, hb⟩ := writePersonality_eq_ok_iff.mp hb
  obtain ⟨rfl, rfl⟩ : byte = _ ∧ address = _ := Prod.mk.inj (hp.symm.trans hq)
  rcases ha with ⟨hd, rfl⟩ | ⟨encoding, stored, hd, hs, rfl⟩
  · rcases hb with ⟨-, rfl⟩ | ⟨_, _, he, -⟩
    · exact Or.inl rfl
    · rw [hd] at he
      simp at he
  · rcases hb with ⟨he, -⟩ | ⟨again, moved, he, ht, rfl⟩
    · rw [hd] at he
      simp at he
    · rw [hd, Except.ok.injEq, Option.some.injEq] at he
      subst he
      have positive := PointerEncoding.length_store_pos hs
      obtain ⟨base, hbase, hw⟩ := PointerEncoding.store_eq_ok_iff.mp hs
      obtain ⟨next, hnext, hm⟩ := PointerEncoding.store_eq_ok_iff.mp ht
      cases hsize : encoding.format.size? target.addressSize.bytes with
      | some width =>
          refine Or.inl ?_
          rw [List.length_cons, List.length_cons, ValueFormat.length_write? hsize hw,
            ValueFormat.length_write? hsize hm]
      | none =>
          have short := ValueFormat.length_of_size?_none hsize hm
          by_cases hpc : encoding.application = .pcrel
          · refine Or.inr ⟨⟨byte, address, encoding, ?_, hd, hpc, ?_⟩, ?_, ?_⟩
            · exact personality_of_decode hp hd
            · exact ValueFormat.size?_eq_none_iff.mp hsize
            · rw [List.length_cons]
              omega
            · rw [List.length_cons]
              omega
          · refine Or.inl ?_
            rw [target.base_of_ne_pcrel hpc (a + 1) (b + 1) none, hnext, Except.ok.injEq] at hbase
            subst hbase
            rw [show moved = stored from Option.some.inj (hm.symm.trans hw)]

/-- A personality routine that moves is never refused. -/
theorem writePersonality_total (target : Target) (moving : cie.MovingPersonality) (offset : Nat) :
    ∃ field, cie.writePersonality target offset = .ok field := by
  obtain ⟨byte, address, encoding, hp, hd, hpc, hformat⟩ := moving
  have hsize : encoding.format.size? target.addressSize.bytes = none :=
    ValueFormat.size?_eq_none_iff.mpr hformat
  obtain ⟨stored, hw, -⟩ := ValueFormat.write?_of_size?_none target.order hsize
    (target.addressSize.truncate (address - target.fieldAddress (offset + 1)))
  refine ⟨byte :: stored, writePersonality_eq_ok_iff.mpr ⟨byte, address, ?_, ?_⟩⟩
  · rw [hp]
    rfl
  · refine Or.inr ⟨encoding, stored, hd, ?_, rfl⟩
    exact PointerEncoding.store_eq_ok_iff.mpr ⟨_, by rw [hpc]; rfl, hw⟩

/-- A character stands for the personality routine, for a single byte, or for the end. -/
theorem writeFields_cases (target : Target) (cie : CieBlueprint) (code : UInt8) :
    code = 'P'.toUInt8 ∨
      (∃ byte, ∀ codes offset, cie.writeFields target (code :: codes) offset = (do
        return byte :: (← cie.writeFields target codes (offset + 1)))) ∨
      AugmentationState.isField code = false := by
  rcases AugmentationState.isField_cases code with rfl | rfl | rfl | hu
  · exact Or.inl rfl
  · exact Or.inr (Or.inl ⟨_, writeFields_L⟩)
  · exact Or.inr (Or.inl ⟨_, writeFields_R⟩)
  · exact Or.inr (Or.inr hu)

theorem writeFields_ne_unsettled (codes : List UInt8) (offset : Nat) :
    cie.writeFields target codes offset ≠ .error .unsettledLength := by
  induction codes generalizing offset with
  | nil => simp [writeFields]
  | cons code codes ih =>
      intro h
      rcases writeFields_cases target cie code with rfl | ⟨byte, hbyte⟩ | hu
      · rw [writeFields_P] at h
        rcases Steps.bind_eq_error.mp h with h | ⟨field, -, h⟩
        · exact writePersonality_ne_unsettled offset h
        · exact ih _ (Steps.bind_pure_eq_error.mp h)
      · rw [hbyte] at h
        exact ih _ (Steps.bind_pure_eq_error.mp h)
      · rw [writeFields_unknown hu] at h
        simp at h

theorem writeFields_total (moving : cie.MovingPersonality) (codes : List UInt8) (offset : Nat) :
    ∃ data, cie.writeFields target codes offset = .ok data := by
  induction codes generalizing offset with
  | nil => exact ⟨[], rfl⟩
  | cons code codes ih =>
      rcases writeFields_cases target cie code with rfl | ⟨byte, hbyte⟩ | hu
      · obtain ⟨field, hf⟩ := writePersonality_total target moving offset
        obtain ⟨data, hd⟩ := ih (offset + field.length)
        rw [writeFields_P]
        exact ⟨field ++ data,
          Steps.bind_eq_ok.mpr ⟨field, hf, Steps.bind_eq_ok.mpr ⟨data, hd, rfl⟩⟩⟩
      · obtain ⟨data, hd⟩ := ih (offset + 1)
        rw [hbyte]
        exact ⟨byte :: data, Steps.bind_eq_ok.mpr ⟨data, hd, rfl⟩⟩
      · exact ⟨_, writeFields_unknown hu codes offset⟩

/-- A block is at most six times as long as itself at another place, and changes its length only
with a personality routine that moves. -/
theorem length_writeFields (codes : List UInt8) :
    ∀ {a b : Nat} {data other : List UInt8}, cie.writeFields target codes a = .ok data →
      cie.writeFields target codes b = .ok other →
      other.length ≤ 6 * data.length ∧ (data.length ≠ other.length → cie.MovingPersonality) := by
  induction codes with
  | nil =>
      intro a b data other ha hb
      simp only [writeFields, Except.ok.injEq] at ha hb
      subst ha hb
      simp
  | cons code codes ih =>
      intro a b data other ha hb
      rcases writeFields_cases target cie code with rfl | ⟨byte, hbyte⟩ | hu
      · rw [writeFields_P] at ha hb
        obtain ⟨field, hf, ha⟩ := Steps.bind_eq_ok.mp ha
        obtain ⟨more, hm, ha⟩ := Steps.bind_eq_ok.mp ha
        obtain ⟨moved, hg, hb⟩ := Steps.bind_eq_ok.mp hb
        obtain ⟨rest, hr, hb⟩ := Steps.bind_eq_ok.mp hb
        obtain rfl := Steps.pure_eq_ok.mp ha
        obtain rfl := Steps.pure_eq_ok.mp hb
        obtain ⟨ratio, differ⟩ := ih hm hr
        simp only [List.length_append]
        rcases length_writePersonality hf hg with same | ⟨moving, low, high⟩
        · exact ⟨by omega, fun h => differ (by omega)⟩
        · exact ⟨by omega, fun _ => moving⟩
      · rw [hbyte] at ha hb
        obtain ⟨more, hm, ha⟩ := Steps.bind_eq_ok.mp ha
        obtain ⟨rest, hr, hb⟩ := Steps.bind_eq_ok.mp hb
        obtain rfl := Steps.pure_eq_ok.mp ha
        obtain rfl := Steps.pure_eq_ok.mp hb
        obtain ⟨ratio, differ⟩ := ih hm hr
        simp only [List.length_cons]
        exact ⟨by omega, fun h => differ (by omega)⟩
      · rw [writeFields_unknown hu] at ha hb
        simp only [Except.ok.injEq] at ha hb
        subst ha hb
        exact ⟨by omega, fun h => absurd rfl h⟩

theorem steady_writeFields (target : Target) (cie : CieBlueprint) (codes : List UInt8) :
    Steady (cie.writeFields target codes) where
  refusal := writeFields_ne_unsettled codes
  near a b data other ha hb := by
    have ratio := (length_writeFields codes ha hb).1
    exact Leb128.length_ofNat_le_succ (by omega)
  total a b data other ha hb differ c :=
    writeFields_total ((length_writeFields codes ha hb).2 differ) codes c

/-- A block of a CIE that oscillates holds a personality routine that moves. -/
theorem moving_of_oscillates {codes : List UInt8} {offset : Nat}
    (h : Oscillates offset (cie.writeFields target codes)) : cie.MovingPersonality := by
  obtain ⟨size, up, down⟩ := h
  obtain ⟨long, hlong, hup⟩ := askedSize_eq_ok_iff.mp up
  obtain ⟨short, hshort, hdown⟩ := askedSize_eq_ok_iff.mp down
  refine (length_writeFields codes hlong hshort).2 fun same => ?_
  rw [same, hdown] at hup
  omega

end CieBlueprint

/-! ## 3. The blocks of FDEs -/

namespace FdeBlueprint

variable {target : Target} {fde : FdeBlueprint} {layout : CieBlueprint.Layout}

theorem writeExtra_ne_unsettled (offset : Nat) :
    fde.writeExtra target layout offset ≠ .error .unsettledLength := by
  unfold writeExtra
  split
  · simp
  · simp
  · intro h
    rcases Steps.bind_eq_error.mp h with h | ⟨decoded, -, h⟩
    · exact decodeForWriting_ne_unsettled _ h
    · cases decoded with
      | none => simp [pure, Except.pure] at h
      | some encoding =>
          simp only at h
          split at h
          · exact PointerEncoding.store_ne_unsettled _ _ _ _ h
          · unfold ValueFormat.store at h
            split at h <;> simp at h

/-- The data of an FDE is the same wherever it is placed, or it is a single pointer. -/
theorem writeExtra_cases (target : Target) (fde : FdeBlueprint) (layout : CieBlueprint.Layout) :
    (∃ result, ∀ offset, fde.writeExtra target layout offset = result) ∨
      (∃ encoding : PointerEncoding, ∀ offset data,
        fde.writeExtra target layout offset = .ok data →
          ∃ value, encoding.format.write? target.order target.addressSize value = some data) := by
  unfold writeExtra
  cases fde.augmentationData with
  | some data => exact Or.inl ⟨_, fun _ => rfl⟩
  | none =>
      cases layout.lsdaEncoding with
      | none => exact Or.inl ⟨_, fun _ => rfl⟩
      | some byte =>
          dsimp only
          cases decodeForWriting byte with
          | error fault => exact Or.inl ⟨.error fault, fun _ => rfl⟩
          | ok decoded =>
              cases decoded with
              | none => exact Or.inl ⟨.ok [], fun _ => rfl⟩
              | some encoding =>
                  cases fde.lsda with
                  | none =>
                      exact Or.inl ⟨encoding.format.store target.order target.addressSize 0,
                        fun _ => rfl⟩
                  | some address =>
                      refine Or.inr ⟨encoding, fun offset data h => ?_⟩
                      obtain ⟨base, -, hw⟩ := PointerEncoding.store_eq_ok_iff.mp h
                      exact ⟨_, hw⟩

/-- A length of the data that changes with its place is short. -/
theorem length_writeExtra {a b : Nat} {data other : List UInt8}
    (ha : fde.writeExtra target layout a = .ok data)
    (hb : fde.writeExtra target layout b = .ok other) :
    other.length = data.length ∨ (data.length ≤ 10 ∧ other.length ≤ 10) := by
  rcases writeExtra_cases target fde layout with ⟨result, constant⟩ | ⟨encoding, pointer⟩
  · rw [constant] at ha hb
    obtain rfl : data = other := Except.ok.inj (ha.symm.trans hb)
    exact Or.inl rfl
  · obtain ⟨value, hv⟩ := pointer a data ha
    obtain ⟨moved, hm⟩ := pointer b other hb
    cases hsize : encoding.format.size? target.addressSize.bytes with
    | some width =>
        exact Or.inl (by
          rw [ValueFormat.length_write? hsize hv, ValueFormat.length_write? hsize hm])
    | none =>
        exact Or.inr ⟨ValueFormat.length_of_size?_none hsize hv,
          ValueFormat.length_of_size?_none hsize hm⟩

/-- A short block has a length of one byte. -/
theorem length_ofNat_of_le_ten {n : Nat} (h : n ≤ 10) : (Leb128.ofNat n).length = 1 := by
  rw [Leb128.ofNat, if_pos (by omega)]
  rfl

/-- The length of the data of an FDE takes the same size wherever the data is placed. -/
theorem asked_writeExtra {a b : Nat} {data other : List UInt8}
    (ha : fde.writeExtra target layout a = .ok data)
    (hb : fde.writeExtra target layout b = .ok other) :
    (Leb128.ofNat other.length).length = (Leb128.ofNat data.length).length := by
  rcases length_writeExtra ha hb with same | ⟨h1, h2⟩
  · rw [same]
  · rw [length_ofNat_of_le_ten h1, length_ofNat_of_le_ten h2]

/-- Two attempts are enough for the data of an FDE. -/
theorem settled_writeExtra (target : Target) (fde : FdeBlueprint) (layout : CieBlueprint.Layout)
    (offset n : Nat) :
    settleBlock offset (fde.writeExtra target layout) (n + 2) 1 ≠ .error .unsettledLength := by
  cases ha : fde.writeExtra target layout (offset + 1) with
  | error fault =>
      rw [settleBlock_of_error ha, ← ha]
      exact writeExtra_ne_unsettled _
  | ok data =>
      rw [settleBlock_of_ok ha]
      split
      · simp
      · cases hb : fde.writeExtra target layout
            (offset + (Leb128.ofNat data.length).length) with
        | error fault =>
            rw [settleBlock_of_error hb, ← hb]
            exact writeExtra_ne_unsettled _
        | ok other =>
            rw [settleBlock_of_ok hb, if_pos (asked_writeExtra ha hb)]
            simp

theorem writeAugmentationData_ne_unsettled (offset : Nat) :
    fde.writeAugmentationData target layout offset ≠ .error .unsettledLength := by
  unfold writeAugmentationData
  split
  · exact settled_writeExtra target fde layout offset 8
  · simp

theorem writeRecord_ne_unsettled (order : ByteOrder) (format : RecordFormat) (offset : Nat)
    (content : List UInt8) (padding : UInt64) :
    writeRecord order format offset content padding ≠ .error .unsettledLength := by
  simp only [writeRecord]
  split
  · simp
  · split
    · cases format <;> simp [RecordFormat.cutOff]
    · split <;> simp

theorem distance_ne_unsettled (cieOffset : Option Nat) (offset : Nat) :
    fde.distance cieOffset offset ≠ .error .unsettledLength := by
  unfold distance
  split
  · simp
  · split <;> simp
  · simp

/-- The writer never gives up on an FDE. -/
theorem write_ne_unsettled (cie : CieBlueprint) (cieOffset : Option Nat) (offset : Nat) :
    fde.write target cie cieOffset offset ≠ .error .unsettledLength := by
  intro h
  rcases Steps.bind_eq_error.mp h with h | ⟨distance, -, h⟩
  · exact distance_ne_unsettled _ _ h
  rcases Steps.bind_eq_error.mp h with h | ⟨decoded, -, h⟩
  · exact decodeForWriting_ne_unsettled _ h
  rcases Steps.bind_eq_error.mp h with h | ⟨pcBegin, -, h⟩
  · exact PointerEncoding.store_ne_unsettled _ _ _ _ h
  rcases Steps.bind_eq_error.mp h with h | ⟨pcRange, -, h⟩
  · exact PointerEncoding.store_ne_unsettled _ _ _ _ h
  rcases Steps.bind_eq_error.mp h with h | ⟨data, -, h⟩
  · exact writeAugmentationData_ne_unsettled _ h
  · exact writeRecord_ne_unsettled _ _ _ _ _ h

end FdeBlueprint

/-! ## 4. Sections -/

namespace CieBlueprint

variable {target : Target} {cie : CieBlueprint}

theorem writeRegister_ne_unsettled : cie.writeRegister ≠ .error .unsettledLength := by
  unfold writeRegister
  split
  · split <;> simp
  · simp

theorem writeHead_ne_unsettled : cie.writeHead target ≠ .error .unsettledLength := by
  intro h
  exact writeRegister_ne_unsettled (Steps.bind_pure_eq_error.mp h)

/-- The block of a CIE is written for some characters after a length field at a section offset, if
the CIE is written at another one. -/
def HasBlock (target : Target) (cie : CieBlueprint) (offset : Nat) (codes : List UInt8)
    (lengthOffset : Nat) : Prop :=
  ∃ head, cie.writeHead target = .ok head ∧ cie.codes = 'z'.toUInt8 :: codes ∧
    lengthOffset = offset + cie.format.lengthSize + head.length

/-- The writer gives up on a CIE exactly where the search for the size of its block would never
end. -/
theorem write_unsettled_iff {offset : Nat} :
    cie.write target offset = .error .unsettledLength ↔
      ∃ codes lengthOffset, cie.HasBlock target offset codes lengthOffset ∧
        ¬ Settles lengthOffset (cie.writeFields target codes) := by
  constructor
  · intro h
    rcases Steps.bind_eq_error.mp h with h | ⟨head, hhead, h⟩
    · exact absurd h writeHead_ne_unsettled
    rcases Steps.bind_eq_error.mp h with h | ⟨data, -, h⟩
    · unfold writeAugmentationData at h
      cases hc : cie.codes with
      | nil =>
          rw [hc] at h
          simp at h
      | cons code codes =>
          rw [hc] at h
          dsimp only at h
          split at h
          · next reads =>
              obtain rfl := (AugmentationState.readLength_iff code).mp reads
              refine ⟨codes, _, ⟨head, hhead, hc, rfl⟩, ?_⟩
              exact (writeBlock_unsettled_iff (steady_writeFields target cie codes)).mp h
          · simp at h
    · exact absurd h (FdeBlueprint.writeRecord_ne_unsettled _ _ _ _ _)
  · rintro ⟨codes, _, ⟨head, hhead, hc, rfl⟩, never⟩
    have hblock := (writeBlock_unsettled_iff (steady_writeFields target cie codes)).mpr never
    refine Steps.bind_eq_error.mpr (Or.inr ⟨head, hhead, Steps.bind_eq_error.mpr (Or.inl ?_)⟩)
    unfold writeAugmentationData
    rw [hc]
    dsimp only
    rw [if_pos ((AugmentationState.readLength_iff _).mpr rfl)]
    exact hblock

end CieBlueprint

namespace Blueprint

/-- A CIE is written at a section offset: everything before it has been written. -/
def Places (blueprint : Blueprint) (order : ByteOrder) (cie : CieBlueprint) (offset : Nat) : Prop :=
  ∃ before after emission, blueprint.items = before ++ .cie cie :: after ∧
    emitItems (blueprint.target order) blueprint.cies before [] 0 = .ok emission ∧
    offset = emission.bytes.length

/-- The writer returns: every search that it begins ends. -/
def Returns (blueprint : Blueprint) (order : ByteOrder) : Prop :=
  (∀ cie offset codes lengthOffset, blueprint.Places order cie offset →
    cie.HasBlock (blueprint.target order) offset codes lengthOffset →
      Settles lengthOffset (cie.writeFields (blueprint.target order) codes)) ∧
  (∀ fde cie lengthOffset, .fde fde ∈ blueprint.items → blueprint.cies[fde.cie]? = some cie →
    Settles lengthOffset (fde.writeExtra (blueprint.target order) cie.layout))

/-- The writer gives up on some records exactly where it gives up on one of their CIEs, after
everything before it. -/
theorem emitItems_unsettled_iff (target : Target) (known : List CieBlueprint)
    (items : List BlueprintItem) : ∀ (placed : List Nat) (offset : Nat),
    emitItems target known items placed offset = .error .unsettledLength ↔
      ∃ before cie after emission, items = before ++ .cie cie :: after ∧
        emitItems target known before placed offset = .ok emission ∧
        cie.write target (offset + emission.bytes.length) = .error .unsettledLength := by
  induction items with
  | nil =>
      intro placed offset
      simp [emitItems]
  | cons item items ih =>
      intro placed offset
      constructor
      · intro h
        cases item with
        | cie cie =>
            rcases emitItems_cie_eq_error_iff.mp h with hw | ⟨record, hw, h⟩
            · exact ⟨[], cie, items, _, rfl, rfl, hw⟩
            · obtain ⟨before, c, after, emission, rfl, he, hc⟩ := (ih _ _).mp h
              refine ⟨.cie cie :: before, c, after, _, rfl,
                emitItems_cie_eq_ok_iff.mpr ⟨record, emission, hw, he, rfl⟩, ?_⟩
              rwa [List.length_append, ← Nat.add_assoc]
        | fde fde =>
            rcases emitItems_fde_eq_error_iff.mp h with ⟨-, h⟩ | ⟨owner, hk, hw | ⟨record, hw, h⟩⟩
            · simp at h
            · exact absurd hw (FdeBlueprint.write_ne_unsettled _ _ _)
            · obtain ⟨before, c, after, emission, rfl, he, hc⟩ := (ih _ _).mp h
              refine ⟨.fde fde :: before, c, after, _, rfl,
                emitItems_fde_eq_ok_iff.mpr ⟨owner, record, emission, hk, hw, he, rfl⟩, ?_⟩
              rwa [List.length_append, ← Nat.add_assoc]
      · rintro ⟨before, c, after, emission, hitems, he, hc⟩
        cases before with
        | nil =>
            obtain ⟨rfl, rfl⟩ := List.cons.inj hitems
            obtain rfl := emitItems_nil_eq_ok_iff.mp he
            exact emitItems_cie_eq_error_iff.mpr (Or.inl hc)
        | cons first before =>
            obtain ⟨rfl, rfl⟩ := List.cons.inj hitems
            cases item with
            | cie cie =>
                obtain ⟨record, rest, hw, hr, rfl⟩ := emitItems_cie_eq_ok_iff.mp he
                rw [List.length_append, ← Nat.add_assoc] at hc
                have h := (ih _ _).mpr ⟨before, c, after, rest, rfl, hr, hc⟩
                exact emitItems_cie_eq_error_iff.mpr (Or.inr ⟨record, hw, h⟩)
            | fde fde =>
                obtain ⟨owner, record, rest, hk, hw, hr, rfl⟩ := emitItems_fde_eq_ok_iff.mp he
                rw [List.length_append, ← Nat.add_assoc] at hc
                have h := (ih _ _).mpr ⟨before, c, after, rest, rfl, hr, hc⟩
                exact emitItems_fde_eq_error_iff.mpr (Or.inr ⟨owner, hk, Or.inr ⟨record, hw, h⟩⟩)

/-- The writer gives up exactly where it would go on forever. -/
theorem build_unsettled_iff (blueprint : Blueprint) (order : ByteOrder) :
    blueprint.build order = .error .unsettledLength ↔ ¬ blueprint.Returns order := by
  have emitted : blueprint.build order = .error .unsettledLength ↔
      emitItems (blueprint.target order) blueprint.cies blueprint.items [] 0
        = .error .unsettledLength := by
    unfold build emit
    cases emitItems (blueprint.target order) blueprint.cies blueprint.items [] 0 <;>
      simp [bind, Except.bind, pure, Except.pure, Except.map]
  rw [emitted, emitItems_unsettled_iff]
  constructor
  · rintro ⟨before, cie, after, emission, hitems, he, hw⟩ ⟨returns, -⟩
    rw [Nat.zero_add] at hw
    obtain ⟨codes, lengthOffset, hblock, never⟩ := CieBlueprint.write_unsettled_iff.mp hw
    exact never (returns cie _ codes lengthOffset ⟨before, after, emission, hitems, he, rfl⟩ hblock)
  · intro h
    refine Classical.byContradiction fun none => h ⟨?_, ?_⟩
    · rintro cie _ codes lengthOffset ⟨before, after, emission, hitems, he, rfl⟩ hblock
      refine Classical.byContradiction fun never => none ?_
      refine ⟨before, cie, after, emission, hitems, he, ?_⟩
      rw [Nat.zero_add]
      exact CieBlueprint.write_unsettled_iff.mpr ⟨codes, lengthOffset, hblock, never⟩
    · intro fde cie lengthOffset _ _
      exact ⟨2, FdeBlueprint.settled_writeExtra _ fde cie.layout lengthOffset 0⟩

/-- **When the writer returns.** It gives up exactly on the sections it would never get done with,
and those are the sections with a CIE whose block oscillates. Such a block holds a pointer to a
personality routine that is relative to its own place and stored in groups of seven bits. -/
theorem build_returns_iff (blueprint : Blueprint) (order : ByteOrder) :
    (blueprint.build order ≠ .error .unsettledLength ↔ blueprint.Returns order) ∧
    (blueprint.Returns order ↔
      ∀ cie offset codes lengthOffset, blueprint.Places order cie offset →
        cie.HasBlock (blueprint.target order) offset codes lengthOffset →
          ¬ Oscillates lengthOffset (cie.writeFields (blueprint.target order) codes)) ∧
    (∀ cie codes lengthOffset,
      Oscillates lengthOffset (CieBlueprint.writeFields (blueprint.target order) cie codes) →
        cie.MovingPersonality) := by
  refine ⟨?_, ?_, fun cie codes lengthOffset => CieBlueprint.moving_of_oscillates⟩
  · rw [Ne, build_unsettled_iff, Classical.not_not]
  · constructor
    · rintro ⟨returns, -⟩ cie offset codes lengthOffset placed hblock
      have settles := returns cie offset codes lengthOffset placed hblock
      exact (settles_iff (CieBlueprint.steady_writeFields _ cie codes)).mp settles
    · intro calm
      refine ⟨fun cie offset codes lengthOffset placed hblock => ?_,
        fun fde cie lengthOffset _ _ => ?_⟩
      · exact (settles_iff (CieBlueprint.steady_writeFields _ cie codes)).mpr
          (calm cie offset codes lengthOffset placed hblock)
      · exact ⟨2, FdeBlueprint.settled_writeExtra _ fde cie.layout lengthOffset 0⟩

/-- A CIE whose personality routine is 128 bytes after its pointer if the length of the block takes
one byte, and 127 bytes after it if the length takes two. With 125 bytes that nothing is known about
the block has 128 bytes in the first case and 127 bytes in the second. -/
def oscillatingCie : CieBlueprint :=
  { CieBlueprint.standard with
    augmentation := some ['z'.toUInt8, 'P'.toUInt8, 'X'.toUInt8]
    personality := some (0x11, 146)
    unknownData := List.replicate 125 0 }

/-- The section of that CIE alone is never done. -/
theorem oscillating_section :
    ¬ (Blueprint.mk ⟨0, none, none, none⟩ .eight [.cie oscillatingCie] true).Returns .little := by
  rintro ⟨returns, -⟩
  have settles := returns oscillatingCie 0 ['P'.toUInt8, 'X'.toUInt8] 16
    ⟨[], [], ⟨[], [], []⟩, rfl, rfl, rfl⟩ ⟨_, rfl, rfl, by decide +kernel⟩
  refine (settles_iff (CieBlueprint.steady_writeFields _ oscillatingCie _)).mp settles ⟨1, ?_, ?_⟩
  · decide +kernel
  · decide +kernel

end Blueprint

end UnwindTables
