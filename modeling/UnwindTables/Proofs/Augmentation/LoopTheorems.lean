/-
UnwindTables.Proofs.Augmentation.LoopTheorems — an augmentation string that is followed to its end.

`Declared.read` stops at the character after which nothing more can be read, and says why. A loop over the
string does not stop there: it goes on in the state in which characters ask for nothing, collects faults
and unknown characters as it meets them, and looks at the state in the end to say whether part of the block
was skipped. `AugmentationLoop.follow` is that loop. `AugmentationLoop.endsAs_read` says that it comes to
what `Declared.read` returns, and so that it reports one fault at most: nothing in the loop keeps it from
reporting several.

## How the proof goes

In the states `skipping` and `malformed` a character changes nothing (`AugmentationLoop.follow_quiet`). Up to
there the loop and `Declared.readBlock` take the same steps, and the induction is over the string
(`AugmentationLoop.endsAs_readBlock`).
-/
import UnwindTables.Proofs.Augmentation.CodeTheorems

namespace UnwindTables

/-- The unknown character that ended the reading of a block, if one did. -/
def BlockEnding.unknown? : BlockEnding → Option UInt8
  | .unknownCode code => some code
  | _ => none

/-- Where a loop over an augmentation string is. -/
structure AugmentationLoop where
  /-- The state after the characters that were followed. -/
  state : AugmentationState
  /-- What is left of the record. -/
  rest : Window
  /-- What is left of the block, if its length has been read. -/
  block : Option Window
  /-- What has been declared. -/
  declared : Declared
  /-- The faults that were reported, in the order in which they were met. -/
  faults : List Fault
  /-- The characters that were unknown. -/
  unknown : List UInt8

namespace AugmentationLoop

open AugmentationState (isField)

/-- Before the first character, with the bytes after the CIE's own fields. -/
def start (window : Window) : AugmentationLoop := ⟨.start, window, none, .nothing .none, [], []⟩

/-- The loop after a field of the block. A field that cannot be read forces the state in which characters ask
for nothing, so what is left of the block then makes no difference. -/
def afterField (target : Target) (loop : AugmentationLoop) (action : AugmentationAction) (code : UInt8)
    (block : Window) : AugmentationLoop :=
  let unknown := if action = .skipRest then loop.unknown ++ [code] else loop.unknown
  match loop.declared.readField target action block with
  | (declared, .ok rest) => { loop with block := some rest, declared, unknown }
  | (declared, .error fault) =>
    { loop with state := .skipping, declared, faults := loop.faults ++ [fault.withinBlock], unknown }

/-- Follows a string. The loop is left only where the block does not fit, as nothing after its length can be
located. -/
def follow (target : Target) : List UInt8 → AugmentationLoop → AugmentationLoop
  | [], loop => loop
  | code :: codes, loop =>
    let (state, action) := loop.state.transition code
    if action = .readLength then
      let declared := { loop.declared with features := { loop.declared.features with data := true } }
      match loop.rest.block with
      | .ok (block, rest) =>
        follow target codes { loop with state, rest, block := some block, declared }
      | .error _ =>
        { loop with
          state := .skipping, rest := loop.rest.dropAll, declared,
          faults := loop.faults ++ [.invalidAugmentation loop.rest.offset] }
    else
      match loop.block with
      | none => follow target codes { loop with state }
      | some block => follow target codes ({ loop with state }.afterField target action code block)

/-- What has been declared in the end. The state says what else was met. -/
def finish (loop : AugmentationLoop) : Declared :=
  match loop.state with
  | .skipping => loop.declared.skip
  | .malformed =>
    { loop.declared with features := { loop.declared.features with malformed := true } }
  | .start | .fields => loop.declared

/-- A loop has come to what a reader returns. -/
structure EndsAs (loop : AugmentationLoop) (result : Declared × BlockEnding × Window) : Prop where
  declared : loop.finish = result.1
  faults : loop.faults = result.2.1.fault?.toList
  unknown : loop.unknown = result.2.1.unknown?.toList
  rest : loop.rest = result.2.2

variable {target : Target}

/-- Characters ask for nothing once the block is skipped, and where there is no block. -/
theorem follow_quiet {loop : AugmentationLoop} (h : loop.state = .skipping ∨ loop.state = .malformed)
    (codes : List UInt8) : follow target codes loop = loop := by
  obtain ⟨state, rest, block, declared, faults, unknown⟩ := loop
  induction codes with
  | nil => rfl
  | cons code codes ih =>
      rcases h with rfl | rfl <;> cases block <;> exact ih

/-- In a block, the loop and the reader take the same steps. -/
theorem endsAs_readBlock (codes : List UInt8) (declared : Declared) (block rest : Window) :
    (follow target codes ⟨.fields, rest, some block, declared, [], []⟩).EndsAs
      ((Declared.readBlock target .fields codes declared block).1,
        (Declared.readBlock target .fields codes declared block).2, rest) := by
  induction codes generalizing declared block with
  | nil => exact ⟨rfl, rfl, rfl, rfl⟩
  | cons code codes ih =>
      rw [follow, Declared.readBlock]
      by_cases hcode : isField code = true
      · obtain ⟨hstate, hskip, hlength⟩ := AugmentationState.transition_field hcode
        simp only [if_neg hlength, if_neg hskip, hstate, afterField]
        rcases declared.readField target (AugmentationState.fields.transition code).2 block with
          ⟨found, fault | left⟩
        · rw [follow_quiet (by simp)]
          exact ⟨rfl, rfl, rfl, rfl⟩
        · exact ih found left
      · rw [AugmentationState.transition_unknown (by simpa using hcode)]
        simp only [reduceCtorEq, if_false, if_true, afterField, Declared.readField]
        rw [follow_quiet (by simp)]
        exact ⟨rfl, rfl, rfl, rfl⟩

/-- **The loop comes to what the reader returns**, whatever the string and the bytes are. -/
theorem endsAs_read (codes : List UInt8) (window : Window) :
    (follow target codes (start window)).EndsAs (Declared.read target codes window) := by
  cases codes with
  | nil => exact ⟨rfl, rfl, rfl, rfl⟩
  | cons code codes =>
      by_cases hz : code = 'z'.toUInt8
      · subst hz
        rw [follow, start, Declared.read]
        simp only [AugmentationState.transition_z, if_true]
        cases window.block with
        | error fault => exact ⟨rfl, rfl, rfl, rfl⟩
        | ok read => exact endsAs_readBlock codes _ read.1 read.2
      · rw [follow, start, Declared.read]
        simp only [AugmentationState.transition_not_z hz, reduceCtorEq, if_false]
        rw [follow_quiet (by simp)]
        exact ⟨rfl, rfl, rfl, rfl⟩

/-- One fault is reported at most. -/
theorem length_faults_le (codes : List UInt8) (window : Window) :
    (follow target codes (start window)).faults.length ≤ 1 := by
  rw [(endsAs_read codes window).faults]
  cases (Declared.read target codes window).2.1.fault? <;> simp

end AugmentationLoop

end UnwindTables
