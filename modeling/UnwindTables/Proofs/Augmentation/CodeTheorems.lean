/-
UnwindTables.Proofs.Augmentation.CodeTheorems — which characters of an augmentation string ask for
fields.

`askedFields` says it without the state machine: the characters `P`, `L` and `R` that stand after a
leading `z` and before any other character. The reader, the writer and the layout all follow
`AugmentationState.transition`, one character at a time; `isField_cases` is the case split that every
proof about one of them starts with. What the layout looks at is the actions of the whole string, and
`readFdeEncoding_mem_actions_iff` finds them in `askedFields` again. `follows` says of every string which
state it ends in and where its actions can be.
-/
import UnwindTables.Augmentation

namespace UnwindTables.AugmentationState

/-- Whether a character asks for a field of the block. -/
def isField (code : UInt8) : Bool :=
  code = 'P'.toUInt8 || code = 'L'.toUInt8 || code = 'R'.toUInt8

/-- The characters of a string that ask for fields: those after a leading `z` and before any
character that does not. -/
def askedFields : List UInt8 → List UInt8
  | [] => []
  | code :: codes => if code = 'z'.toUInt8 then codes.takeWhile isField else []

/-! ## 1. One character -/

theorem transition_z : start.transition 'z'.toUInt8 = (fields, .readLength) := rfl

theorem transition_unknown {code : UInt8} (h : isField code = false) :
    fields.transition code = (skipping, .skipRest) := by
  simp only [isField, Bool.or_eq_false_iff, decide_eq_false_iff_not] at h
  obtain ⟨⟨hP, hL⟩, hR⟩ := h
  rw [transition, if_neg hP, if_neg hL, if_neg hR]

theorem transition_not_z {code : UInt8} (h : code ≠ 'z'.toUInt8) :
    start.transition code = (malformed, .ignore) := by
  rw [transition, if_neg h]

/-- A character after the leading `z` is one of the three that are known, or it is not. -/
theorem isField_cases (code : UInt8) :
    code = 'P'.toUInt8 ∨ code = 'L'.toUInt8 ∨ code = 'R'.toUInt8 ∨ isField code = false := by
  by_cases hP : code = 'P'.toUInt8
  · exact Or.inl hP
  · by_cases hL : code = 'L'.toUInt8
    · exact Or.inr (Or.inl hL)
    · by_cases hR : code = 'R'.toUInt8
      · exact Or.inr (Or.inr (Or.inl hR))
      · refine Or.inr (Or.inr (Or.inr ?_))
        simp [isField, hP, hL, hR]

/-- The block of a string starts after a leading `z`. -/
theorem readLength_iff (code : UInt8) :
    (start.transition code).2 = .readLength ↔ code = 'z'.toUInt8 := by
  by_cases h : code = 'z'.toUInt8
  · subst h
    exact ⟨fun _ => rfl, fun _ => rfl⟩
  · rw [transition_not_z h]
    simp [h]

/-! ## 2. A whole string -/

/-- After an unknown character, and after a first one that is not a `z`, nothing is asked for. -/
theorem eq_ignore_of_mem_actions {state : AugmentationState}
    (h : state = skipping ∨ state = malformed) {codes : List UInt8} {action : AugmentationAction}
    (hmem : action ∈ state.actions codes) : action = .ignore := by
  induction codes with
  | nil => simp [actions, trace] at hmem
  | cons code codes ih =>
      have hstep : state.transition code = (state, .ignore) := by
        rcases h with rfl | rfl <;> rfl
      have hactions : state.actions (code :: codes) = .ignore :: state.actions codes := by
        simp only [actions, trace, hstep, List.map_cons]
      rw [hactions] at hmem
      rcases List.mem_cons.mp hmem with hfirst | hmem
      · exact hfirst
      · exact ih hmem

theorem eq_ignore_of_not_z {code : UInt8} (hz : code ≠ 'z'.toUInt8) {codes : List UInt8}
    {action : AugmentationAction} (hmem : action ∈ start.actions (code :: codes)) :
    action = .ignore := by
  have hactions : start.actions (code :: codes) = .ignore :: malformed.actions codes := by
    simp only [actions, trace, transition_not_z hz, List.map_cons]
  rw [hactions] at hmem
  rcases List.mem_cons.mp hmem with hfirst | hmem
  · exact hfirst
  · exact eq_ignore_of_mem_actions (Or.inr rfl) hmem

/-- A block has a length exactly if the string has a leading `z`. -/
theorem readLength_mem_actions_iff (codes : List UInt8) :
    .readLength ∈ start.actions codes ↔ codes.head? = some 'z'.toUInt8 := by
  cases codes with
  | nil => simp [actions, trace]
  | cons code codes =>
      rw [List.head?_cons, Option.some.injEq]
      by_cases hz : code = 'z'.toUInt8
      · subst hz
        exact iff_of_true List.mem_cons_self rfl
      · refine iff_of_false ?_ hz
        intro hmem
        cases eq_ignore_of_not_z hz hmem

theorem readFdeEncoding_mem_actions_fields_iff (codes : List UInt8) :
    .readFdeEncoding ∈ fields.actions codes ↔ 'R'.toUInt8 ∈ codes.takeWhile isField := by
  induction codes with
  | nil => simp [actions, trace]
  | cons code codes ih =>
      rcases isField_cases code with rfl | rfl | rfl | hno
      · rw [List.takeWhile_cons_of_pos (by decide), List.mem_cons, ← ih]
        exact List.mem_cons.trans (or_congr (by decide) Iff.rfl)
      · rw [List.takeWhile_cons_of_pos (by decide), List.mem_cons, ← ih]
        exact List.mem_cons.trans (or_congr (by decide) Iff.rfl)
      · rw [List.takeWhile_cons_of_pos (by decide)]
        exact iff_of_true List.mem_cons_self List.mem_cons_self
      · rw [List.takeWhile_cons_of_neg (by simp [hno])]
        refine iff_of_false ?_ (by simp)
        intro hmem
        have hactions : fields.actions (code :: codes) = .skipRest :: skipping.actions codes := by
          simp only [actions, trace, transition_unknown hno, List.map_cons]
        rw [hactions] at hmem
        rcases List.mem_cons.mp hmem with hfirst | hmem
        · cases hfirst
        · cases eq_ignore_of_mem_actions (Or.inl rfl) hmem

/-- The encoding of the addresses of functions is read exactly if an `R` asks for a field. -/
theorem readFdeEncoding_mem_actions_iff (codes : List UInt8) :
    .readFdeEncoding ∈ start.actions codes ↔ 'R'.toUInt8 ∈ askedFields codes := by
  cases codes with
  | nil => simp [actions, trace, askedFields]
  | cons code codes =>
      by_cases hz : code = 'z'.toUInt8
      · subst hz
        rw [askedFields, if_pos rfl, ← readFdeEncoding_mem_actions_fields_iff]
        exact List.mem_cons.trans ⟨fun h => h.resolve_left (by decide), Or.inr⟩
      · rw [askedFields, if_neg hz]
        refine iff_of_false ?_ (by simp)
        intro hmem
        cases eq_ignore_of_not_z hz hmem

/-! ## 3. The state after a whole string -/

/-- An unknown character stands after the leading `z` of a string and the characters that ask for fields
after it. -/
def HasUnknown (codes : List UInt8) : Prop :=
  ∃ asked code more, codes = 'z'.toUInt8 :: (asked ++ code :: more) ∧
    (∀ field ∈ asked, isField field) ∧ isField code = false

theorem transition_field {code : UInt8} (h : isField code) :
    (fields.transition code).1 = fields ∧ (fields.transition code).2 ≠ .skipRest ∧
      (fields.transition code).2 ≠ .readLength := by
  rcases isField_cases code with rfl | rfl | rfl | hno
  · decide
  · decide
  · decide
  · simp [hno] at h

@[simp] theorem run_nil (state : AugmentationState) : state.run [] = state := rfl

theorem run_cons (state : AugmentationState) (code : UInt8) (codes : List UInt8) :
    state.run (code :: codes) = (state.transition code).1.run codes := rfl

theorem actions_cons (state : AugmentationState) (code : UInt8) (codes : List UInt8) :
    state.actions (code :: codes) =
      (state.transition code).2 :: (state.transition code).1.actions codes := rfl

@[simp] theorem run_skipping (codes : List UInt8) : skipping.run codes = skipping := by
  induction codes with
  | nil => rfl
  | cons code codes ih => exact ih

@[simp] theorem run_malformed (codes : List UInt8) : malformed.run codes = malformed := by
  induction codes with
  | nil => rfl
  | cons code codes ih => exact ih

/-- After the leading `z`, the first unknown character decides. -/
theorem run_fields (codes : List UInt8) :
    fields.run codes = if codes.all isField then fields else skipping := by
  induction codes with
  | nil => rfl
  | cons code codes ih =>
      by_cases hcode : isField code = true
      · rw [run_cons, (transition_field hcode).1, ih]
        simp [hcode]
      · rw [run_cons, transition_unknown (by simpa using hcode)]
        simp [hcode]

theorem run_z (codes : List UInt8) :
    start.run ('z'.toUInt8 :: codes) = if codes.all isField then fields else skipping := by
  rw [run_cons, transition_z, run_fields]

theorem run_not_z {code : UInt8} (h : code ≠ 'z'.toUInt8) (codes : List UInt8) :
    start.run (code :: codes) = malformed := by
  rw [run_cons, transition_not_z h, run_malformed]

/-- A string has an unknown character, or all of its characters ask for fields. -/
theorem all_isField_eq_false_iff (codes : List UInt8) :
    codes.all isField = false ↔ ∃ asked code more, codes = asked ++ code :: more ∧
      (∀ field ∈ asked, isField field) ∧ isField code = false := by
  constructor
  · intro h
    induction codes with
    | nil => simp at h
    | cons code codes ih =>
        by_cases hcode : isField code = true
        · simp only [List.all_cons, hcode, Bool.true_and] at h
          obtain ⟨asked, unknown, more, hcodes, hasked, hunknown⟩ := ih h
          refine ⟨code :: asked, unknown, more, by simp [hcodes], ?_, hunknown⟩
          intro field hfield
          rcases List.mem_cons.mp hfield with rfl | hfield
          · exact hcode
          · exact hasked field hfield
        · exact ⟨[], code, codes, rfl, by simp, by simpa using hcode⟩
  · rintro ⟨asked, code, more, rfl, -, hcode⟩
    simp [hcode]

theorem hasUnknown_z_iff (codes : List UInt8) :
    HasUnknown ('z'.toUInt8 :: codes) ↔ codes.all isField = false := by
  rw [all_isField_eq_false_iff]
  constructor
  · rintro ⟨asked, code, more, hcodes, hasked, hcode⟩
    exact ⟨asked, code, more, (List.cons.inj hcodes).2, hasked, hcode⟩
  · rintro ⟨asked, code, more, rfl, hasked, hcode⟩
    exact ⟨asked, code, more, rfl, hasked, hcode⟩

theorem not_hasUnknown_of_not_z {codes : List UInt8} (h : codes.head? ≠ some 'z'.toUInt8) :
    ¬ HasUnknown codes := by
  rintro ⟨asked, code, more, rfl, -⟩
  exact h rfl

/-- A length is asked for at the start of a string only. -/
theorem readLength_not_mem_actions {state : AugmentationState} (h : state ≠ start)
    (codes : List UInt8) : .readLength ∉ state.actions codes := by
  induction codes generalizing state with
  | nil => simp [actions, trace]
  | cons code codes ih =>
      have hstep : (state.transition code).2 ≠ .readLength ∧ (state.transition code).1 ≠ start := by
        cases state with
        | start => exact absurd rfl h
        | fields =>
            by_cases hcode : isField code = true
            · obtain ⟨hstate, -, haction⟩ := transition_field hcode
              exact ⟨haction, by simp [hstate]⟩
            · simp [transition_unknown (by simpa using hcode : isField code = false)]
        | skipping => simp [transition]
        | malformed => simp [transition]
      rw [actions_cons, List.mem_cons]
      rintro (hfirst | hmem)
      · exact hstep.1 hfirst.symm
      · exact ih hstep.2 hmem

/-- Once the rest of a block is skipped, nothing more is asked for. -/
theorem ignore_after_skipRest {codes : List UInt8} {before after : List AugmentationAction}
    (h : fields.actions codes = before ++ .skipRest :: after) :
    .skipRest ∉ before ∧ ∀ action ∈ after, action = .ignore := by
  induction codes generalizing before with
  | nil => simp [actions, trace] at h
  | cons code codes ih =>
      rw [actions_cons] at h
      by_cases hcode : isField code = true
      · obtain ⟨hstate, hskip, -⟩ := transition_field hcode
        cases before with
        | nil => exact absurd (List.cons.inj h).1 hskip
        | cons action before =>
            obtain ⟨rfl, hrest⟩ := List.cons.inj h
            rw [hstate] at hrest
            obtain ⟨hbefore, hafter⟩ := ih hrest
            refine ⟨?_, hafter⟩
            intro hmem
            rcases List.mem_cons.mp hmem with hfirst | hmem
            · exact hskip hfirst.symm
            · exact hbefore hmem
      · rw [transition_unknown (by simpa using hcode)] at h
        cases before with
        | nil =>
            obtain ⟨-, rfl⟩ := List.cons.inj h
            exact ⟨by simp, fun action hmem => eq_ignore_of_mem_actions (Or.inl rfl) hmem⟩
        | cons action before =>
            have hmem : .skipRest ∈ skipping.actions codes := by
              rw [(List.cons.inj h).2]
              simp
            cases eq_ignore_of_mem_actions (Or.inl rfl) hmem

/-- What following a string comes to, said of the string alone. -/
structure Follows (codes : List UInt8) : Prop where
  /-- Without a character nothing has been followed. -/
  start : start.run codes = start ↔ codes = []
  /-- A string without a leading `z` is malformed. -/
  malformed : AugmentationState.start.run codes = malformed ↔
    codes ≠ [] ∧ codes.head? ≠ some 'z'.toUInt8
  /-- After the leading `z` a string may ask for any fields in any order. -/
  fields : AugmentationState.start.run codes = fields ↔
    ∃ asked, codes = 'z'.toUInt8 :: asked ∧ ∀ code ∈ asked, isField code
  /-- Any other character makes the rest of the block unknown, whatever comes after it. -/
  skipping : AugmentationState.start.run codes = skipping ↔ HasUnknown codes
  /-- The length of a block is asked for by the leading `z` alone. -/
  readLength : ∀ n, (AugmentationState.start.actions codes)[n]? = some .readLength ↔
    n = 0 ∧ codes.head? = some 'z'.toUInt8
  /-- The rest of a block is skipped once, and nothing is asked for after that. -/
  skipRest : ∀ before after, AugmentationState.start.actions codes = before ++ .skipRest :: after →
    .skipRest ∉ before ∧ ∀ action ∈ after, action = .ignore

theorem follows_nil : Follows [] where
  start := by simp
  malformed := by simp
  fields := by simp
  skipping := by
    refine iff_of_false (by simp) ?_
    exact not_hasUnknown_of_not_z (by simp)
  readLength := by simp [actions, trace]
  skipRest := by simp [actions, trace]

theorem follows_not_z {code : UInt8} (h : code ≠ 'z'.toUInt8) (codes : List UInt8) :
    Follows (code :: codes) where
  start := by simp [run_not_z h]
  malformed := by simp [run_not_z h, h]
  fields := by simp [run_not_z h, h]
  skipping := by
    refine iff_of_false (by simp [run_not_z h]) ?_
    exact not_hasUnknown_of_not_z (by simpa using h)
  readLength := by
    intro n
    refine iff_of_false ?_ (by simp [h])
    intro hn
    cases eq_ignore_of_not_z h (List.mem_of_getElem? hn)
  skipRest := by
    intro before after hactions
    have hmem : .skipRest ∈ AugmentationState.start.actions (code :: codes) := by simp [hactions]
    cases eq_ignore_of_not_z h hmem

theorem follows_z (codes : List UInt8) : Follows ('z'.toUInt8 :: codes) where
  start := by
    rw [run_z]
    split <;> simp
  malformed := by
    rw [run_z]
    split <;> simp
  fields := by
    rw [run_z]
    cases hall : codes.all isField with
    | true => simpa using List.all_eq_true.mp hall
    | false =>
        refine iff_of_false (by simp) ?_
        rintro ⟨asked, hcodes, hasked⟩
        obtain ⟨-, rfl⟩ := List.cons.inj hcodes
        rw [List.all_eq_true.mpr hasked] at hall
        cases hall
  skipping := by
    rw [run_z, hasUnknown_z_iff]
    cases codes.all isField <;> simp
  readLength := by
    intro n
    cases n with
    | zero => simp [actions_cons, transition_z]
    | succ n =>
        refine iff_of_false ?_ (by simp)
        intro hn
        rw [actions_cons, transition_z, List.getElem?_cons_succ] at hn
        exact readLength_not_mem_actions (by simp) codes (List.mem_of_getElem? hn)
  skipRest := by
    intro before after hactions
    rw [actions_cons, transition_z] at hactions
    cases before with
    | nil => cases (List.cons.inj hactions).1
    | cons action before =>
        obtain ⟨rfl, hrest⟩ := List.cons.inj hactions
        obtain ⟨hbefore, hafter⟩ := ignore_after_skipRest hrest
        refine ⟨?_, hafter⟩
        simpa using hbefore

/-- The states and actions of a string are those that its characters say. -/
theorem follows (codes : List UInt8) : Follows codes := by
  cases codes with
  | nil => exact follows_nil
  | cons code codes =>
      by_cases hz : code = 'z'.toUInt8
      · subst hz
        exact follows_z codes
      · exact follows_not_z hz codes

end UnwindTables.AugmentationState
