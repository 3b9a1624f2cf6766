/-
UnwindTables.Proofs.Facts.StoreTheorems — a store is the set of its facts.

A store is a list in strictly ascending order, and that order tells different facts apart
(`Fact.compare_eq_iff`, `Fact.Before.trans`). Inserting keeps it (`FactStore.Ascending.insertAll`), and
a fact is in a store exactly if it has been inserted (`FactStore.mem_insertAll`). So it does not matter
in which order facts were inserted, or how often: `FactStore.Ascending.eq_of_mem_iff`.
-/
import UnwindTables.Facts.Store
import Mathlib.Data.List.Sort

namespace UnwindTables

/-! ## 1. The order of facts -/

namespace Field

instance : Std.OrientedCmp compare where
  eq_swap {a b} := by
    cases a <;> cases b <;> first | exact Std.OrientedOrd.eq_swap | rfl

instance : Std.TransCmp compare where
  isLE_trans {a b c} hab hbc := by
    cases a <;> cases b <;> cases c <;>
      first
      | exact Std.TransOrd.isLE_trans hab hbc
      | rfl
      | (cases hab; done)
      | cases hbc

instance : Std.LawfulEqCmp compare where
  eq_of_compare {a b} h := by
    cases a <;> cases b <;>
      first | exact congrArg _ (Std.LawfulEqOrd.eq_of_compare h) | cases h

end Field

/-- Fields are compared as lists are. -/
theorem Tuple.compareFields_eq (a b : List Field) :
    compareFields a b = List.compareLex Field.compare a b := by
  induction a generalizing b with
  | nil => cases b <;> rfl
  | cons field a ih =>
      cases b with
      | nil => rfl
      | cons other b => rw [compareFields, List.compareLex_cons_cons, ih]

theorem Relation.eq_of_position_eq {a b : Relation} (h : a.position = b.position) : a = b := by
  have hsame : Relation.all[a.position]? = Relation.all[b.position]? := by rw [h]
  simpa only [Relation.all_getElem?_position, Option.some.injEq] using hsame

namespace Fact

/-- Facts are compared by the place of their relation, and by their fields where that is the same. -/
theorem compare_eq_then (a b : Fact) :
    a.compare b = (Ord.compare a.relation.position b.relation.position).then
      (List.compareLex Field.compare a.tuple.fields b.tuple.fields) := by
  rw [compare, Tuple.compare, Tuple.compareFields_eq]

theorem compare_eq_iff {a b : Fact} : a.compare b = .eq ↔ a = b := by
  rw [compare_eq_then, Ordering.then_eq_eq]
  constructor
  · rintro ⟨hrelation, hfields⟩
    have hsame := Relation.eq_of_position_eq (Std.LawfulEqOrd.eq_of_compare hrelation)
    obtain ⟨relation, fields⟩ := a
    obtain ⟨relation', fields'⟩ := b
    obtain rfl := hsame
    exact congrArg (fun fields => (⟨relation, ⟨fields⟩⟩ : Fact))
      (Std.LawfulEqCmp.eq_of_compare hfields)
  · rintro rfl
    exact ⟨Std.ReflOrd.compare_self, Std.ReflCmp.compare_self⟩

theorem compare_eq_swap (a b : Fact) : a.compare b = (b.compare a).swap := by
  rw [compare_eq_then, compare_eq_then, Ordering.swap_then, ← Std.OrientedOrd.eq_swap,
    ← Std.OrientedCmp.eq_swap]

/-- One fact is in front of another. -/
def Before (a b : Fact) : Prop := a.compare b = .lt

theorem before_iff {a b : Fact} :
    a.Before b ↔ Ord.compare a.relation.position b.relation.position = .lt ∨
      Ord.compare a.relation.position b.relation.position = .eq ∧
        List.compareLex Field.compare a.tuple.fields b.tuple.fields = .lt := by
  rw [Before, compare_eq_then, Ordering.then_eq_lt]

theorem Before.trans {a b c : Fact} (hab : a.Before b) (hbc : b.Before c) : a.Before c := by
  rw [before_iff] at *
  rcases hab with hab | ⟨hab, hfields⟩
  · rcases hbc with hbc | ⟨hbc, -⟩
    · exact Or.inl (Std.TransCmp.lt_trans hab hbc)
    · exact Or.inl (Std.TransCmp.lt_of_lt_of_eq hab hbc)
  · rcases hbc with hbc | ⟨hbc, hfields'⟩
    · exact Or.inl (Std.TransCmp.lt_of_eq_of_lt hab hbc)
    · exact Or.inr ⟨Std.TransCmp.eq_trans hab hbc, Std.TransCmp.lt_trans hfields hfields'⟩

theorem Before.irrefl (a : Fact) : ¬ a.Before a := by
  intro h
  rw [Before, compare_eq_iff.mpr rfl] at h
  cases h

end Fact

/-! ## 2. The facts of a store -/

namespace FactStore

variable {fact : Fact} {facts : List Fact} {store other : FactStore} {relation : Relation} {tuple : Tuple}

theorem mem_insertSorted {found : Fact} :
    found ∈ insertSorted fact facts ↔ found = fact ∨ found ∈ facts := by
  induction facts with
  | nil => simp [insertSorted]
  | cons first facts ih =>
      rw [insertSorted]
      split
      · rw [List.mem_cons]
      · next hsame =>
          obtain rfl := Fact.compare_eq_iff.mp hsame
          rw [List.mem_cons, ← or_assoc, or_self]
      · rw [List.mem_cons, ih, List.mem_cons, or_left_comm]

/-- A fact that is inserted where it belongs keeps the facts in order. -/
theorem ascending_insertSorted (h : facts.Pairwise Fact.Before) :
    (insertSorted fact facts).Pairwise Fact.Before := by
  induction facts with
  | nil => exact List.pairwise_singleton _ _
  | cons first facts ih =>
      obtain ⟨hfirst, hrest⟩ := List.pairwise_cons.mp h
      rw [insertSorted]
      split
      · next hless =>
          refine List.Pairwise.cons ?_ h
          intro later hlater
          rcases List.mem_cons.mp hlater with rfl | hlater
          · exact hless
          · exact Fact.Before.trans hless (hfirst later hlater)
      · exact h
      · next hgreater =>
          have hless : first.Before fact := by
            rw [Fact.Before, Fact.compare_eq_swap, hgreater]
            rfl
          refine List.Pairwise.cons ?_ (ih hrest)
          intro later hlater
          rcases mem_insertSorted.mp hlater with rfl | hlater
          · exact hless
          · exact hfirst later hlater

/-- A store is in order if its facts ascend. -/
def Ascending (store : FactStore) : Prop := store.facts.Pairwise Fact.Before

theorem ascending_empty : empty.Ascending := List.Pairwise.nil

theorem Ascending.insertAll (h : store.Ascending) (facts : List Fact) :
    (store.insertAll facts).Ascending := by
  induction facts generalizing store with
  | nil => exact h
  | cons fact facts ih => exact ih (ascending_insertSorted h)

/-- A fact is in a store exactly if it was there before or has been inserted. -/
theorem mem_insertAll {found : Fact} {facts : List Fact} :
    found ∈ (store.insertAll facts).facts ↔ found ∈ store.facts ∨ found ∈ facts := by
  induction facts generalizing store with
  | nil => simp [insertAll]
  | cons fact facts ih =>
      have hstep : store.insertAll (fact :: facts) = (store.insert fact).insertAll facts := rfl
      rw [hstep, ih, insert, mem_insertSorted, List.mem_cons, or_assoc, or_left_comm]

theorem Ascending.nodup (h : store.Ascending) : store.facts.Nodup := by
  refine h.imp ?_
  rintro a b hab rfl
  exact Fact.Before.irrefl a hab

/-- **Stores of the same facts are equal.** -/
theorem Ascending.eq_of_mem_iff (h : store.Ascending) (hother : other.Ascending)
    (hsame : ∀ fact, fact ∈ store.facts ↔ fact ∈ other.facts) : store = other := by
  have hperm : store.facts.Perm other.facts :=
    (List.perm_ext_iff_of_nodup h.nodup hother.nodup).mpr hsame
  obtain ⟨facts⟩ := store
  obtain ⟨facts'⟩ := other
  refine congrArg FactStore.mk (List.Perm.eq_of_pairwise ?_ h hother hperm)
  intro a b _ _ hab hba
  exact absurd (hab.trans hba) (Fact.Before.irrefl a)

theorem mem_tuples : tuple ∈ store.tuples relation ↔ ⟨relation, tuple⟩ ∈ store.facts := by
  rw [tuples, List.mem_map]
  constructor
  · rintro ⟨⟨relation', tuple'⟩, hfiltered, rfl⟩
    obtain ⟨hfact, hrelation⟩ := List.mem_filter.mp hfiltered
    obtain rfl : relation' = relation := by simpa using hrelation
    exact hfact
  · intro hfact
    exact ⟨_, List.mem_filter.mpr ⟨hfact, by simp⟩, rfl⟩

/-- The tuples of a relation ascend. -/
theorem Ascending.tuples (h : store.Ascending) (relation : Relation) :
    (store.tuples relation).Pairwise fun first second => first.compare second = .lt := by
  refine List.pairwise_map.mpr (List.Pairwise.imp_of_mem ?_ (List.Pairwise.filter _ h))
  intro first second hfirst hsecond hbefore
  have hrelation : first.relation = relation := by simpa using (List.mem_filter.mp hfirst).2
  have hrelation' : second.relation = relation := by simpa using (List.mem_filter.mp hsecond).2
  rw [Fact.Before, Fact.compare, hrelation, hrelation', Std.ReflOrd.compare_self] at hbefore
  exact hbefore

/-- The facts of a store but for some. -/
def without (store : FactStore) (facts : List Fact) : FactStore :=
  ⟨store.facts.filter fun fact => fact ∉ facts⟩

theorem mem_without {facts : List Fact} :
    fact ∈ (store.without facts).facts ↔ fact ∈ store.facts ∧ fact ∉ facts := by
  rw [without, List.mem_filter, decide_eq_true_eq]

theorem Ascending.without (h : store.Ascending) (facts : List Fact) :
    (store.without facts).Ascending :=
  List.Pairwise.filter _ h

end FactStore

end UnwindTables
