/-
UnwindTables.Proofs.Facts.SetTheorems — whatever is inserted in whatever order, a store is a set.

Facts are kept by relation: a map from relations to sets of tuples, where a relation gets its set with its first
tuple. `FactGroups` is that map, as a list of groups, and a store is what is left of it when the groups are put
one behind the other.

`FactStore.insertAll_exact` says that a store is the set of the facts that have been inserted: it yields the
tuples of a relation in strictly ascending order (`Tuple.Less`), answers every question about them as the set
does, and neither the order of the insertions nor their repetitions can be told from it.

## How the proof goes

What an insertion has to keep is `FactGroups.Ordered`: the relations of the groups ascend, so do the tuples of
each group, and no group is empty. The last part is the one that equality needs, since a map that held a relation
without tuples would differ from one that does not. Ordered groups are determined by their facts
(`FactGroups.Ordered.eq_of_mem_iff`), because a group is in them exactly if it is all that the store has of its
relation (`FactGroups.Ordered.mem_iff`).
-/
import UnwindTables.Proofs.Facts.StoreTheorems
import Mathlib.Algebra.GroupWithZero.Nat

namespace UnwindTables

/-! ## 1. The order of tuples -/

/-- Numbers without a sign are less than numbers with one, and these are less than symbols; fields of one kind
are in the order of their values. -/
inductive Field.Less : Field → Field → Prop
  | unsigned {a b : Nat} (h : a < b) : Less (.unsigned a) (.unsigned b)
  | signed {a b : Int} (h : a < b) : Less (.signed a) (.signed b)
  | symbol {a b : String} (h : a < b) : Less (.symbol a) (.symbol b)
  | unsigned_signed (a : Nat) (b : Int) : Less (.unsigned a) (.signed b)
  | unsigned_symbol (a : Nat) (b : String) : Less (.unsigned a) (.symbol b)
  | signed_symbol (a : Int) (b : String) : Less (.signed a) (.symbol b)

theorem Field.compare_eq_lt_iff {a b : Field} : a.compare b = .lt ↔ a.Less b := by
  constructor
  · intro h
    cases a <;> cases b
    case unsigned.unsigned a b => exact .unsigned (Nat.compare_eq_lt.mp h)
    case signed.signed a b => exact .signed (Int.compare_eq_lt.mp h)
    case symbol.symbol a b => exact .symbol (compareOfLessAndEq_eq_lt.mp h)
    all_goals first | constructor | cases h
  · intro h
    cases h with
    | unsigned h => exact Nat.compare_eq_lt.mpr h
    | signed h => exact Int.compare_eq_lt.mpr h
    | symbol h => exact compareOfLessAndEq_eq_lt.mpr h
    | _ => rfl

/-- One tuple is less than another: it is so at the first field where they differ, or the other continues it. -/
def Tuple.Less (a b : Tuple) : Prop := List.Lex Field.Less a.fields b.fields

theorem Tuple.compareFields_eq_lt_iff {a b : List Field} :
    compareFields a b = .lt ↔ List.Lex Field.Less a b := by
  induction a generalizing b with
  | nil => cases b <;> simp [compareFields]
  | cons field a ih =>
      cases b with
      | nil => simp [compareFields]
      | cons other b =>
          rw [compareFields, Ordering.then_eq_lt, Field.compare_eq_lt_iff, ih, List.cons_lex_cons_iff]
          exact or_congr_right (and_congr_left fun _ => Std.LawfulEqCmp.compare_eq_iff_eq)

theorem Tuple.compare_eq_lt_iff {a b : Tuple} : a.compare b = .lt ↔ a.Less b :=
  compareFields_eq_lt_iff

/-! ## 2. The facts by relation -/

/-- Sets of tuples by relation. -/
structure FactGroups where
  /-- The relations in order, and the tuples of each. -/
  groups : List (Relation × List Tuple)
deriving DecidableEq, Repr

namespace FactGroups

/-- No relation is there. -/
def empty : FactGroups := ⟨[]⟩

/-- Tuples in ascending order with one more, unless it is there already. -/
def insertTuple (tuple : Tuple) : List Tuple → List Tuple
  | [] => [tuple]
  | other :: tuples =>
    match tuple.compare other with
    | .lt => tuple :: other :: tuples
    | .eq => other :: tuples
    | .gt => other :: insertTuple tuple tuples

/-- The groups with one more fact: a relation that is not there yet gets a set for it. -/
def insertGroup (fact : Fact) : List (Relation × List Tuple) → List (Relation × List Tuple)
  | [] => [(fact.relation, insertTuple fact.tuple [])]
  | (relation, tuples) :: groups =>
    match Ord.compare fact.relation.position relation.position with
    | .lt => (fact.relation, insertTuple fact.tuple []) :: (relation, tuples) :: groups
    | .eq => (relation, insertTuple fact.tuple tuples) :: groups
    | .gt => (relation, tuples) :: insertGroup fact groups

/-- The map with one more fact. -/
def insert (groups : FactGroups) (fact : Fact) : FactGroups := ⟨insertGroup fact groups.groups⟩

/-- The map with some more facts. -/
def insertAll (groups : FactGroups) (facts : List Fact) : FactGroups := facts.foldl insert groups

/-- The set of a relation, if it has one. -/
def lookup (groups : FactGroups) (relation : Relation) : Option (List Tuple) :=
  (groups.groups.find? fun group => group.1 == relation).map Prod.snd

/-- The tuples of a relation. -/
def tuples (groups : FactGroups) (relation : Relation) : List Tuple := (groups.lookup relation).getD []

/-- Whether a fact is there. -/
def contains (groups : FactGroups) (fact : Fact) : Bool :=
  (groups.lookup fact.relation).any fun tuples => tuples.contains fact.tuple

/-- How many tuples a relation has. -/
def count (groups : FactGroups) (relation : Relation) : Nat :=
  ((groups.lookup relation).map List.length).getD 0

/-- How many facts there are. -/
def size (groups : FactGroups) : Nat := (groups.groups.map fun group => group.2.length).sum

/-- Whether there are no facts. -/
def isEmpty (groups : FactGroups) : Bool := groups.size == 0

/-- The facts of one group. -/
def factsOf (group : Relation × List Tuple) : List Fact := group.2.map (Fact.mk group.1)

/-- The groups one behind the other. -/
def store (groups : FactGroups) : FactStore := ⟨groups.groups.flatMap factsOf⟩

/-- The relations ascend, and none of them is without tuples. -/
structure Ordered (groups : FactGroups) : Prop where
  relations : groups.groups.Pairwise fun first second => first.1.position < second.1.position
  nonempty : ∀ group ∈ groups.groups, group.2 ≠ []

variable {groups other : FactGroups} {fact : Fact} {relation : Relation} {tuples : List Tuple}
  {group : Relation × List Tuple}

theorem mem_factsOf : fact ∈ factsOf group ↔ fact.relation = group.1 ∧ fact.tuple ∈ group.2 := by
  rw [factsOf, List.mem_map]
  constructor
  · rintro ⟨tuple, htuple, rfl⟩
    exact ⟨rfl, htuple⟩
  · rintro ⟨hrelation, htuple⟩
    exact ⟨fact.tuple, htuple, by rw [← hrelation]⟩

/-! ### An insertion -/

theorem ordered_empty : empty.Ordered where
  relations := List.Pairwise.nil
  nonempty := by simp [empty]

theorem insertTuple_ne_nil (tuple : Tuple) (tuples : List Tuple) : insertTuple tuple tuples ≠ [] := by
  cases tuples with
  | nil => simp [insertTuple]
  | cons first tuples =>
      rw [insertTuple]
      split <;> simp

/-- An insertion adds no relation but that of the fact. -/
theorem relation_of_mem_insertGroup {groups : List (Relation × List Tuple)}
    (h : group ∈ insertGroup fact groups) :
    group.1.position = fact.relation.position ∨ ∃ old ∈ groups, old.1 = group.1 := by
  induction groups with
  | nil => simp_all [insertGroup]
  | cons first groups ih =>
      rw [insertGroup] at h
      split at h
      · simp only [List.mem_cons] at h
        obtain rfl | hold := h
        · exact Or.inl rfl
        · exact Or.inr ⟨group, List.mem_cons.mpr hold, rfl⟩
      · obtain rfl | hold := List.mem_cons.mp h
        · exact Or.inr ⟨first, List.mem_cons_self, rfl⟩
        · exact Or.inr ⟨group, List.mem_cons_of_mem _ hold, rfl⟩
      · obtain rfl | hold := List.mem_cons.mp h
        · exact Or.inr ⟨_, List.mem_cons_self, rfl⟩
        · refine (ih hold).imp_right ?_
          rintro ⟨old, hmem, hrelation⟩
          exact ⟨old, List.mem_cons_of_mem _ hmem, hrelation⟩

theorem Ordered.insert (h : groups.Ordered) (fact : Fact) : (groups.insert fact).Ordered := by
  obtain ⟨groups⟩ := groups
  obtain ⟨hrelations, hnonempty⟩ := h
  induction groups with
  | nil =>
      exact ⟨List.pairwise_singleton _ _, by simp [FactGroups.insert, insertGroup, insertTuple]⟩
  | cons first groups ih =>
      obtain ⟨hfirst, hrest⟩ := List.pairwise_cons.mp hrelations
      obtain ⟨hnew, hold⟩ := List.forall_mem_cons.mp hnonempty
      obtain ⟨ihrelations, ihnonempty⟩ := ih hrest hold
      rw [FactGroups.insert, insertGroup]
      split
      · next hless =>
          have hless := Nat.compare_eq_lt.mp hless
          refine ⟨List.pairwise_cons.mpr ⟨?_, hrelations⟩, ?_⟩
          · exact List.forall_mem_cons.mpr ⟨hless, fun group hgroup => hless.trans (hfirst group hgroup)⟩
          · exact List.forall_mem_cons.mpr ⟨insertTuple_ne_nil _ _, hnonempty⟩
      · exact ⟨List.pairwise_cons.mpr ⟨hfirst, hrest⟩,
          List.forall_mem_cons.mpr ⟨insertTuple_ne_nil _ _, hold⟩⟩
      · next hgreater =>
          have hgreater := Nat.compare_eq_gt.mp hgreater
          refine ⟨List.pairwise_cons.mpr ⟨?_, ihrelations⟩, List.forall_mem_cons.mpr ⟨hnew, ihnonempty⟩⟩
          intro group hgroup
          obtain hfact | ⟨old, hmem, hsame⟩ := relation_of_mem_insertGroup hgroup
          · exact hgreater.trans_eq hfact.symm
          · exact hsame ▸ hfirst old hmem

theorem Ordered.insertAll (h : groups.Ordered) (facts : List Fact) : (groups.insertAll facts).Ordered := by
  induction facts generalizing groups with
  | nil => exact h
  | cons fact facts ih => exact ih (h.insert fact)

/-! ### The store of some groups -/

theorem insertSorted_append_of_after (front back : List Fact)
    (h : ∀ other ∈ front, fact.compare other = .gt) :
    FactStore.insertSorted fact (front ++ back) = front ++ FactStore.insertSorted fact back := by
  induction front with
  | nil => rfl
  | cons first front ih =>
      obtain ⟨hfirst, hfront⟩ := List.forall_mem_cons.mp h
      rw [List.cons_append, FactStore.insertSorted, hfirst, ih hfront]
      rfl

theorem insertSorted_append_of_before (front back : List Fact)
    (h : ∀ other ∈ back, fact.compare other = .lt) :
    FactStore.insertSorted fact (front ++ back) = FactStore.insertSorted fact front ++ back := by
  induction front with
  | nil =>
      cases back with
      | nil => rfl
      | cons first back => simp [FactStore.insertSorted, h first List.mem_cons_self]
  | cons first front ih =>
      rw [List.cons_append, FactStore.insertSorted, FactStore.insertSorted, ih]
      split <;> rfl

/-- Within a group, facts are compared by their tuples. -/
theorem factsOf_insertTuple (fact : Fact) (tuples : List Tuple) :
    factsOf (fact.relation, insertTuple fact.tuple tuples) =
      FactStore.insertSorted fact (factsOf (fact.relation, tuples)) := by
  induction tuples with
  | nil => rfl
  | cons first tuples ih =>
      have hcompare : fact.compare ⟨fact.relation, first⟩ = fact.tuple.compare first := by
        simp [Fact.compare, Std.ReflOrd.compare_self]
      simp only [factsOf, insertTuple, List.map_cons, FactStore.insertSorted, hcompare] at ih ⊢
      cases h : fact.tuple.compare first <;> simp [ih]

/-- Facts of different relations are in the order of their relations. -/
theorem compare_of_mem_factsOf {order : Ordering} {found : Fact} (hfound : found ∈ factsOf group)
    (h : Ord.compare fact.relation.position group.1.position = order) (hne : order ≠ .eq) :
    fact.compare found = order := by
  rw [Fact.compare, (mem_factsOf.mp hfound).1, h]
  cases order <;> simp_all

/-- **To insert a fact into its group is to insert it where it belongs among all facts.** -/
theorem Ordered.store_insert (h : groups.Ordered) (fact : Fact) :
    (groups.insert fact).store = groups.store.insert fact := by
  obtain ⟨groups⟩ := groups
  obtain ⟨hrelations, hnonempty⟩ := h
  simp only [store, FactGroups.insert, FactStore.insert, FactStore.mk.injEq]
  induction groups with
  | nil => rfl
  | cons first groups ih =>
      obtain ⟨hfirst, hrest⟩ := List.pairwise_cons.mp hrelations
      obtain ⟨-, hold⟩ := List.forall_mem_cons.mp hnonempty
      have hback : ∀ found ∈ groups.flatMap factsOf, fact.relation.position ≤ first.1.position →
          fact.compare found = .lt := by
        intro found hfound hle
        obtain ⟨group, hgroup, hmem⟩ := List.mem_flatMap.mp hfound
        exact compare_of_mem_factsOf hmem
          (Nat.compare_eq_lt.mpr (Nat.lt_of_le_of_lt hle (hfirst group hgroup))) (by decide)
      rw [insertGroup, List.flatMap_cons]
      split
      · next hless =>
          have hbefore : ∀ found ∈ factsOf first ++ groups.flatMap factsOf, fact.compare found = .lt := by
            intro found hfound
            obtain hfound | hfound := List.mem_append.mp hfound
            · exact compare_of_mem_factsOf hfound hless (by decide)
            · exact hback found hfound (Nat.compare_eq_lt.mp hless).le
          exact (insertSorted_append_of_before [] _ hbefore).symm
      · next hsame =>
          have hposition := Nat.compare_eq_eq.mp hsame
          have hrelation : fact.relation = first.1 := Relation.eq_of_position_eq hposition
          rw [List.flatMap_cons, ← hrelation, factsOf_insertTuple,
            insertSorted_append_of_before _ _ fun found hfound => hback found hfound hposition.le]
          simp only [hrelation]
      · next hgreater =>
          rw [List.flatMap_cons, ih hrest hold,
            insertSorted_append_of_after _ _ fun found hfound =>
              compare_of_mem_factsOf hfound hgreater (by decide)]

theorem Ordered.store_insertAll (h : groups.Ordered) (facts : List Fact) :
    (groups.insertAll facts).store = groups.store.insertAll facts := by
  induction facts generalizing groups with
  | nil => rfl
  | cons fact facts ih =>
      have hstep := ih (h.insert fact)
      rw [h.store_insert] at hstep
      exact hstep

/-! ### The groups of a store -/

theorem tuples_store_cons (group : Relation × List Tuple) (groups : List (Relation × List Tuple))
    (relation : Relation) :
    (store ⟨group :: groups⟩).tuples relation =
      (if group.1 = relation then group.2 else []) ++ (store ⟨groups⟩).tuples relation := by
  simp only [store, FactStore.tuples, List.flatMap_cons, List.filter_append, List.map_append, factsOf,
    List.filter_map, List.map_map]
  by_cases hrelation : group.1 = relation <;> simp [Function.comp_def, hrelation]

/-- A relation that no group is of has no tuples. -/
theorem tuples_store_eq_nil (h : ∀ group ∈ groups.groups, group.1 ≠ relation) :
    groups.store.tuples relation = [] := by
  obtain ⟨groups⟩ := groups
  induction groups with
  | nil => rfl
  | cons first groups ih =>
      obtain ⟨hfirst, hrest⟩ := List.forall_mem_cons.mp h
      rw [tuples_store_cons, if_neg hfirst, ih hrest, List.nil_append]

/-- **A group is all that the store has of its relation.** -/
theorem Ordered.tuples_store (h : groups.Ordered) (hgroup : group ∈ groups.groups) :
    groups.store.tuples group.1 = group.2 := by
  obtain ⟨groups⟩ := groups
  obtain ⟨hrelations, hnonempty⟩ := h
  induction groups with
  | nil => cases hgroup
  | cons first groups ih =>
      obtain ⟨hfirst, hrest⟩ := List.pairwise_cons.mp hrelations
      rw [tuples_store_cons]
      obtain rfl | hgroup := List.mem_cons.mp hgroup
      · rw [if_pos rfl, tuples_store_eq_nil, List.append_nil]
        intro later hlater hsame
        exact absurd (hfirst later hlater) (by rw [hsame]; exact lt_irrefl _)
      · have hne : first.1 ≠ group.1 := by
          intro hsame
          exact absurd (hfirst group hgroup) (by rw [hsame]; exact lt_irrefl _)
        rw [if_neg hne, List.nil_append]
        exact ih hgroup hrest (List.forall_mem_cons.mp hnonempty).2

theorem Ordered.mem_iff (h : groups.Ordered) :
    group ∈ groups.groups ↔ group.2 ≠ [] ∧ groups.store.tuples group.1 = group.2 := by
  constructor
  · intro hgroup
    exact ⟨h.nonempty group hgroup, h.tuples_store hgroup⟩
  · rintro ⟨hne, htuples⟩
    by_contra hgroup
    refine hne (htuples ▸ tuples_store_eq_nil ?_)
    intro found hfound hsame
    have hfound' := h.tuples_store hfound
    rw [hsame, htuples] at hfound'
    exact hgroup (Prod.ext hsame.symm hfound' ▸ hfound)

theorem Ordered.lookup_eq (h : groups.Ordered) (relation : Relation) :
    groups.lookup relation =
      if groups.store.tuples relation = [] then none else some (groups.store.tuples relation) := by
  rw [lookup]
  cases hfind : groups.groups.find? fun group => group.1 == relation with
  | none =>
      have hnone : ∀ group ∈ groups.groups, group.1 ≠ relation := by simpa using hfind
      rw [tuples_store_eq_nil hnone]
      rfl
  | some group =>
      have hrelation : group.1 = relation := by simpa using List.find?_some hfind
      obtain ⟨hne, htuples⟩ := h.mem_iff.mp (List.mem_of_find?_eq_some hfind)
      rw [← hrelation, htuples, if_neg hne]
      rfl

/-- **Groups of the same facts are equal.** -/
theorem Ordered.eq_of_store_eq (h : groups.Ordered) (hother : other.Ordered)
    (hstore : groups.store = other.store) : groups = other := by
  have hnodup {groups : FactGroups} (h : groups.Ordered) : groups.groups.Nodup := by
    refine h.relations.imp ?_
    rintro first second hless rfl
    exact absurd hless (lt_irrefl _)
  have hperm : groups.groups.Perm other.groups := by
    refine (List.perm_ext_iff_of_nodup (hnodup h) (hnodup hother)).mpr ?_
    intro group
    rw [h.mem_iff, hother.mem_iff, hstore]
  obtain ⟨groups⟩ := groups
  obtain ⟨groups'⟩ := other
  refine congrArg FactGroups.mk (List.Perm.eq_of_pairwise ?_ h.relations hother.relations hperm)
  intro first second _ _ hless hgreater
  exact absurd (hless.trans hgreater) (lt_irrefl _)

/-- Groups answer every question as a store does. -/
structure Represents (groups : FactGroups) (store : FactStore) : Prop where
  tuples_eq : ∀ relation, groups.tuples relation = store.tuples relation
  contains_eq : ∀ fact, groups.contains fact = store.contains fact
  count_eq : ∀ relation, groups.count relation = store.count relation
  size_eq : groups.size = store.size
  isEmpty_eq : groups.isEmpty = store.isEmpty

theorem size_store (groups : FactGroups) : groups.store.size = groups.size := by
  simp [store, FactStore.size, size, List.length_flatMap, factsOf]

theorem Ordered.represents (h : groups.Ordered) : groups.Represents groups.store where
  tuples_eq relation := by
    rw [FactGroups.tuples, h.lookup_eq]
    split <;> simp_all
  contains_eq fact := by
    rw [Bool.eq_iff_iff, contains, h.lookup_eq, FactStore.contains, List.contains_iff_mem,
      ← FactStore.mem_tuples]
    split <;> simp_all
  count_eq relation := by
    rw [count, h.lookup_eq, FactStore.count]
    split <;> simp_all
  size_eq := (size_store groups).symm
  isEmpty_eq := by rw [isEmpty, FactStore.isEmpty, size_store]

end FactGroups

/-! ## 3. What has been inserted -/

namespace FactStore

/-- A store is the set of some facts: it yields the tuples of each relation in strictly ascending order, each of
them once, and answers every question about the facts. -/
structure Collects (store : FactStore) (facts : List Fact) : Prop where
  ascending : ∀ relation, (store.tuples relation).Pairwise Tuple.Less
  nodup : ∀ relation, (store.tuples relation).Nodup
  mem_tuples_iff : ∀ relation tuple, tuple ∈ store.tuples relation ↔ ⟨relation, tuple⟩ ∈ facts
  contains_iff : ∀ fact, store.contains fact = true ↔ fact ∈ facts
  count_eq : ∀ relation, store.count relation = (store.tuples relation).length
  size_eq : store.size = (Relation.all.map store.count).sum
  isEmpty_iff : store.isEmpty = true ↔ facts = []

theorem count_cons (fact : Fact) (facts : List Fact) (relation : Relation) :
    count ⟨fact :: facts⟩ relation =
      (if fact.relation = relation then 1 else 0) + count ⟨facts⟩ relation := by
  by_cases h : fact.relation = relation <;> simp [count, tuples, h, Nat.add_comm]

/-- Every fact is counted with its relation. -/
theorem size_eq_sum_count (store : FactStore) : store.size = (Relation.all.map store.count).sum := by
  obtain ⟨facts⟩ := store
  induction facts with
  | nil => rfl
  | cons fact facts ih =>
      have hcons : size ⟨fact :: facts⟩ = size ⟨facts⟩ + 1 := rfl
      rw [hcons, ih]
      cases h : fact.relation <;> simp [Relation.all, count_cons, h] <;> omega

theorem mem_insertAll_empty {facts : List Fact} {fact : Fact} :
    fact ∈ (empty.insertAll facts).facts ↔ fact ∈ facts := by
  simp [mem_insertAll, empty]

theorem collects_insertAll (facts : List Fact) : (empty.insertAll facts).Collects facts where
  ascending relation := by
    simpa only [Tuple.compare_eq_lt_iff] using (ascending_empty.insertAll facts).tuples relation
  nodup relation := by
    refine ((ascending_empty.insertAll facts).tuples relation).imp ?_
    intro first second hless hsame
    have hself : second.compare second = .eq :=
      (Tuple.compareFields_eq _ _).trans Std.ReflCmp.compare_self
    rw [hsame, hself] at hless
    cases hless
  mem_tuples_iff relation tuple := mem_tuples.trans mem_insertAll_empty
  contains_iff fact := List.contains_iff_mem.trans mem_insertAll_empty
  count_eq _ := rfl
  size_eq := size_eq_sum_count _
  isEmpty_iff := by
    rw [isEmpty, size, beq_iff_eq, List.length_eq_zero_iff, List.eq_nil_iff_forall_not_mem,
      List.eq_nil_iff_forall_not_mem]
    exact forall_congr' fun fact => not_congr mem_insertAll_empty

/-- **A store is the set of the facts that have been inserted.** From the empty store, any insertions give a
store that collects their facts, and the facts by relation are a map that answers as the store does. Two runs of
insertions give the same store, and the same map, exactly if they insert the same facts, in whatever order and
however often. -/
theorem insertAll_exact (calls : List Fact) :
    (empty.insertAll calls).Collects calls ∧
      (FactGroups.empty.insertAll calls).Represents (empty.insertAll calls) ∧
      ∀ others : List Fact,
        (empty.insertAll calls = empty.insertAll others ↔ ∀ fact, fact ∈ calls ↔ fact ∈ others) ∧
          (FactGroups.empty.insertAll calls = FactGroups.empty.insertAll others ↔
            ∀ fact, fact ∈ calls ↔ fact ∈ others) := by
  have hgroups (calls : List Fact) : (FactGroups.empty.insertAll calls).Ordered :=
    FactGroups.ordered_empty.insertAll calls
  have hstore (calls : List Fact) : (FactGroups.empty.insertAll calls).store = empty.insertAll calls :=
    FactGroups.ordered_empty.store_insertAll calls
  have hsame (others : List Fact) :
      empty.insertAll calls = empty.insertAll others ↔ ∀ fact, fact ∈ calls ↔ fact ∈ others := by
    constructor
    · intro heq fact
      rw [← mem_insertAll_empty, heq, mem_insertAll_empty]
    · intro h
      refine (ascending_empty.insertAll calls).eq_of_mem_iff (ascending_empty.insertAll others) ?_
      intro fact
      rw [mem_insertAll_empty, mem_insertAll_empty, h]
  refine ⟨collects_insertAll calls, ?_, fun others => ⟨hsame others, ?_⟩⟩
  · rw [← hstore calls]
    exact (hgroups calls).represents
  · rw [← hsame others, ← hstore calls, ← hstore others]
    exact ⟨congrArg _, (hgroups calls).eq_of_store_eq (hgroups others)⟩

end FactStore

end UnwindTables
