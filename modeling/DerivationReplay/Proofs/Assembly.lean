import DerivationReplay.Derivation
import Mathlib.Logic.Relation

/-!
What `assemble` computes. Children and leaves are read off the parents, so a table whose clauses
stand under their numbers and whose parents all occur in it becomes a coherent derivation. The
index structures of a coherent derivation add nothing to its clauses.
-/
namespace DerivationReplay

def Clause.bare (clause : Clause) : Clause := { clause with children := ∅ }

theorem Clause.eq_of_bare {first second : Clause} (bare : first.bare = second.bare)
    (children : first.children = second.children) : first = second := by
  cases first
  cases second
  simp only [Clause.bare, Clause.mk.injEq] at bare children ⊢
  simp only [bare, children, and_self]

theorem bind_ok_iff {ε α β : Type} (change : Except ε α) (after : α → Except ε β) (result : β) :
    (change >>= after) = .ok result ↔ ∃ value, change = .ok value ∧ after value = .ok result := by
  cases change <;> simp [bind, Except.bind]

theorem pure_ok_iff {ε α : Type} (value result : α) :
    (pure value : Except ε α) = .ok result ↔ value = result := by
  simp [pure, Except.pure]

/-- The child stands in the table and lists the parent; the parent itself may be missing. -/
def IsParent (table : Table) (parent child : ClauseId) : Prop :=
  ∃ clause, table[child]? = some clause ∧ parent ∈ clause.parents

def Keyed (table : Table) : Prop :=
  ∀ (id : ClauseId) (clause : Clause), table[id]? = some clause → clause.id = id

def Closed (table : Table) : Prop := ∀ parent child, IsParent table parent child → parent ∈ table

theorem mem_table_iff (table : Table) (id : ClauseId) :
    id ∈ table ↔ ∃ clause, table[id]? = some clause := by
  rw [Std.ExtTreeMap.mem_iff_isSome_getElem?, Option.isSome_iff_exists]

theorem child_in_table {table : Table} {parent child : ClauseId}
    (edge : IsParent table parent child) : child ∈ table := by
  obtain ⟨clause, found, _⟩ := edge
  exact (mem_table_iff table child).mpr ⟨clause, found⟩

theorem values_of_list (table : Table) : table.values = table.toList.map Prod.snd := by
  obtain ⟨⟨quotient⟩⟩ := table
  induction quotient using Quotient.inductionOn with
  | h tree =>
    change tree.inner.values =
      (Std.DTreeMap.Internal.Impl.Const.toList tree.inner).map Prod.snd
    simp [Std.DTreeMap.Internal.Impl.values_eq_map_snd,
      Std.DTreeMap.Internal.Impl.Const.toList_eq_toListModel_map]

theorem mem_values (table : Table) (clause : Clause) :
    clause ∈ table.values ↔ ∃ id : ClauseId, table[id]? = some clause := by
  simp [values_of_list]

theorem get_insert (table : Table) (key id : ClauseId) (clause : Clause) :
    (table.insert key clause)[id]? = if key = id then some clause else table[id]? := by
  simp [Std.ExtTreeMap.getElem?_insert]

namespace Derivation

/-- What every derivation keeps: its index structures say what the parents say. -/
structure Coherent (derivation : Derivation) : Prop where
  keyed : ∀ id clause, derivation.get? id = some clause → clause.id = id
  closed : ∀ id clause, derivation.get? id = some clause →
    ∀ parent ∈ clause.parents, parent ∈ derivation
  children : ∀ id clause, derivation.get? id = some clause → ∀ child, child ∈ clause.children ↔
    ∃ other, derivation.get? child = some other ∧ id ∈ other.parents
  leaves : ∀ id, id ∈ derivation.leaves ↔ id ∈ derivation ∧
    ∀ child other, derivation.get? child = some other → id ∉ other.parents

section Children
variable (children : Std.ExtTreeMap ClauseId ClauseIds compare)

theorem child_of_add_child (parent child id other : ClauseId) :
    other ∈ (addChild children parent child).getD id ∅ ↔
      other ∈ children.getD id ∅ ∨ parent = id ∧ other = child := by
  rw [addChild, Std.ExtTreeMap.getD_insert]
  by_cases same : parent = id
  · subst id
    simp only [Std.compare_self, ↓reduceIte, Std.ExtTreeSet.mem_insert,
      Std.LawfulEqCmp.compare_eq_iff_eq, true_and]
    rw [or_comm, eq_comm]
  · simp [same]

theorem parent_of_add_child (parent child id : ClauseId) :
    id ∈ addChild children parent child ↔ id ∈ children ∨ parent = id := by
  simp [addChild, or_comm]

theorem child_of_add_children (parents : List ClauseId) (child id other : ClauseId) :
    other ∈ (parents.foldl (addChild · · child) children).getD id ∅ ↔
      other ∈ children.getD id ∅ ∨ id ∈ parents ∧ other = child := by
  induction parents generalizing children with
  | nil => simp
  | cons parent parents ih =>
    rw [List.foldl_cons, ih, child_of_add_child, List.mem_cons, eq_comm (a := id), or_assoc,
      ← or_and_right]

theorem parent_of_add_children (parents : List ClauseId) (child id : ClauseId) :
    id ∈ parents.foldl (addChild · · child) children ↔ id ∈ children ∨ id ∈ parents := by
  induction parents generalizing children with
  | nil => simp
  | cons parent parents ih =>
    rw [List.foldl_cons, ih, parent_of_add_child, List.mem_cons, eq_comm (a := id), or_assoc]

theorem child_of_fold (entries : List (ClauseId × Clause)) (id other : ClauseId) :
    other ∈ (entries.foldl (fun children entry =>
        entry.2.parents.foldl (addChild · · entry.2.id) children) children).getD id ∅ ↔
      other ∈ children.getD id ∅ ∨
        ∃ entry ∈ entries, id ∈ entry.2.parents ∧ other = entry.2.id := by
  induction entries generalizing children with
  | nil => simp
  | cons entry entries ih =>
    simp only [List.foldl_cons, ih, child_of_add_children, List.mem_cons, or_and_right, exists_or,
      exists_eq_left, or_assoc]

theorem parent_of_fold (entries : List (ClauseId × Clause)) (id : ClauseId) :
    id ∈ entries.foldl (fun children entry =>
        entry.2.parents.foldl (addChild · · entry.2.id) children) children ↔
      id ∈ children ∨ ∃ entry ∈ entries, id ∈ entry.2.parents := by
  induction entries generalizing children with
  | nil => simp
  | cons entry entries ih =>
    simp only [List.foldl_cons, ih, parent_of_add_children, List.mem_cons, or_and_right, exists_or,
      exists_eq_left, or_assoc]

end Children

theorem mem_children_by_parent {table : Table} (keyed : Keyed table) (parent child : ClauseId) :
    child ∈ (childrenByParent table).getD parent ∅ ↔ IsParent table parent child := by
  rw [childrenByParent, Std.ExtTreeMap.foldl_eq_foldl_toList, child_of_fold]
  constructor
  · rintro (none | ⟨⟨id, clause⟩, listed, mem, rfl⟩)
    · simp at none
    · have found := Std.ExtTreeMap.mem_toList_iff_getElem?_eq_some.mp listed
      exact ⟨clause, (keyed id clause found).symm ▸ found, mem⟩
  · intro edge
    obtain ⟨clause, found, mem⟩ := edge
    exact .inr ⟨(child, clause), Std.ExtTreeMap.mem_toList_iff_getElem?_eq_some.mpr found, mem,
      (keyed child clause found).symm⟩

theorem parent_in_children_by_parent (table : Table) (parent : ClauseId) :
    parent ∈ childrenByParent table ↔ ∃ child, IsParent table parent child := by
  rw [childrenByParent, Std.ExtTreeMap.foldl_eq_foldl_toList, parent_of_fold]
  simp [IsParent]

theorem get_assemble_some {table : Table} {id : ClauseId} {clause : Clause} :
    (assemble table).get? id = some clause ↔ ∃ source, table[id]? = some source ∧
      { source with children := (childrenByParent table).getD id ∅ } = clause := by
  rw [get_assemble, Option.map_eq_some_iff]

theorem is_parent_assemble (table : Table) (parent child : ClauseId) :
    IsParent (assemble table).table parent child ↔ IsParent table parent child := by
  constructor
  · intro edge
    obtain ⟨clause, found, mem⟩ := edge
    obtain ⟨source, here, rfl⟩ := get_assemble_some.mp found
    exact ⟨source, here, mem⟩
  · intro edge
    obtain ⟨source, here, mem⟩ := edge
    exact ⟨_, get_assemble_some.mpr ⟨source, here, rfl⟩, mem⟩

theorem is_parent_assemble_eq (table : Table) :
    IsParent (assemble table).table = IsParent table := by
  funext parent child
  exact propext (is_parent_assemble table parent child)

theorem leaf_assemble (table : Table) (id : ClauseId) :
    id ∈ (assemble table).leaves ↔ id ∈ table ∧ ∀ child, ¬ IsParent table id child := by
  simp [assemble, ← Bool.not_eq_true, Std.ExtTreeMap.contains_iff_mem,
    parent_in_children_by_parent]

theorem assemble_coherent {table : Table} (keyed : Keyed table) (closed : Closed table) :
    (assemble table).Coherent where
  keyed id clause found := by
    obtain ⟨source, here, rfl⟩ := get_assemble_some.mp found
    exact keyed id source here
  closed id clause found parent listed := by
    rw [mem_assemble]
    exact closed parent id ((is_parent_assemble table parent id).mp ⟨clause, found, listed⟩)
  children id clause found child := by
    obtain ⟨source, here, rfl⟩ := get_assemble_some.mp found
    rw [mem_children_by_parent keyed, ← is_parent_assemble]
    rfl
  leaves id := by
    rw [leaf_assemble, mem_assemble]
    refine and_congr_right fun _ => ⟨fun leaf child other found listed => ?_, fun leaf child => ?_⟩
    · exact leaf child ((is_parent_assemble table id child).mp ⟨other, found, listed⟩)
    · rw [← is_parent_assemble]
      intro edge
      obtain ⟨other, found, listed⟩ := edge
      exact leaf child other found listed

theorem coherent_keyed {derivation : Derivation} (coherent : derivation.Coherent) :
    Keyed derivation.table := coherent.keyed

theorem coherent_closed {derivation : Derivation} (coherent : derivation.Coherent) :
    Closed derivation.table := by
  intro parent child edge
  obtain ⟨clause, found, listed⟩ := edge
  exact coherent.closed child clause found parent listed

theorem child_iff {derivation : Derivation} (coherent : derivation.Coherent) {id : ClauseId}
    {clause : Clause} (found : derivation.table[id]? = some clause) (child : ClauseId) :
    child ∈ clause.children ↔ IsParent derivation.table id child :=
  coherent.children id clause found child

theorem leaf_iff {derivation : Derivation} (coherent : derivation.Coherent) (id : ClauseId) :
    id ∈ derivation.leaves ↔ id ∈ derivation ∧ ∀ child, ¬ IsParent derivation.table id child := by
  rw [coherent.leaves]
  simp only [IsParent, not_exists, not_and]
  rfl

section Bare

def bare? (derivation : Derivation) (id : ClauseId) : Option Clause :=
  (derivation.get? id).map Clause.bare

theorem bare_some_iff (derivation : Derivation) (id : ClauseId) (shown : Clause) :
    derivation.bare? id = some shown ↔
      ∃ clause, derivation.table[id]? = some clause ∧ clause.bare = shown := by
  rw [bare?, Option.map_eq_some_iff]
  rfl

theorem get_of_bare {derivation : Derivation} {id : ClauseId} {clause : Clause}
    (bare : derivation.bare? id = some clause.bare) :
    ∃ children, derivation.get? id = some { clause with children } := by
  obtain ⟨other, found, same⟩ := (bare_some_iff derivation id clause.bare).mp bare
  have whole : other = { clause with children := other.children } := Clause.eq_of_bare same rfl
  exact ⟨other.children, found.trans (congrArg some whole)⟩

theorem bare_assemble_iff (table : Table) (id : ClauseId) (shown : Clause) :
    (assemble table).bare? id = some shown ↔
      ∃ clause, table[id]? = some clause ∧ clause.bare = shown := by
  rw [bare?, get_assemble, Option.map_map, Option.map_eq_some_iff]
  rfl

theorem mem_iff_bare (derivation : Derivation) (id : ClauseId) :
    id ∈ derivation ↔ ∃ shown, derivation.bare? id = some shown := by
  rw [← Option.isSome_iff_exists, bare?, Option.isSome_map]
  exact Std.ExtTreeMap.mem_iff_isSome_getElem?

theorem is_parent_iff_bare (derivation : Derivation) (parent child : ClauseId) :
    IsParent derivation.table parent child ↔
      ∃ shown, derivation.bare? child = some shown ∧ parent ∈ shown.parents := by
  simp only [bare_some_iff]
  constructor
  · intro edge
    obtain ⟨clause, found, listed⟩ := edge
    exact ⟨clause.bare, ⟨clause, found, rfl⟩, listed⟩
  · intro edge
    obtain ⟨_, ⟨clause, found, rfl⟩, listed⟩ := edge
    exact ⟨clause, found, listed⟩

variable {first second : Derivation}

theorem is_parent_of_same_bare (same : ∀ id, first.bare? id = second.bare? id) :
    IsParent first.table = IsParent second.table := by
  funext parent child
  rw [is_parent_iff_bare, is_parent_iff_bare, same]

theorem found_of_same_bare (coherent : first.Coherent) (other_coherent : second.Coherent)
    (same : ∀ id, first.bare? id = second.bare? id) {id : ClauseId} {clause : Clause}
    (found : first.table[id]? = some clause) : second.table[id]? = some clause := by
  have shown : second.bare? id = some clause.bare := by
    rw [← same, bare_some_iff]
    exact ⟨clause, found, rfl⟩
  obtain ⟨other, here, bare⟩ := (bare_some_iff second id clause.bare).mp shown
  have children : other.children = clause.children := by
    refine Std.ExtTreeSet.ext_mem fun child => ?_
    rw [child_iff coherent found, child_iff other_coherent here, is_parent_of_same_bare same]
  rw [here, Clause.eq_of_bare bare children]

theorem coherent_ext (coherent : first.Coherent) (other_coherent : second.Coherent)
    (same : ∀ id, first.bare? id = second.bare? id) : first = second := by
  have table : first.table = second.table := by
    refine Std.ExtTreeMap.ext_getElem? fun id => Option.ext fun clause => ?_
    exact ⟨found_of_same_bare coherent other_coherent same,
      found_of_same_bare other_coherent coherent fun id => (same id).symm⟩
  have leaves : first.leaves = second.leaves := by
    refine Std.ExtTreeSet.ext_mem fun id => ?_
    rw [leaf_iff coherent, leaf_iff other_coherent, is_parent_of_same_bare same, mem_iff_bare,
      mem_iff_bare, same]
  cases first
  cases second
  cases table
  cases leaves
  rfl

theorem assemble_table {derivation : Derivation} (coherent : derivation.Coherent) :
    assemble derivation.table = derivation := by
  refine coherent_ext (assemble_coherent (coherent_keyed coherent) (coherent_closed coherent))
    coherent fun id => Option.ext fun shown => ?_
  rw [bare_assemble_iff, bare_some_iff]

end Bare
end Derivation
end DerivationReplay
