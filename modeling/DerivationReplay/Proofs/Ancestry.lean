import DerivationReplay.Proofs.Assembly
import Mathlib.Data.FinEnum
import Mathlib.Data.Fintype.Card

/-!
Ancestry. There are finitely many clause numbers, so where no clause is its own ancestor every
climb along parents comes to an end, and so does every climb along children: below a leaf stands
each clause of a derivation without a cycle.
-/
namespace DerivationReplay
open Relation

def IsAncestor (table : Table) : ClauseId → ClauseId → Prop := TransGen (IsParent table)

/-- The clause itself or an ancestor of it. -/
def Underlies (table : Table) : ClauseId → ClauseId → Prop := ReflTransGen (IsParent table)

def DerivesFrom (table : Table) (given : ClauseIds) (id : ClauseId) : Prop :=
  ∃ seed ∈ given, IsAncestor table seed id

def Acyclic (table : Table) : Prop := ∀ id, ¬ IsAncestor table id id

def NoCycleUnder (table : Table) (id : ClauseId) : Prop :=
  ∀ other, Underlies table other id → ¬ IsAncestor table other other

/-- Every climb from the clause along parents ends. -/
def Grounded (table : Table) (id : ClauseId) : Prop := Acc (IsParent table) id

/-- A walk from the leaves meets no cycle; a cycle that no leaf derives from does no harm. -/
def Derivation.Traversable (derivation : Derivation) : Prop :=
  ∀ leaf ∈ derivation.leaves, NoCycleUnder derivation.table leaf

theorem well_founded_of_no_loop (edge : ClauseId → ClauseId → Prop)
    (loopless : ∀ id, ¬ TransGen edge id id) : WellFounded edge := by
  have irreflexive : Std.Irrefl (TransGen edge) := ⟨loopless⟩
  have founded : WellFounded (TransGen edge) := Finite.wellFounded_of_trans_of_irrefl _
  exact Subrelation.wf (fun step => TransGen.single step) founded

theorem parent_is_ancestor {table : Table} {parent child : ClauseId}
    (edge : IsParent table parent child) : IsAncestor table parent child := TransGen.single edge

theorem underlies_of_parent {table : Table} {lower parent child : ClauseId}
    (under : Underlies table lower parent) (edge : IsParent table parent child) :
    Underlies table lower child := ReflTransGen.tail under edge

theorem underlies_cases {table : Table} {lower id : ClauseId} (under : Underlies table lower id) :
    lower = id ∨ ∃ parent, Underlies table lower parent ∧ IsParent table parent id := by
  rcases ReflTransGen.cases_tail under with same | more
  · exact .inl same.symm
  · exact .inr more

theorem underlies_iff {table : Table} {lower id : ClauseId} :
    Underlies table lower id ↔ lower = id ∨ IsAncestor table lower id := by
  rw [Underlies, reflTransGen_iff_eq_or_transGen, eq_comm]
  rfl

theorem derives_from_iff (table : Table) (given : ClauseIds) (id : ClauseId) :
    DerivesFrom table given id ↔
      ∃ parent, IsParent table parent id ∧ (parent ∈ given ∨ DerivesFrom table given parent) := by
  constructor
  · intro derived
    obtain ⟨seed, mem, above⟩ := derived
    obtain ⟨parent, under, edge⟩ := TransGen.tail'_iff.mp above
    refine ⟨parent, edge, ?_⟩
    rcases underlies_iff.mp under with rfl | higher
    · exact .inl mem
    · exact .inr ⟨seed, mem, higher⟩
  · intro derived
    obtain ⟨parent, edge, mem | ⟨seed, mem, above⟩⟩ := derived
    · exact ⟨parent, mem, parent_is_ancestor edge⟩
    · exact ⟨seed, mem, TransGen.tail above edge⟩

theorem derives_from_of_ancestor {table : Table} {given : ClauseIds} {lower id : ClauseId}
    (inside : lower ∈ given ∨ DerivesFrom table given lower) (above : IsAncestor table lower id) :
    DerivesFrom table given id := by
  rcases inside with mem | ⟨seed, mem, higher⟩
  · exact ⟨lower, mem, above⟩
  · exact ⟨seed, mem, TransGen.trans higher above⟩

theorem grounded_of_no_cycle {table : Table} {id : ClauseId} (clear : NoCycleUnder table id) :
    Grounded table id := by
  -- Only edges under the clause are followed, so that a cycle elsewhere does no harm.
  let edge := fun parent child => IsParent table parent child ∧ Underlies table child id
  have loopless : ∀ other, ¬ TransGen edge other other := by
    intro other loop
    have ancestor : IsAncestor table other other := TransGen.mono (fun _ _ step => step.1) _ _ loop
    obtain ⟨_, _, last⟩ := TransGen.tail'_iff.mp loop
    exact clear other last.2 ancestor
  have founded := well_founded_of_no_loop edge loopless
  have climb : ∀ other, Underlies table other id → Grounded table other := by
    intro other
    induction other using founded.induction with
    | h other ih =>
      intro under
      refine Acc.intro other fun parent step => ih parent ⟨step, under⟩ ?_
      exact ReflTransGen.head step under
  exact climb id ReflTransGen.refl

theorem grounded_under {table : Table} {lower id : ClauseId} (grounded : Grounded table id)
    (under : Underlies table lower id) : Grounded table lower := by
  induction under with
  | refl => exact grounded
  | tail _ edge ih => exact ih (grounded.inv edge)

theorem not_own_ancestor {table : Table} {id : ClauseId} (grounded : Grounded table id) :
    ¬ IsAncestor table id id := by
  have founded : Acc (IsAncestor table) id := Acc.transGen grounded
  clear grounded
  induction founded with
  | intro id _ ih => exact fun loop => ih id loop loop

theorem no_cycle_under_iff {table : Table} {id : ClauseId} :
    NoCycleUnder table id ↔ Grounded table id := by
  constructor
  · exact grounded_of_no_cycle
  · intro grounded other under
    exact not_own_ancestor (grounded_under grounded under)

theorem grounded_of_acyclic {table : Table} (acyclic : Acyclic table) (id : ClauseId) :
    Grounded table id := grounded_of_no_cycle fun other _ => acyclic other

theorem children_founded {table : Table} (acyclic : Acyclic table) :
    WellFounded (Function.swap (IsParent table)) :=
  well_founded_of_no_loop _ fun id loop => acyclic id (transGen_swap.mp loop)

theorem ancestor_in_table {table : Table} (closed : Closed table) {ancestor id : ClauseId}
    (above : IsAncestor table ancestor id) : ancestor ∈ table := by
  obtain ⟨child, edge, _⟩ := TransGen.head'_iff.mp above
  exact closed ancestor child edge

theorem upper_in_table {table : Table} {lower id : ClauseId} (mem : lower ∈ table)
    (under : Underlies table lower id) : id ∈ table := by
  rcases underlies_cases under with rfl | ⟨_, _, edge⟩
  · exact mem
  · exact child_in_table edge

theorem descendant_in_table {table : Table} {ancestor id : ClauseId}
    (above : IsAncestor table ancestor id) : id ∈ table := by
  obtain ⟨_, _, edge⟩ := TransGen.tail'_iff.mp above
  exact child_in_table edge

theorem no_loop_of_smaller {edge : ClauseId → ClauseId → Prop}
    (smaller : ∀ parent child, edge parent child → parent < child) (id : ClauseId) :
    ¬ TransGen edge id id := by
  have climb : ∀ ancestor id, TransGen edge ancestor id → ancestor < id := by
    intro ancestor id above
    induction above with
    | single step => exact smaller _ _ step
    | tail _ step ih => exact UInt64.lt_trans ih (smaller _ _ step)
  intro loop
  exact UInt64.lt_irrefl id (climb id id loop)

theorem acyclic_of_smaller_parents {table : Table}
    (smaller : ∀ parent child, IsParent table parent child → parent < child) : Acyclic table :=
  no_loop_of_smaller smaller

theorem acyclic_of_ancestors {table other : Table} (acyclic : Acyclic table)
    (edges : ∀ parent child, IsParent other parent child → IsAncestor table parent child) :
    Acyclic other :=
  fun id loop =>
    acyclic id (TransGen.closed (fun parent child step => edges parent child step) _ _ loop)

theorem underlies_of_ancestors {table other : Table}
    (edges : ∀ parent child, IsParent other parent child → IsAncestor table parent child)
    {lower id : ClauseId} (under : Underlies other lower id) : Underlies table lower id := by
  rw [underlies_iff] at under ⊢
  exact under.imp_right (TransGen.closed (fun parent child edge => edges parent child edge) _ _)

theorem grounded_of_ancestors {table other : Table} {id : ClauseId} (grounded : Grounded table id)
    (edges : ∀ parent child, IsParent other parent child → IsAncestor table parent child) :
    Grounded other id :=
  Subrelation.accessible (fun {parent child} step => edges parent child step)
    (Acc.transGen grounded)

namespace Derivation

theorem acyclic_assemble {table : Table} (acyclic : Acyclic table) :
    Acyclic (assemble table).table := by
  rw [Acyclic, IsAncestor, is_parent_assemble_eq]
  exact acyclic

theorem acyclic_traversable {derivation : Derivation} (acyclic : Acyclic derivation.table) :
    derivation.Traversable := fun _ _ other _ => acyclic other

/-- What is taken from under the leaves has no cycle, even if it shortens paths. -/
theorem acyclic_under_leaves {derivation : Derivation} (clear : derivation.Traversable)
    {part : Table} (edges : ∀ parent child, IsParent part parent child →
      IsAncestor derivation.table parent child ∧
        ∃ leaf ∈ derivation.leaves, Underlies derivation.table child leaf) : Acyclic part := by
  intro id loop
  obtain ⟨parent, _, last⟩ := TransGen.tail'_iff.mp loop
  obtain ⟨_, leaf, tip, under⟩ := edges parent id last
  exact clear leaf tip id under
    (TransGen.closed (fun parent child edge => (edges parent child edge).1) _ _ loop)

theorem leaf_grounded {derivation : Derivation} (clear : derivation.Traversable) {leaf : ClauseId}
    (mem : leaf ∈ derivation.leaves) : Grounded derivation.table leaf :=
  grounded_of_no_cycle (clear leaf mem)

theorem leaf_or_parent {derivation : Derivation} (coherent : derivation.Coherent) {id : ClauseId}
    (mem : id ∈ derivation) :
    id ∈ derivation.leaves ∨ ∃ child, IsParent derivation.table id child := by
  by_cases parent : ∃ child, IsParent derivation.table id child
  · exact .inr parent
  · refine .inl ((coherent.leaves id).mpr ⟨mem, fun child other found listed => ?_⟩)
    exact parent ⟨child, other, found, listed⟩

theorem under_leaf {derivation : Derivation} (coherent : derivation.Coherent)
    (acyclic : Acyclic derivation.table) :
    ∀ id ∈ derivation, ∃ leaf ∈ derivation.leaves, Underlies derivation.table id leaf := by
  intro id
  induction id using (children_founded acyclic).induction with
  | h id ih =>
    intro mem
    rcases leaf_or_parent coherent mem with leaf | ⟨child, edge⟩
    · exact ⟨id, leaf, ReflTransGen.refl⟩
    · obtain ⟨leaf, isLeaf, under⟩ := ih child edge (child_in_table edge)
      exact ⟨leaf, isLeaf, ReflTransGen.head edge under⟩

end Derivation
end DerivationReplay
