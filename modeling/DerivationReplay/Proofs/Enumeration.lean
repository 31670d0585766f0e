import DerivationReplay.Proofs.Activations
import DerivationReplay.Proofs.Cycles

/-!
The walk as an enumeration. Where no leaf derives from a cycle, the walk comes to an end by itself:
more steps than it is allowed change nothing. It lists each clause under a leaf once, and none
before its parents; without any cycle it lists the whole derivation.
-/
namespace DerivationReplay

theorem earlier_parents {table : Table} {later earlier : List Clause} {clause : Clause}
    (finished : Finished table (later ++ clause :: earlier)) :
    ∀ parent ∈ clause.parents, parent ∈ table → parent ∈ earlier.map Clause.id := by
  induction later with
  | nil =>
    cases finished with
    | cons _ _ after _ => exact after
  | cons next later ih =>
    cases finished with
    | cons _ _ _ rest => exact ih rest

namespace Walk

theorem run_add (table : Table) (steps more : Nat) (walk : Walk) :
    run table (steps + more) walk = run table more (run table steps walk) := by
  induction steps generalizing walk with
  | zero => rw [Nat.zero_add, run]
  | succ steps ih =>
    rw [Nat.add_right_comm, run, run]
    by_cases ended : walk.pending.isEmpty = true
    · obtain ⟨pending, visited, trail⟩ := walk
      obtain rfl := List.isEmpty_iff.mp ended
      rw [if_pos ended, if_pos ended, run_done]
    · rw [if_neg ended, if_neg ended, ih]

end Walk

namespace Derivation
section Enumeration
variable {derivation : Derivation} (coherent : derivation.Coherent)

theorem walk_over (clear : derivation.Traversable) (steps : Nat)
    (enough : Walk.stepBound derivation.table derivation.leaves.toList ≤ steps) :
    ∃ visited, Walk.run derivation.table steps { pending := derivation.leaves.toList.reverse } =
      ⟨[], visited, derivation.parentsFirst.reverse⟩ := by
  have grounded : ∀ leaf ∈ derivation.leaves.toList, Grounded derivation.table leaf :=
    fun leaf mem => leaf_grounded clear (Std.ExtTreeSet.mem_toList.mp mem)
  obtain ⟨visited, trail, _, ended⟩ := walk_ends grounded
  obtain ⟨more, rfl⟩ := Nat.exists_eq_add_of_le enough
  refine ⟨visited, ?_⟩
  rw [Walk.run_add, ended, Walk.run_done, parentsFirst, parentsFirstFrom, ended,
    List.reverse_reverse]

include coherent

theorem parents_first_nodup (clear : derivation.Traversable) :
    (derivation.parentsFirst.map Clause.id).Nodup := by
  have distinct := finished_nodup (children_first_finished coherent clear)
  rwa [childrenFirst, List.map_reverse, List.nodup_reverse] at distinct

theorem mem_parents_first_iff (clear : derivation.Traversable) (clause : Clause) :
    clause ∈ derivation.parentsFirst ↔ derivation.get? clause.id = some clause ∧
      ∃ leaf ∈ derivation.leaves, Underlies derivation.table clause.id leaf := by
  have finished := children_first_finished coherent clear
  have reached := mem_children_first coherent clear clause.id
  have listed : clause ∈ derivation.childrenFirst ↔ clause ∈ derivation.parentsFirst :=
    List.mem_reverse
  rw [← listed]
  constructor
  · intro mem
    exact ⟨finished_found finished clause mem,
      (reached.mp (List.mem_map.mpr ⟨clause, mem, rfl⟩)).2⟩
  · intro under
    obtain ⟨found, leaf, tip, under⟩ := under
    have known : clause.id ∈ derivation := (mem_table_iff _ _).mpr ⟨clause, found⟩
    obtain ⟨other, mem, same⟩ := List.mem_map.mp (reached.mpr ⟨known, leaf, tip, under⟩)
    have here := finished_found finished other mem
    rw [same] at here
    obtain rfl := Option.some.inj (here.symm.trans found)
    exact mem

theorem parents_listed_before (clear : derivation.Traversable) {before after : List Clause}
    {clause : Clause} (order : derivation.parentsFirst = before ++ clause :: after) :
    ∀ parent ∈ clause.parents, parent ∈ before.map Clause.id := by
  intro parent listed
  have finished := children_first_finished coherent clear
  have found : derivation.get? clause.id = some clause :=
    ((mem_parents_first_iff coherent clear clause).mp (by simp [order])).1
  -- The trail is kept with the latest first, so what stands before becomes what comes after.
  have reversed : derivation.childrenFirst = after.reverse ++ clause :: before.reverse := by
    simp [childrenFirst, order]
  rw [reversed] at finished
  have earlier :=
    earlier_parents finished parent listed (coherent.closed clause.id clause found parent listed)
  rwa [List.map_reverse, List.mem_reverse] at earlier

theorem mem_clauses_iff (clause : Clause) :
    clause ∈ derivation.clauses ↔ derivation.get? clause.id = some clause := by
  rw [clauses, mem_values]
  constructor
  · intro some
    obtain ⟨id, found⟩ := some
    obtain rfl := coherent.keyed id clause found
    exact found
  · intro found
    exact ⟨clause.id, found⟩

theorem parents_first_perm (acyclic : Acyclic derivation.table) :
    derivation.parentsFirst.Perm derivation.clauses := by
  have clear := acyclic_traversable acyclic
  have once := List.Nodup.of_map Clause.id (parents_first_nodup coherent clear)
  have distinct := List.Nodup.of_map Clause.id (ids_nodup (coherent_keyed coherent))
  refine (List.perm_ext_iff_of_nodup once distinct).mpr fun clause => ?_
  rw [mem_parents_first_iff coherent clear]
  refine Iff.trans (and_iff_left_of_imp fun found => ?_) (mem_clauses_iff coherent clause).symm
  exact under_leaf coherent acyclic clause.id ((mem_table_iff _ _).mpr ⟨clause, found⟩)

/-- The walk over a derivation ends, however many further steps it is allowed. It lists exactly the
clauses that leaves derive from and the leaves, each once and after its parents: all clauses, where
there is no cycle. -/
theorem walk_enumerates (clear : derivation.Traversable) :
    (∀ steps, Walk.stepBound derivation.table derivation.leaves.toList ≤ steps → ∃ visited,
      Walk.run derivation.table steps { pending := derivation.leaves.toList.reverse } =
        ⟨[], visited, derivation.parentsFirst.reverse⟩) ∧
    (derivation.parentsFirst.map Clause.id).Nodup ∧
    (∀ clause, clause ∈ derivation.parentsFirst ↔ derivation.get? clause.id = some clause ∧
      ∃ leaf ∈ derivation.leaves, Underlies derivation.table clause.id leaf) ∧
    (∀ before clause after, derivation.parentsFirst = before ++ clause :: after →
      ∀ parent ∈ clause.parents, parent ∈ before.map Clause.id) ∧
    (Acyclic derivation.table → derivation.parentsFirst.Perm derivation.clauses) := by
  refine ⟨walk_over clear, parents_first_nodup coherent clear,
    mem_parents_first_iff coherent clear, ?_, parents_first_perm coherent⟩
  intro before clause after order
  exact parents_listed_before coherent clear order

end Enumeration

def diamond : List Clause :=
  [{ id := 1, text := "p", rule := "input" },
    { id := 2, text := "q", rule := "resolution", parents := [1] },
    { id := 3, text := "r", rule := "factoring", parents := [1, 1] },
    { id := 4, text := "s", rule := "resolution", parents := [2, 3] },
    { id := 5, text := "t", rule := "input" },
    { id := 6, text := "$false", rule := "resolution", parents := [4, 5] }]

def detachedCycle : List Clause :=
  [{ id := 7, text := "u", rule := "rewriting", parents := [8] },
    { id := 8, text := "v", rule := "rewriting", parents := [7] }]

theorem diamond_enumerated :
    (∃ derivation, ofClauses diamond = .ok derivation ∧
      derivation.parentsFirst.map Clause.id = [5, 1, 3, 2, 4, 6] ∧
      derivation.parentsFirst.Perm derivation.clauses) ∧
    ∃ derivation, ofClauses (diamond ++ detachedCycle) = .ok derivation ∧
      derivation.Traversable ∧ ¬ Acyclic derivation.table ∧
      derivation.parentsFirst.map Clause.id = [5, 1, 3, 2, 4, 6] ∧
      ∀ clause, clause ∈ derivation.parentsFirst ↔ derivation.get? clause.id = some clause ∧
        ∃ leaf ∈ derivation.leaves, Underlies derivation.table clause.id leaf := by
  constructor
  · obtain ⟨derivation, given, order⟩ : ∃ derivation, ofClauses diamond = .ok derivation ∧
        derivation.parentsFirst.map Clause.id = [5, 1, 3, 2, 4, 6] := ⟨_, rfl, rfl⟩
    have acyclic := clauses_acyclic given (by simp [diamond])
    have enumerated := walk_enumerates (clauses_coherent given) (acyclic_traversable acyclic)
    exact ⟨derivation, given, order, enumerated.2.2.2.2 acyclic⟩
  · obtain ⟨derivation, given, order, ends, first, second⟩ : ∃ derivation,
        ofClauses (diamond ++ detachedCycle) = .ok derivation ∧
        derivation.parentsFirst.map Clause.id = [5, 1, 3, 2, 4, 6] ∧ derivation.Ends ∧
        IsParent derivation.table 7 8 ∧ IsParent derivation.table 8 7 :=
      ⟨_, rfl, rfl, ⟨20, rfl⟩, ⟨_, rfl, by decide⟩, ⟨_, rfl, by decide⟩⟩
    have coherent := clauses_coherent given
    have clear := (ends_iff_traversable coherent).mp ends
    have cyclic : ¬ Acyclic derivation.table := fun acyclic =>
      acyclic 7 (Relation.TransGen.tail (parent_is_ancestor first) second)
    exact ⟨derivation, given, clear, cyclic, order, (walk_enumerates coherent clear).2.2.1⟩

end Derivation
end DerivationReplay
