import DerivationReplay.Derivation.Consequences
import DerivationReplay.Proofs.Views

/-!
The search for common consequences is exact. A clause has its turn after its parents, so its support
holds the given clauses that underlie it and no others; a support of full size holds all of them.
-/
namespace DerivationReplay
open Relation

namespace ConsequenceSearch
variable {table : Table} {given : ClauseIds} {trail : List Clause}

theorem mem_union_all (supports : ClauseId → ClauseIds) (parents : List ClauseId)
    (support : ClauseIds) (id : ClauseId) :
    id ∈ parents.foldl (fun support parent => support ∪ supports parent) support ↔
      id ∈ support ∨ ∃ parent ∈ parents, id ∈ supports parent := by
  induction parents generalizing support with
  | nil => simp
  | cons parent parents ih =>
    rw [List.foldl_cons, ih, Std.ExtTreeSet.mem_union_iff, List.exists_mem_cons_iff, or_assoc]

theorem mem_support_of (search : ConsequenceSearch) (clause : Clause) (id : ClauseId) :
    id ∈ search.supportOf given clause ↔ clause.id ∈ given ∧ clause.id = id ∨
      ∃ parent ∈ clause.parents, id ∈ search.support.getD parent ∅ := by
  rw [supportOf, mem_union_all]
  refine or_congr_left ?_
  by_cases own : clause.id ∈ given <;> simp [own, Std.ExtTreeSet.singleton_eq_insert]

theorem full_size_iff {part whole : ClauseIds} (inside : ∀ id ∈ part, id ∈ whole) :
    part.size = whole.size ↔ ∀ id ∈ whole, id ∈ part := by
  have same : part = whole.filter fun id => part.contains id := by
    refine Std.ExtTreeSet.ext_mem fun id => ?_
    simp only [Std.ExtTreeSet.mem_filter, Std.ExtTreeSet.get_eq, Std.ExtTreeSet.contains_iff_mem,
      exists_prop]
    exact (and_iff_right_of_imp (inside id)).symm
  have size : part.size = (whole.filter fun id => part.contains id).size := congrArg (·.size) same
  rw [size, Std.ExtTreeSet.size_filter_eq_size_iff]
  simp only [Std.ExtTreeSet.get_eq, Std.ExtTreeSet.contains_iff_mem]

/-- What the search knows once the clauses of a trail have had their turns. -/
structure Searched (table : Table) (given : ClauseIds) (trail : List Clause)
    (search : ConsequenceSearch) : Prop where
  support : ∀ id ∈ trail.map Clause.id, ∀ seed,
    seed ∈ search.support.getD id ∅ ↔ seed ∈ given ∧ Underlies table seed id
  found : ∀ id, id ∈ search.found ↔
    id ∈ trail.map Clause.id ∧ ∀ seed ∈ given, Underlies table seed id

section Turn
variable {next : Clause} {search : ConsequenceSearch} (found : table[next.id]? = some next)
  (after : ∀ parent ∈ next.parents, parent ∈ trail.map Clause.id)
  (searched : Searched table given trail search)
include found after searched

theorem next_support (seed : ClauseId) : seed ∈ search.supportOf given next ↔
    seed ∈ given ∧ Underlies table seed next.id := by
  rw [mem_support_of]
  constructor
  · intro supported
    rcases supported with ⟨mem, rfl⟩ | ⟨parent, listed, below⟩
    · exact ⟨mem, ReflTransGen.refl⟩
    · obtain ⟨mem, under⟩ := (searched.support parent (after parent listed) seed).mp below
      exact ⟨mem, underlies_of_parent under ⟨next, found, listed⟩⟩
  · intro supported
    obtain ⟨mem, under⟩ := supported
    rcases underlies_cases under with rfl | ⟨parent, under, other, here, listed⟩
    · exact .inl ⟨mem, rfl⟩
    · obtain rfl := Option.some.inj (found.symm.trans here)
      exact .inr ⟨parent, listed,
        (searched.support parent (after parent listed) seed).mpr ⟨mem, under⟩⟩

theorem next_supported_by_all : (search.supportOf given next).size = given.size ↔
    ∀ seed ∈ given, Underlies table seed next.id := by
  have support := next_support found after searched
  rw [full_size_iff fun seed mem => ((support seed).mp mem).1]
  simp only [support]
  exact forall₂_congr fun seed mem => and_iff_right mem

theorem visit_searched :
    Searched table given (next :: trail) (visit given search next) where
  support id reached seed := by
    rw [visit, Std.ExtTreeMap.getD_insert]
    by_cases same : next.id = id
    · subst same
      rw [if_pos Std.ReflCmp.compare_self]
      exact next_support found after searched seed
    · have earlier : id ∈ trail.map Clause.id :=
        (List.mem_cons.mp reached).resolve_left (Ne.symm same)
      rw [if_neg (mt Std.LawfulEqCmp.eq_of_compare same)]
      exact searched.support id earlier seed
  found id := by
    have all := next_supported_by_all found after searched
    have added : id ∈ (visit given search next).found ↔
        id = next.id ∧ (∀ seed ∈ given, Underlies table seed next.id) ∨ id ∈ search.found := by
      rw [visit, ← all]
      split
      · rename_i full
        simp [full]
      · rename_i short
        simp [short]
    rw [added, searched.found, List.map_cons, List.mem_cons, or_and_right]
    refine or_congr_left (and_congr_right ?_)
    rintro rfl
    exact Iff.rfl

end Turn

theorem trail_searched (closed : Closed table) (finished : Finished table trail)
    (given : ClauseIds) : Searched table given trail (trail.reverse.foldl (visit given) {}) := by
  rw [List.foldl_reverse]
  induction finished with
  | nil => exact ⟨by simp, by simp⟩
  | @cons next trail found fresh after _ ih =>
    refine visit_searched found (fun parent listed => after parent listed ?_) ih
    exact closed parent next.id ⟨next, found, listed⟩

end ConsequenceSearch

namespace Derivation
variable {derivation : Derivation}

theorem common_consequences_some {ids : List ClauseId} (known : ∀ id ∈ ids, id ∈ derivation) :
    ∃ found, derivation.commonConsequences ids = .ok found :=
  ⟨_, (request_ok_iff derivation ids _ _).mpr ⟨known, rfl⟩⟩

theorem mem_common_consequences (coherent : derivation.Coherent)
    (acyclic : Acyclic derivation.table) {ids found : List ClauseId}
    (searched : derivation.commonConsequences ids = .ok found) (id : ClauseId) :
    id ∈ found ↔ id ∈ derivation ∧ ∀ seed ∈ ids, Underlies derivation.table seed id := by
  obtain ⟨_, rfl⟩ := (request_ok_iff derivation ids _ _).mp searched
  have finished := children_first_finished coherent (acyclic_traversable acyclic)
  have exact := ConsequenceSearch.trail_searched (coherent_closed coherent) finished (.ofList ids)
  rw [childrenFirst, List.reverse_reverse] at exact
  rw [List.mem_reverse, exact.found, ← childrenFirst, acyclic_children_first coherent acyclic]
  simp only [mem_of_list]

/-- In a part of the derivation with the same ancestry above the given clauses, the search finds
what it finds in the whole and the part has. -/
theorem search_in_part {part : Derivation} (coherent : derivation.Coherent)
    (acyclic : Acyclic derivation.table) (part_coherent : part.Coherent)
    (part_acyclic : Acyclic part.table) (inside : ∀ id ∈ part, id ∈ derivation)
    {ids : List ClauseId} (known : ∀ id ∈ ids, id ∈ part)
    (same : ∀ seed ∈ ids, ∀ id ∈ part,
      Underlies part.table seed id ↔ Underlies derivation.table seed id) :
    ∃ found seen, derivation.commonConsequences ids = .ok found ∧
      part.commonConsequences ids = .ok seen ∧ ∀ id, id ∈ seen ↔ id ∈ found ∧ id ∈ part := by
  obtain ⟨found, searched⟩ := common_consequences_some fun id mem => inside id (known id mem)
  obtain ⟨seen, searched_part⟩ := common_consequences_some known
  refine ⟨found, seen, searched, searched_part, fun id => ?_⟩
  rw [mem_common_consequences coherent acyclic searched,
    mem_common_consequences part_coherent part_acyclic searched_part]
  constructor
  · intro here
    obtain ⟨mem, under⟩ := here
    exact ⟨⟨inside id mem, fun seed given => (same seed given id mem).mp (under seed given)⟩, mem⟩
  · intro here
    obtain ⟨⟨_, under⟩, mem⟩ := here
    exact ⟨mem, fun seed given => (same seed given id mem).mpr (under seed given)⟩

end Derivation
end DerivationReplay
