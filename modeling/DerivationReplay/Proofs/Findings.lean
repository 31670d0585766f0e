import DerivationReplay.Proofs.Consequences
import DerivationReplay.Proofs.Enumeration
import DerivationReplay.Proofs.ViewContents

/-!
What a search for common consequences answers. It is refused for the least unknown clause. Otherwise
it finds each clause that all given ones underlie, once and in the order of the walk; if nothing is
given, it finds all clauses.
-/
namespace DerivationReplay

theorem ConsequenceSearch.found_sublist (given : ClauseIds) (trail : List Clause) :
    (trail.reverse.foldl (visit given) {}).found.Sublist (trail.map Clause.id) := by
  rw [List.foldl_reverse]
  induction trail with
  | nil => exact .slnil
  | cons next trail ih =>
    rw [List.foldr_cons, List.map_cons, visit]
    split
    · exact ih.cons_cons next.id
    · exact ih.cons next.id

namespace Derivation

structure Finds (derivation : Derivation) (ids found : List ClauseId) : Prop where
  members : ∀ id, id ∈ found ↔ id ∈ derivation ∧
    ∀ seed ∈ ids, seed = id ∨ IsAncestor derivation.table seed id
  once : found.Nodup
  ordered : found.Sublist (derivation.parentsFirst.map Clause.id)

section Finds
variable {derivation : Derivation} (coherent : derivation.Coherent)
  (acyclic : Acyclic derivation.table)
include coherent acyclic

theorem consequences_found {ids found : List ClauseId}
    (searched : derivation.commonConsequences ids = .ok found) : Finds derivation ids found := by
  have ordered : found.Sublist (derivation.parentsFirst.map Clause.id) := by
    obtain ⟨_, rfl⟩ := (request_ok_iff derivation ids _ _).mp searched
    have latest_first :=
      ConsequenceSearch.found_sublist (.ofList ids) derivation.parentsFirst.reverse
    rw [List.reverse_reverse, List.map_reverse] at latest_first
    exact List.reverse_sublist.mp (by rwa [List.reverse_reverse])
  refine ⟨fun id => ?_, ?_, ordered⟩
  · rw [mem_common_consequences coherent acyclic searched]
    simp only [underlies_iff]
  · exact ordered.nodup (parents_first_nodup coherent (acyclic_traversable acyclic))

theorem acyclic_parents_first (id : ClauseId) :
    id ∈ derivation.parentsFirst.map Clause.id ↔ id ∈ derivation := by
  have reached := acyclic_children_first coherent acyclic id
  rwa [childrenFirst, List.map_reverse, List.mem_reverse] at reached

theorem finds_all_of_none {found : List ClauseId} (finds : Finds derivation [] found) :
    found = derivation.parentsFirst.map Clause.id := by
  have listed : ∀ id, id ∈ derivation.parentsFirst.map Clause.id ↔ id ∈ found := by
    intro id
    rw [acyclic_parents_first coherent acyclic, finds.members]
    simp
  have walked := parents_first_nodup coherent (acyclic_traversable acyclic)
  have same := (List.perm_ext_iff_of_nodup walked finds.once).mpr listed
  exact finds.ordered.eq_of_length same.length_eq.symm

/-- The search is exact for any known clauses, repeated or not, and refused if one is unknown. -/
theorem search_is_exact (ids : List ClauseId) :
    ((∀ id ∈ ids, id ∈ derivation) →
      ∃ found, derivation.commonConsequences ids = .ok found ∧ Finds derivation ids found) ∧
    ((∃ id ∈ ids, id ∉ derivation) → ∃ unknown, LeastUnknown derivation ids unknown ∧
      derivation.commonConsequences ids = .error ⟨unknown⟩) ∧
    derivation.commonConsequences [] = .ok (derivation.parentsFirst.map Clause.id) ∧
    ∀ id, id ∈ derivation.parentsFirst.map Clause.id ↔ id ∈ derivation := by
  refine ⟨fun known => ?_, fun absent => request_refused _ absent, ?_,
    acyclic_parents_first coherent acyclic⟩
  · obtain ⟨found, searched⟩ := common_consequences_some known
    exact ⟨found, searched, consequences_found coherent acyclic searched⟩
  · have none_unknown : ∀ id ∈ ([] : List ClauseId), id ∈ derivation := by simp
    obtain ⟨found, searched⟩ := common_consequences_some none_unknown
    have finds := consequences_found coherent acyclic searched
    rw [searched, finds_all_of_none coherent acyclic finds]

end Finds

theorem diamond_searched : ∃ derivation, ofClauses diamond = .ok derivation ∧
    (∃ found, derivation.commonConsequences [3, 1, 3] = .ok found ∧
      Finds derivation [3, 1, 3] found ∧ found = [3, 4, 6]) ∧
    (∃ unknown, LeastUnknown derivation [9, 2, 7] unknown ∧
      derivation.commonConsequences [9, 2, 7] = .error ⟨unknown⟩) ∧
    derivation.commonConsequences [] = .ok [5, 1, 3, 2, 4, 6] := by
  obtain ⟨derivation, given, first, third, absent, order, searched⟩ : ∃ derivation,
      ofClauses diamond = .ok derivation ∧ 1 ∈ derivation ∧ 3 ∈ derivation ∧ 7 ∉ derivation ∧
      derivation.parentsFirst.map Clause.id = [5, 1, 3, 2, 4, 6] ∧
      derivation.commonConsequences [3, 1, 3] = .ok [3, 4, 6] :=
    ⟨_, rfl, by decide, by decide, by decide, rfl, rfl⟩
  have coherent := clauses_coherent given
  have acyclic := clauses_acyclic given (by simp [diamond])
  obtain ⟨found, answered, finds⟩ :=
    (search_is_exact coherent acyclic [3, 1, 3]).1 (by simp [first, third])
  obtain ⟨_, refused, all, _⟩ := search_is_exact coherent acyclic [9, 2, 7]
  rw [searched] at answered
  obtain rfl := Except.ok.inj answered
  exact ⟨derivation, given, ⟨_, searched, finds, rfl⟩, refused ⟨7, by simp, absent⟩, order ▸ all⟩

end Derivation
end DerivationReplay
