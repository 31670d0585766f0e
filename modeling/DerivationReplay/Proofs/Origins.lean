import DerivationReplay.Proofs.Coherence
import DerivationReplay.Proofs.Consequences
import DerivationReplay.Proofs.Survival

/-!
Contraction keeps where clauses come from. The clauses of the search and the input formulas are
origins: each of them stays, and stays an ancestor of whatever is kept of its descendants, however
many forms of preprocessing are dropped on the way.
-/
namespace DerivationReplay.Derivation
open Relation

/-- A clause of the search, or an input formula that is no background theory. -/
inductive Origin (derivation : Derivation) (rule : String) (id : ClauseId) : Prop
  | search (clause : Clause) (found : derivation.get? id = some clause)
      (own : clause.fromPreprocessing = false)
  | input (clause : Clause) (found : derivation.get? id = some clause)
      (own : clause.fromPreprocessing = true) (first : clause.parents = [])
      (shown : clause.rule ≠ rule)

theorem first_only_background {table : Table} {rule : String} {id : ClauseId} {clause : Clause}
    (found : table[id]? = some clause) (first : clause.parents = []) :
    OnlyBackground table rule id := by
  intro ancestor above
  obtain ⟨parent, _, other, here, listed⟩ := TransGen.tail'_iff.mp above
  obtain rfl := Option.some.inj (found.symm.trans here)
  simp [first] at listed

theorem origin_survives {derivation : Derivation} {rule : String} {id : ClauseId}
    (origin : Origin derivation rule id) : Survives derivation rule id := by
  cases origin with
  | search clause found own => exact .search clause found own
  | input clause found _ first shown =>
    exact .first clause found shown (first_only_background found first)

theorem origin_mem {derivation : Derivation} {rule : String} {id : ClauseId}
    (origin : Origin derivation rule id) : id ∈ derivation := by
  cases origin with
  | search clause found _ => exact (mem_table_iff derivation.table id).mpr ⟨clause, found⟩
  | input clause found _ _ _ => exact (mem_table_iff derivation.table id).mpr ⟨clause, found⟩

section Contraction
variable {derivation : Derivation} (rule : String) (coherent : derivation.Coherent)
  (acyclic : Acyclic derivation.table)
include coherent acyclic

theorem origin_edge_kept {parent child : ClauseId} (origin : Origin derivation rule parent)
    (edge : IsParent derivation.table parent child) :
    IsParent (derivation.contractTable rule) parent child := by
  obtain ⟨user, used, listed⟩ := edge
  cases origin with
  | search clause found own =>
    exact search_edge_kept rule coherent acyclic found used listed (.inl own)
  | input clause found _ first shown =>
    exact first_edge_kept rule coherent acyclic found used listed shown
      (first_only_background found first)

theorem origin_ancestor_kept {origin id : ClauseId} (from_origin : Origin derivation rule origin)
    (above : IsAncestor derivation.table origin id) :
    IsAncestor (derivation.contractTable rule) origin id := by
  induction above with
  | single edge => exact parent_is_ancestor (origin_edge_kept rule coherent acyclic from_origin edge)
  | @tail parent child above edge ih =>
    obtain ⟨user, found, listed⟩ := edge
    obtain ⟨source, here⟩ := (mem_table_iff derivation.table parent).mp (descendant_in_table above)
    by_cases search : source.fromPreprocessing = false ∨ user.fromPreprocessing = false
    · exact TransGen.tail ih (search_edge_kept rule coherent acyclic here found listed search)
    -- The parent may be dropped; its own new parent on the path takes its place.
    · obtain ⟨input, user_input⟩ : source.fromPreprocessing = true ∧
          user.fromPreprocessing = true := by simpa using search
      obtain ⟨upper, under, new⟩ := TransGen.tail'_iff.mp ih
      exact TransGen.tail' under
        (new_parent_passed rule coherent acyclic here input found user_input listed new)

theorem contraction_edge_iff (parent child : ClauseId) :
    IsParent (derivation.contractPreprocessing rule).table parent child ↔
      IsParent (derivation.contractTable rule) parent child ∧
        child ∈ derivation.contractPreprocessing rule := by
  obtain ⟨kept, view, found⟩ := contract_kept rule coherent (acyclic_traversable acyclic)
  rw [view, is_parent_assemble, mem_assemble, mem_table_iff]
  simp only [IsParent, found]
  constructor
  · intro edge
    obtain ⟨clause, ⟨here, leaf⟩, listed⟩ := edge
    exact ⟨⟨clause, here, listed⟩, clause, here, leaf⟩
  · intro edge
    obtain ⟨⟨clause, here, listed⟩, _, _, leaf⟩ := edge
    exact ⟨clause, ⟨here, leaf⟩, listed⟩

theorem contraction_ancestor {ancestor id : ClauseId}
    (above : IsAncestor (derivation.contractPreprocessing rule).table ancestor id) :
    IsAncestor derivation.table ancestor id := by
  refine TransGen.closed (fun parent child edge => ?_) _ _ above
  have new := ((contraction_edge_iff rule coherent acyclic parent child).mp edge).1
  exact contract_edge_is_ancestor rule coherent (acyclic_traversable acyclic) parent child new

theorem contraction_ancestor_kept {ancestor id : ClauseId}
    (mem : id ∈ derivation.contractPreprocessing rule)
    (above : IsAncestor (derivation.contractTable rule) ancestor id) :
    IsAncestor (derivation.contractPreprocessing rule).table ancestor id := by
  have closed := coherent_closed (contract_coherent rule coherent (acyclic_traversable acyclic))
  have edges := contraction_edge_iff rule coherent acyclic
  induction above using TransGen.head_induction_on with
  | single edge => exact parent_is_ancestor ((edges _ _).mpr ⟨edge, mem⟩)
  | head edge _ ih =>
    have inside := ancestor_in_table closed ih
    exact TransGen.head ((edges _ _).mpr ⟨edge, inside⟩) ih

theorem origin_underlies_iff {origin id : ClauseId} (from_origin : Origin derivation rule origin)
    (mem : id ∈ derivation.contractPreprocessing rule) :
    Underlies (derivation.contractPreprocessing rule).table origin id ↔
      Underlies derivation.table origin id := by
  rw [underlies_iff, underlies_iff]
  refine or_congr_right ?_
  constructor
  · exact contraction_ancestor rule coherent acyclic
  · intro above
    exact contraction_ancestor_kept rule coherent acyclic mem
      (origin_ancestor_kept rule coherent acyclic from_origin above)

theorem origin_kept {id : ClauseId} (origin : Origin derivation rule id) :
    id ∈ derivation.contractPreprocessing rule :=
  (contraction_mem_iff rule coherent acyclic id).mpr ⟨origin_mem origin, origin_survives origin⟩

theorem origin_search_agrees (given : List ClauseId)
    (origins : ∀ id ∈ given, Origin derivation rule id) :
    ∃ found kept, derivation.commonConsequences given = .ok found ∧
      (derivation.contractPreprocessing rule).commonConsequences given = .ok kept ∧
      ∀ id, id ∈ kept ↔ id ∈ found ∧ id ∈ derivation.contractPreprocessing rule := by
  have clear := acyclic_traversable acyclic
  refine search_in_part coherent acyclic (contract_coherent rule coherent clear)
    (contract_acyclic rule coherent clear) ?_ ?_ ?_
  · intro id mem
    exact ((contraction_mem_iff rule coherent acyclic id).mp mem).1
  · intro id mem
    exact origin_kept rule coherent acyclic (origins id mem)
  · intro seed mem id inside
    exact origin_underlies_iff rule coherent acyclic (origins seed mem) inside

/-- Contraction loses no origin and misattributes nothing: a search for what is derived from origins
finds what it found before and is kept, and no ancestor is new. -/
theorem contraction_keeps_origins :
    (∀ id, Origin derivation rule id → id ∈ derivation.contractPreprocessing rule) ∧
    (∀ given : List ClauseId, (∀ id ∈ given, Origin derivation rule id) →
      ∃ found kept, derivation.commonConsequences given = .ok found ∧
        (derivation.contractPreprocessing rule).commonConsequences given = .ok kept ∧
        ∀ id, id ∈ kept ↔ id ∈ found ∧ id ∈ derivation.contractPreprocessing rule) ∧
    ∀ ancestor id, IsAncestor (derivation.contractPreprocessing rule).table ancestor id →
      IsAncestor derivation.table ancestor id := by
  refine ⟨?_, ?_, ?_⟩
  · intro id origin
    exact origin_kept rule coherent acyclic origin
  · exact origin_search_agrees rule coherent acyclic
  · intro ancestor id above
    exact contraction_ancestor rule coherent acyclic above

end Contraction

def clausifiedInput : List Clause :=
  [{ id := 1, text := "p", rule := "input", fromPreprocessing := true },
    { id := 2, text := "q", rule := "rectify", parents := [1], fromPreprocessing := true },
    { id := 3, text := "c", rule := "choice axiom", fromPreprocessing := true },
    { id := 4, text := "r", rule := "cnf", parents := [2, 3], fromPreprocessing := true },
    { id := 5, text := "s", rule := "resolution", parents := [4] },
    { id := 6, text := "$false", rule := "resolution", parents := [5, 4] }]

theorem clausified_input_kept : ∃ derivation, ofClauses clausifiedInput = .ok derivation ∧
    (derivation.contractPreprocessing "choice axiom").ids = [1, 4, 5, 6] ∧
    ∃ found kept, derivation.commonConsequences [1, 5] = .ok found ∧
      (derivation.contractPreprocessing "choice axiom").commonConsequences [1, 5] = .ok kept ∧
      ∀ id, id ∈ kept ↔ id ∈ found ∧ id ∈ derivation.contractPreprocessing "choice axiom" := by
  obtain ⟨derivation, given, ids, first, search⟩ : ∃ derivation,
      ofClauses clausifiedInput = .ok derivation ∧
      (derivation.contractPreprocessing "choice axiom").ids = [1, 4, 5, 6] ∧
      Origin derivation "choice axiom" 1 ∧ Origin derivation "choice axiom" 5 := by
    refine ⟨_, rfl, by cbv, .input _ rfl rfl rfl ?_, .search _ rfl rfl⟩
    decide
  have acyclic := clauses_acyclic given (by simp [clausifiedInput])
  have kept := contraction_keeps_origins "choice axiom" (clauses_coherent given) acyclic
  exact ⟨derivation, given, ids, kept.2.1 [1, 5] (by simp [first, search])⟩

end DerivationReplay.Derivation
