import DerivationReplay.Proofs.CleanUp

/-!
Contraction against a recursion over ancestors. `antecedents` says what a clause of preprocessing
goes back to: the clauses of the search and the first forms on its way up. The sweep that contracts
the table in place gives each clause of preprocessing its antecedents as parents and leaves the other
clauses alone; what is kept, and that the leaves stay the same, can be said by antecedents as well.
-/
namespace DerivationReplay.Derivation
open Relation

section Recursion
variable {table : Table}

def listedParents (table : Table) (id : ClauseId) : List ClauseId :=
  (table[id]?.map Clause.parents).getD []

theorem mem_listed_parents (parent id : ClauseId) :
    parent ∈ listedParents table id ↔ IsParent table parent id := by
  cases found : table[id]? <;> simp [listedParents, IsParent, found]

theorem parents_founded (acyclic : Acyclic table) : WellFounded (IsParent table) :=
  ⟨grounded_of_acyclic acyclic⟩

/-- What stands in for a parent whose own antecedents are given. One without antecedents stands for
itself, unless it is background theory. -/
def standIns (table : Table) (rule : String) (parent : ClauseId) (above : List ClauseId) :
    List ClauseId :=
  match table[parent]? with
  | none => [parent]
  | some source =>
    if source.fromPreprocessing = false then [parent]
    else if above ≠ [] then above
    else if source.rule = rule then [] else [parent]

/-- What stands in for the parents of a clause, in their order and without repetition. -/
def antecedents (acyclic : Acyclic table) (rule : String) (id : ClauseId) : List ClauseId :=
  ((listedParents table id).attach.flatMap fun ⟨parent, _⟩ =>
    standIns table rule parent (antecedents acyclic rule parent)).eraseDups
termination_by (parents_founded acyclic).wrap id
decreasing_by
  rename_i listed
  exact (mem_listed_parents parent id).mp listed

theorem antecedents_eq (acyclic : Acyclic table) (rule : String) (id : ClauseId) :
    antecedents acyclic rule id = ((listedParents table id).flatMap fun parent =>
      standIns table rule parent (antecedents acyclic rule parent)).eraseDups := by
  rw [antecedents]
  simp only [List.flatMap_subtype, List.unattach_attach]

theorem antecedents_found (acyclic : Acyclic table) (rule : String) {id : ClauseId}
    {clause : Clause} (found : table[id]? = some clause) :
    antecedents acyclic rule id = (clause.parents.flatMap fun parent =>
      standIns table rule parent (antecedents acyclic rule parent)).eraseDups := by
  rw [antecedents_eq, listedParents, found, Option.map_some, Option.getD_some]

end Recursion

section Contraction
variable {derivation : Derivation} (rule : String) (coherent : derivation.Coherent)
  (acyclic : Acyclic derivation.table)
include coherent acyclic

theorem contracted_parents_eq {id : ClauseId} {clause : Clause}
    (found : derivation.table[id]? = some clause) :
    contractedParents (derivation.contractTable rule) rule clause =
      antecedents acyclic rule id := by
  induction id using (parents_founded acyclic).induction generalizing clause with
  | h id ih =>
    rw [antecedents_found acyclic rule found, contractedParents]
    congr 1
    refine List.flatMap_congr fun listed mem => ?_
    have edge : IsParent derivation.table listed id := ⟨clause, found, mem⟩
    obtain ⟨source, here⟩ :=
      (mem_table_iff derivation.table listed).mp (coherent_closed coherent listed id edge)
    rw [standIns, here]
    cases input : source.fromPreprocessing with
    | false => simp [replace_search rule coherent acyclic here input, input]
    | true =>
      -- What the sweep finds there is the parent as it was contracted before.
      rw [replace_input rule coherent acyclic here input, ih listed edge here]
      by_cases none : antecedents acyclic rule listed = [] <;> simp [none, input]

theorem antecedents_nil_iff {id : ClauseId} {clause : Clause}
    (found : derivation.table[id]? = some clause) :
    antecedents acyclic rule id = [] ↔ OnlyBackground derivation.table rule id := by
  rw [← contracted_parents_eq rule coherent acyclic found,
    contracted_parents_nil_iff rule coherent acyclic found]

theorem survives_iff_antecedents {id : ClauseId} {clause : Clause}
    (found : derivation.get? id = some clause) : Survives derivation rule id ↔
      clause.fromPreprocessing = false ∨ id ∈ derivation.leaves ∨
        (∃ child user, derivation.get? child = some user ∧ user.fromPreprocessing = false ∧
          id ∈ user.parents) ∨
        clause.fromPreprocessing = true ∧ antecedents acyclic rule id = [] ∧
          clause.rule ≠ rule := by
  rw [antecedents_nil_iff rule coherent acyclic found]
  constructor
  · intro survives
    cases survives with
    | search other here own =>
      obtain rfl := Option.some.inj (found.symm.trans here)
      exact .inl own
    | leaf tip => exact .inr (.inl tip)
    | last child user used search listed =>
      exact .inr (.inr (.inl ⟨child, user, used, search, listed⟩))
    | first other here shown background =>
      obtain rfl := Option.some.inj (found.symm.trans here)
      cases input : clause.fromPreprocessing with
      | false => exact .inl rfl
      | true => exact .inr (.inr (.inr ⟨rfl, background, shown⟩))
  · intro kept
    rcases kept with own | tip | ⟨child, user, used, search, listed⟩ | ⟨_, background, shown⟩
    · exact .search clause found own
    · exact .leaf tip
    · exact .last child user used search listed
    · exact .first clause found shown background

theorem contraction_keeps_clause {id : ClauseId} {clause : Clause}
    (found : derivation.get? id = some clause)
    (kept : id ∈ derivation.contractPreprocessing rule) :
    ∃ children, (derivation.contractPreprocessing rule).get? id = some { clause with
      parents :=
        if clause.fromPreprocessing then antecedents acyclic rule id else clause.parents
      children } := by
  obtain ⟨shown, here⟩ := (mem_table_iff _ id).mp kept
  obtain ⟨source, known, bare⟩ := contraction_found rule coherent acyclic here
  obtain rfl := Option.some.inj (found.symm.trans known)
  have result : contracted (derivation.contractTable rule) rule clause = { clause with
      parents :=
        if clause.fromPreprocessing then antecedents acyclic rule id else clause.parents } := by
    rw [contracted, contracted_parents_eq rule coherent acyclic found]
    split <;> rfl
  rw [result] at bare
  exact get_of_bare ((bare_some_iff _ id _).mpr ⟨shown, here, bare⟩)

theorem contraction_leaves :
    (derivation.contractPreprocessing rule).leaves = derivation.leaves := by
  refine Std.ExtTreeSet.ext_mem fun id => ⟨contraction_leaf rule coherent acyclic, ?_⟩
  intro tip
  obtain ⟨known, childless⟩ := (leaf_iff coherent id).mp tip
  rw [leaf_iff (contract_coherent rule coherent (acyclic_traversable acyclic))]
  refine ⟨(contraction_mem_iff rule coherent acyclic id).mpr ⟨known, .leaf tip⟩, ?_⟩
  intro child edge
  -- A child in the contracted derivation is a descendant in the source, which a leaf has not.
  have above := contraction_ancestor rule coherent acyclic (parent_is_ancestor edge)
  obtain ⟨other, first, _⟩ := TransGen.head'_iff.mp above
  exact childless other first

/-- Contraction is what its recursion says. It keeps the clauses of the search and their parents, the
leaves, and the forms of preprocessing that have no antecedents and are no background theory; the
clauses of preprocessing get their antecedents for parents, and nothing else changes. -/
theorem contraction_by_antecedents :
    (derivation.contractPreprocessing rule).Coherent ∧
    (∀ id, id ∈ derivation.contractPreprocessing rule ↔ ∃ clause,
      derivation.get? id = some clause ∧
        (clause.fromPreprocessing = false ∨ id ∈ derivation.leaves ∨
          (∃ child user, derivation.get? child = some user ∧ user.fromPreprocessing = false ∧
            id ∈ user.parents) ∨
          clause.fromPreprocessing = true ∧ antecedents acyclic rule id = [] ∧
            clause.rule ≠ rule)) ∧
    (∀ id clause, derivation.get? id = some clause →
      id ∈ derivation.contractPreprocessing rule →
      ∃ children, (derivation.contractPreprocessing rule).get? id = some { clause with
        parents :=
          if clause.fromPreprocessing then antecedents acyclic rule id else clause.parents
        children }) ∧
    (derivation.contractPreprocessing rule).leaves = derivation.leaves := by
  refine ⟨contract_coherent rule coherent (acyclic_traversable acyclic), ?_, ?_,
    contraction_leaves rule coherent acyclic⟩
  · intro id
    rw [contraction_mem_iff rule coherent acyclic]
    constructor
    · intro kept
      obtain ⟨known, survives⟩ := kept
      obtain ⟨clause, found⟩ := (mem_table_iff derivation.table id).mp known
      exact ⟨clause, found, (survives_iff_antecedents rule coherent acyclic found).mp survives⟩
    · intro kept
      obtain ⟨clause, found, reason⟩ := kept
      exact ⟨(mem_table_iff derivation.table id).mpr ⟨clause, found⟩,
        (survives_iff_antecedents rule coherent acyclic found).mpr reason⟩
  · intro id clause found kept
    exact contraction_keeps_clause rule coherent acyclic found kept

end Contraction

def branchedForms : List Clause :=
  [{ id := 1, text := "p", rule := "input", fromPreprocessing := true },
    { id := 2, text := "c", rule := "choice axiom", fromPreprocessing := true },
    { id := 3, text := "q", rule := "cnf", parents := [1, 2, 1], fromPreprocessing := true },
    { id := 4, text := "r", rule := "resolution", parents := [3] },
    { id := 5, text := "s", rule := "definition", parents := [4, 3], fromPreprocessing := true },
    { id := 6, text := "t", rule := "cnf", parents := [5, 2, 3], fromPreprocessing := true },
    { id := 7, text := "$false", rule := "resolution", parents := [6, 4] }]

theorem branched_forms_contracted : ∃ derivation, ofClauses branchedForms = .ok derivation ∧
    ∃ acyclic : Acyclic derivation.table, antecedents acyclic "choice axiom" 6 = [4, 1] ∧
      (derivation.contractPreprocessing "choice axiom").ids = [1, 3, 4, 6, 7] ∧
      (derivation.contractPreprocessing "choice axiom").leaves = derivation.leaves := by
  obtain ⟨derivation, given, ids, ⟨clause, found, input⟩, parents⟩ : ∃ derivation,
      ofClauses branchedForms = .ok derivation ∧
      (derivation.contractPreprocessing "choice axiom").ids = [1, 3, 4, 6, 7] ∧
      (∃ clause, derivation.get? 6 = some clause ∧ clause.fromPreprocessing = true) ∧
      ((derivation.contractPreprocessing "choice axiom").get? 6).map Clause.parents =
        some [4, 1] := by
    refine ⟨_, rfl, rfl, ⟨_, rfl, rfl⟩, rfl⟩
  have acyclic := clauses_acyclic given (by simp [branchedForms])
  obtain ⟨_, _, unchanged, leaves⟩ :=
    contraction_by_antecedents "choice axiom" (clauses_coherent given) acyclic
  obtain ⟨shown, here, _⟩ := Option.map_eq_some_iff.mp parents
  obtain ⟨children, result⟩ := unchanged 6 clause found ((mem_table_iff _ 6).mpr ⟨shown, here⟩)
  rw [result] at parents
  exact ⟨derivation, given, acyclic, by simpa [input] using parents, ids, leaves⟩

end DerivationReplay.Derivation
