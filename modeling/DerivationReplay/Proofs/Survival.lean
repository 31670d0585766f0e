import DerivationReplay.Proofs.Contraction

/-!
What contraction keeps of a derivation without a cycle: the clauses of the search, the leaves, the
last forms of preprocessing, and the first forms that are no background theory.
-/
namespace DerivationReplay.Derivation
open Relation

def OnlyBackground (table : Table) (rule : String) (id : ClauseId) : Prop :=
  ∀ ancestor, IsAncestor table ancestor id → ∃ clause, table[ancestor]? = some clause ∧
    clause.fromPreprocessing = true ∧ clause.rule = rule

inductive Survives (derivation : Derivation) (rule : String) (id : ClauseId) : Prop
  | search (clause : Clause) (found : derivation.get? id = some clause)
      (own : clause.fromPreprocessing = false)
  | leaf (tip : id ∈ derivation.leaves)
  | last (child : ClauseId) (user : Clause) (found : derivation.get? child = some user)
      (search : user.fromPreprocessing = false) (listed : id ∈ user.parents)
  | first (clause : Clause) (found : derivation.get? id = some clause) (shown : clause.rule ≠ rule)
      (background : OnlyBackground derivation.table rule id)

theorem contracted_parents_nil {table : Table} {rule : String} {clause : Clause} :
    contractedParents table rule clause = [] ↔
      ∀ listed ∈ clause.parents, replaceParent table rule listed = [] := by
  simp only [List.eq_nil_iff_forall_not_mem, mem_contracted_parents, not_exists, not_and]
  constructor
  · intro none listed mem parent
    exact none parent listed mem
  · intro none parent listed mem
    exact none listed mem parent

variable {derivation : Derivation} (rule : String) (coherent : derivation.Coherent)
  (acyclic : Acyclic derivation.table)
include coherent acyclic

theorem settled {id : ClauseId} {clause : Clause} (found : derivation.table[id]? = some clause) :
    (derivation.contractTable rule)[id]? =
      some (contracted (derivation.contractTable rule) rule clause) := by
  have clear := acyclic_traversable acyclic
  have mem := (acyclic_children_first coherent acyclic id).mpr
    ((mem_table_iff derivation.table id).mpr ⟨clause, found⟩)
  obtain ⟨source, visited, rfl⟩ := List.mem_map.mp mem
  have here := finished_found (children_first_finished coherent clear) source visited
  obtain rfl := Option.some.inj (here.symm.trans found)
  exact contract_table_found rule coherent clear source visited

theorem contracted_edge_iff {parent child : ClauseId} {clause : Clause}
    (found : derivation.table[child]? = some clause) :
    IsParent (derivation.contractTable rule) parent child ↔
      parent ∈ (contracted (derivation.contractTable rule) rule clause).parents := by
  have here := settled rule coherent acyclic found
  constructor
  · intro replaced
    obtain ⟨other, same, listed⟩ := replaced
    rwa [← Option.some.inj (same.symm.trans here)]
  · intro listed
    exact ⟨_, here, listed⟩

theorem search_edge_iff {parent child : ClauseId} {clause : Clause}
    (found : derivation.table[child]? = some clause) (search : clause.fromPreprocessing = false) :
    IsParent (derivation.contractTable rule) parent child ↔ parent ∈ clause.parents := by
  rw [contracted_edge_iff rule coherent acyclic found, contracted_of_search search]

theorem input_edge_iff {parent child : ClauseId} {clause : Clause}
    (found : derivation.table[child]? = some clause) (input : clause.fromPreprocessing = true) :
    IsParent (derivation.contractTable rule) parent child ↔
      ∃ listed ∈ clause.parents,
        parent ∈ replaceParent (derivation.contractTable rule) rule listed := by
  rw [contracted_edge_iff rule coherent acyclic found, contracted_of_preprocessing input,
    mem_contracted_parents]

theorem replace_search {listed : ClauseId} {clause : Clause}
    (found : derivation.table[listed]? = some clause) (search : clause.fromPreprocessing = false) :
    replaceParent (derivation.contractTable rule) rule listed = [listed] := by
  simp [replaceParent, settled rule coherent acyclic found, contracted_of_search search, search]

theorem replace_input {listed : ClauseId} {clause : Clause}
    (found : derivation.table[listed]? = some clause) (input : clause.fromPreprocessing = true) :
    replaceParent (derivation.contractTable rule) rule listed =
      if contractedParents (derivation.contractTable rule) rule clause = [] then
        if clause.rule = rule then [] else [listed]
      else contractedParents (derivation.contractTable rule) rule clause := by
  simp only [replaceParent, settled rule coherent acyclic found, contracted_of_preprocessing input,
    input]
  by_cases none : contractedParents (derivation.contractTable rule) rule clause = [] <;>
    simp [none]

theorem contracted_parents_nil_iff {id : ClauseId} {clause : Clause}
    (found : derivation.table[id]? = some clause) :
    contractedParents (derivation.contractTable rule) rule clause = [] ↔
      OnlyBackground derivation.table rule id := by
  have grounded : Grounded derivation.table id := grounded_of_acyclic acyclic id
  induction grounded generalizing clause with
  | intro id _ ih =>
    have replaced : ∀ listed ∈ clause.parents,
        replaceParent (derivation.contractTable rule) rule listed = [] ↔
          ∃ source, derivation.table[listed]? = some source ∧ source.fromPreprocessing = true ∧
            source.rule = rule ∧ OnlyBackground derivation.table rule listed := by
      intro listed mem
      have edge : IsParent derivation.table listed id := ⟨clause, found, mem⟩
      obtain ⟨source, here⟩ :=
        (mem_table_iff _ listed).mp (coherent_closed coherent listed id edge)
      have above : contractedParents (derivation.contractTable rule) rule source = [] ↔
          OnlyBackground derivation.table rule listed := ih listed edge here
      simp only [here, Option.some.injEq, exists_eq_left']
      cases input : source.fromPreprocessing with
      | false => simp [replace_search rule coherent acyclic here input]
      | true =>
        rw [replace_input rule coherent acyclic here input, ← above]
        by_cases none : contractedParents (derivation.contractTable rule) rule source = [] <;>
          simp [none]
    rw [contracted_parents_nil]
    constructor
    · intro none ancestor above
      obtain ⟨parent, under, other, same, listed⟩ := TransGen.tail'_iff.mp above
      obtain rfl := Option.some.inj (found.symm.trans same)
      obtain ⟨source, here, input, choice, rest⟩ := (replaced parent listed).mp (none parent listed)
      rcases reflTransGen_iff_eq_or_transGen.mp under with rfl | higher
      · exact ⟨source, here, input, choice⟩
      · exact rest ancestor higher
    · intro background listed mem
      have edge : IsParent derivation.table listed id := ⟨clause, found, mem⟩
      obtain ⟨source, here, input, choice⟩ := background listed (parent_is_ancestor edge)
      refine (replaced listed mem).mpr ⟨source, here, input, choice, fun ancestor above => ?_⟩
      exact background ancestor (TransGen.tail above edge)

theorem new_parent_cases {parent child : ClauseId} {clause : Clause}
    (found : derivation.table[child]? = some clause) (input : clause.fromPreprocessing = true)
    (edge : IsParent (derivation.contractTable rule) parent child) :
    ∃ source, derivation.table[parent]? = some source ∧ (source.fromPreprocessing = false ∨
      source.rule ≠ rule ∧ OnlyBackground derivation.table rule parent) := by
  -- Along the climb: what a form of preprocessing hands down was handed to it in the same way.
  have grounded : Grounded derivation.table child := grounded_of_acyclic acyclic child
  induction grounded generalizing clause with
  | intro child _ ih =>
    obtain ⟨listed, mem, replaced⟩ := (input_edge_iff rule coherent acyclic found input).mp edge
    have old : IsParent derivation.table listed child := ⟨clause, found, mem⟩
    obtain ⟨source, here⟩ := (mem_table_iff _ listed).mp (coherent_closed coherent listed child old)
    cases search : source.fromPreprocessing with
    | false =>
      rw [replace_search rule coherent acyclic here search, List.mem_singleton] at replaced
      exact ⟨source, replaced ▸ here, .inl search⟩
    | true =>
      rw [replace_input rule coherent acyclic here search] at replaced
      split at replaced
      · rename_i none
        split at replaced
        · simp at replaced
        · rename_i shown
          obtain rfl := List.mem_singleton.mp replaced
          exact ⟨source, here, .inr ⟨shown,
            (contracted_parents_nil_iff rule coherent acyclic here).mp none⟩⟩
      · have above : IsParent (derivation.contractTable rule) parent listed := by
          rw [contracted_edge_iff rule coherent acyclic here, contracted_of_preprocessing search]
          exact replaced
        exact ih listed old here search above

theorem search_edge_kept {parent child : ClauseId} {source user : Clause}
    (here : derivation.table[parent]? = some source) (found : derivation.table[child]? = some user)
    (listed : parent ∈ user.parents)
    (search : source.fromPreprocessing = false ∨ user.fromPreprocessing = false) :
    IsParent (derivation.contractTable rule) parent child := by
  cases input : user.fromPreprocessing with
  | false => exact (search_edge_iff rule coherent acyclic found input).mpr listed
  | true =>
    have own : source.fromPreprocessing = false := by simpa [input] using search
    refine (input_edge_iff rule coherent acyclic found input).mpr ⟨parent, listed, ?_⟩
    rw [replace_search rule coherent acyclic here own]
    exact List.mem_singleton_self parent

theorem new_parent_passed {parent listed child : ClauseId} {source user : Clause}
    (here : derivation.table[listed]? = some source) (input : source.fromPreprocessing = true)
    (found : derivation.table[child]? = some user) (user_input : user.fromPreprocessing = true)
    (mem : listed ∈ user.parents) (new : IsParent (derivation.contractTable rule) parent listed) :
    IsParent (derivation.contractTable rule) parent child := by
  rw [contracted_edge_iff rule coherent acyclic here, contracted_of_preprocessing input] at new
  refine (input_edge_iff rule coherent acyclic found user_input).mpr ⟨listed, mem, ?_⟩
  rw [replace_input rule coherent acyclic here input, if_neg (List.ne_nil_of_mem new)]
  exact new

theorem reaches_leaf (id : ClauseId) (mem : id ∈ derivation) :
    (∀ parent, IsParent (derivation.contractTable rule) parent id →
      ∃ leaf ∈ derivation.leaves, Underlies (derivation.contractTable rule) parent leaf) ∧
    ∀ clause, derivation.table[id]? = some clause → clause.fromPreprocessing = false →
      ∃ leaf ∈ derivation.leaves, Underlies (derivation.contractTable rule) id leaf := by
  induction id using (children_founded acyclic).induction with
  | h id ih =>
    rcases leaf_or_parent coherent mem with tip | ⟨child, user, found, listed⟩
    · refine ⟨fun parent new => ⟨id, tip, ReflTransGen.single new⟩, fun _ _ _ => ?_⟩
      exact ⟨id, tip, ReflTransGen.refl⟩
    · have edge : IsParent derivation.table id child := ⟨user, found, listed⟩
      have below := (ih child edge (child_in_table edge)).1
      obtain ⟨source, here⟩ := (mem_table_iff derivation.table id).mp mem
      constructor
      · intro parent new
        -- Between two forms the child takes over the new parents, otherwise it keeps the edge.
        by_cases search : source.fromPreprocessing = false ∨ user.fromPreprocessing = false
        · obtain ⟨leaf, tip, under⟩ :=
            below id (search_edge_kept rule coherent acyclic here found listed search)
          exact ⟨leaf, tip, ReflTransGen.head new under⟩
        · obtain ⟨input, user_input⟩ : source.fromPreprocessing = true ∧
              user.fromPreprocessing = true := by simpa using search
          exact below parent
            (new_parent_passed rule coherent acyclic here input found user_input listed new)
      · intro clause known search
        obtain rfl := Option.some.inj (here.symm.trans known)
        exact below id (search_edge_kept rule coherent acyclic here found listed (.inl search))

theorem first_edge_kept {parent child : ClauseId} {source user : Clause}
    (here : derivation.table[parent]? = some source) (found : derivation.table[child]? = some user)
    (listed : parent ∈ user.parents) (shown : source.rule ≠ rule)
    (background : OnlyBackground derivation.table rule parent) :
    IsParent (derivation.contractTable rule) parent child := by
  by_cases search : source.fromPreprocessing = false ∨ user.fromPreprocessing = false
  · exact search_edge_kept rule coherent acyclic here found listed search
  · obtain ⟨input, user_input⟩ : source.fromPreprocessing = true ∧
        user.fromPreprocessing = true := by simpa using search
    refine (input_edge_iff rule coherent acyclic found user_input).mpr ⟨parent, listed, ?_⟩
    rw [replace_input rule coherent acyclic here input,
      if_pos ((contracted_parents_nil_iff rule coherent acyclic here).mpr background), if_neg shown]
    exact List.mem_singleton_self parent

theorem reached_iff_survives {id : ClauseId} (mem : id ∈ derivation) :
    (∃ leaf ∈ derivation.leaves, Underlies (derivation.contractTable rule) id leaf) ↔
      Survives derivation rule id := by
  obtain ⟨source, here⟩ := (mem_table_iff derivation.table id).mp mem
  constructor
  · intro above
    obtain ⟨leaf, tip, under⟩ := above
    rcases ReflTransGen.cases_head under with rfl | ⟨child, edge, _⟩
    · exact .leaf tip
    · have inside : child ∈ derivation.contractTable rule := child_in_table edge
      rw [contract_table_mem rule coherent (acyclic_traversable acyclic)] at inside
      obtain ⟨user, found⟩ := (mem_table_iff derivation.table child).mp inside
      cases input : user.fromPreprocessing with
      | false =>
        exact .last child user found input
          ((search_edge_iff rule coherent acyclic found input).mp edge)
      | true =>
        obtain ⟨clause, known, search | ⟨shown, background⟩⟩ :=
          new_parent_cases rule coherent acyclic found input edge
        · exact .search clause known search
        · exact .first clause known shown background
  · have below := reaches_leaf rule coherent acyclic
    intro survives
    cases survives with
    | search clause found own => exact (below id mem).2 clause found own
    | leaf tip => exact ⟨id, tip, ReflTransGen.refl⟩
    | last child user found search listed =>
      have edge := (search_edge_iff rule coherent acyclic found search).mpr listed
      exact (below child ((mem_table_iff _ child).mpr ⟨user, found⟩)).1 id edge
    | first clause found shown background =>
      rcases leaf_or_parent coherent mem with tip | ⟨child, user, used, listed⟩
      · exact ⟨id, tip, ReflTransGen.refl⟩
      · have edge := first_edge_kept rule coherent acyclic found used listed shown background
        exact (below child ((mem_table_iff _ child).mpr ⟨user, used⟩)).1 id edge

theorem contraction_mem_iff (id : ClauseId) : id ∈ derivation.contractPreprocessing rule ↔
    id ∈ derivation ∧ Survives derivation rule id := by
  have clear := acyclic_traversable acyclic
  obtain ⟨kept, view, found⟩ := contract_kept rule coherent clear
  rw [view, mem_assemble, mem_table_iff]
  simp only [found, exists_and_right]
  rw [← mem_table_iff, contract_table_mem rule coherent clear]
  exact and_congr_right fun mem => reached_iff_survives rule coherent acyclic mem

/-- Contraction keeps the survivors, with their lives. -/
theorem contraction_keeps_iff (id : ClauseId) (life : Lifecycle) :
    ((derivation.contractPreprocessing rule).get? id).map Clause.life = some life ↔
      (derivation.get? id).map Clause.life = some life ∧ Survives derivation rule id := by
  obtain ⟨kept, view, found⟩ := contract_kept rule coherent (acyclic_traversable acyclic)
  rw [view, get_assemble, Option.map_map]
  simp only [Option.map_eq_some_iff, Function.comp_apply]
  constructor
  · intro lives
    obtain ⟨clause, here, rfl⟩ := lives
    obtain ⟨settled_here, reached⟩ := (found id clause).mp here
    have mem : id ∈ derivation := by
      rw [← contract_table_mem rule coherent (acyclic_traversable acyclic)]
      exact (mem_table_iff _ id).mpr ⟨clause, settled_here⟩
    obtain ⟨source, known⟩ := (mem_table_iff derivation.table id).mp mem
    obtain rfl := Option.some.inj (settled_here.symm.trans (settled rule coherent acyclic known))
    exact ⟨⟨source, known, by rw [contracted_eq]⟩,
      (reached_iff_survives rule coherent acyclic mem).mp reached⟩
  · intro lives
    obtain ⟨⟨source, known, rfl⟩, survives⟩ := lives
    have mem : id ∈ derivation := (mem_table_iff derivation.table id).mpr ⟨source, known⟩
    refine ⟨_, (found id _).mpr ⟨settled rule coherent acyclic known,
      (reached_iff_survives rule coherent acyclic mem).mpr survives⟩, by rw [contracted_eq]⟩

end DerivationReplay.Derivation
