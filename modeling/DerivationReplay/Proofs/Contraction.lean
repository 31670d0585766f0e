import DerivationReplay.Derivation.Contraction
import DerivationReplay.Proofs.Views

/-!
Contraction settles: the parents that a clause of preprocessing ends with are those that the
contracted table itself prescribes. Each new edge shortens a path of old ones, so contraction makes
no cycle and the contracted derivation is coherent.
-/
namespace DerivationReplay.Derivation
open Relation

def contracted (table : Table) (rule : String) (clause : Clause) : Clause :=
  if clause.fromPreprocessing then { clause with parents := contractedParents table rule clause }
  else clause

def contractTrail (table : Table) (rule : String) (trail : List Clause) : Table :=
  trail.foldr (fun clause table => contractAt rule table clause.id) table

section Parents
variable {table other : Table} {rule : String}

theorem mem_contracted_parents (clause : Clause) (parent : ClauseId) :
    parent ∈ contractedParents table rule clause ↔
      ∃ listed ∈ clause.parents, parent ∈ replaceParent table rule listed := by
  rw [contractedParents, List.mem_eraseDups, List.mem_flatMap]

theorem contracted_of_search {clause : Clause} (search : clause.fromPreprocessing = false) :
    contracted table rule clause = clause := by
  simp [contracted, search]

theorem contracted_of_preprocessing {clause : Clause} (input : clause.fromPreprocessing = true) :
    contracted table rule clause =
      { clause with parents := contractedParents table rule clause } := by
  simp [contracted, input]

theorem contracted_eq (clause : Clause) : contracted table rule clause =
    { clause with parents := (contracted table rule clause).parents } := by
  unfold contracted
  split <;> rfl

theorem replace_parent_congr {parent : ClauseId} (same : table[parent]? = other[parent]?) :
    replaceParent table rule parent = replaceParent other rule parent := by
  rw [replaceParent, replaceParent, same]

theorem contracted_congr {clause : Clause}
    (same : ∀ parent ∈ clause.parents, table[parent]? = other[parent]?) :
    contracted table rule clause = contracted other rule clause := by
  have parents : contractedParents table rule clause = contractedParents other rule clause := by
    rw [contractedParents, contractedParents, List.flatMap_def, List.flatMap_def]
    congr 2
    exact List.map_congr_left fun parent listed => replace_parent_congr (same parent listed)
  rw [contracted, contracted, parents]

theorem replacement_cases {listed parent : ClauseId}
    (mem : parent ∈ replaceParent table rule listed) :
    parent = listed ∨ ∃ clause, table[listed]? = some clause ∧ clause.fromPreprocessing = true ∧
      parent ∈ clause.parents := by
  unfold replaceParent at mem
  split at mem
  · rename_i clause found
    split at mem
    · exact .inl (List.mem_singleton.mp mem)
    · rename_i input
      split at mem
      · exact .inr ⟨clause, found, by simpa using input, mem⟩
      · split at mem
        · simp at mem
        · exact .inl (List.mem_singleton.mp mem)
  · exact .inl (List.mem_singleton.mp mem)

end Parents

section Trail
variable {table : Table} (rule : String) {trail : List Clause}

theorem contract_at_found {id : ClauseId} {clause : Clause} (found : table[id]? = some clause)
    (other : ClauseId) : (contractAt rule table id)[other]? =
      if id = other then some (contracted table rule clause) else table[other]? := by
  simp only [contractAt, found]
  by_cases input : clause.fromPreprocessing = true
  · rw [if_pos input, get_insert, contracted_of_preprocessing input]
  · rw [if_neg input, contracted_of_search (by simpa using input)]
    split
    · rename_i same
      rw [← same, found]
    · rfl

theorem contract_trail_apart (finished : Finished table trail) {id : ClauseId}
    (apart : id ∉ trail.map Clause.id) : (contractTrail table rule trail)[id]? = table[id]? := by
  induction finished generalizing id with
  | nil => rfl
  | @cons next trail found fresh after earlier ih =>
    rw [List.map_cons, List.mem_cons, not_or] at apart
    have here : (contractTrail table rule trail)[next.id]? = some next := by rw [ih fresh, found]
    rw [contractTrail, List.foldr_cons, ← contractTrail, contract_at_found rule here,
      if_neg (Ne.symm apart.1), ih apart.2]

/-- No parent is contracted after its child, so what a clause was given still holds at the end. -/
theorem contract_trail_found (finished : Finished table trail) :
    ∀ clause ∈ trail, (contractTrail table rule trail)[clause.id]? =
      some (contracted (contractTrail table rule trail) rule clause) := by
  induction finished with
  | nil => simp
  | @cons next trail found fresh after earlier ih =>
    have here : (contractTrail table rule trail)[next.id]? = some next := by
      rw [contract_trail_apart rule earlier fresh, found]
    have changed : ∀ id, (contractTrail table rule (next :: trail))[id]? =
        if next.id = id then some (contracted (contractTrail table rule trail) rule next)
        else (contractTrail table rule trail)[id]? := contract_at_found rule here
    have nextKnown : next.id ∈ table := (mem_table_iff _ _).mpr ⟨next, found⟩
    intro clause mem
    -- What was settled earlier has parents that were settled earlier, so this turn changes nothing.
    have settled : contracted (contractTrail table rule trail) rule clause =
        contracted (contractTrail table rule (next :: trail)) rule clause := by
      refine contracted_congr fun parent listed => ?_
      have other : next.id ≠ parent := by
        rintro rfl
        rcases List.mem_cons.mp mem with rfl | mem
        · exact fresh (after _ listed nextKnown)
        · have edge : IsParent table next.id clause.id :=
            ⟨clause, finished_found earlier clause mem, listed⟩
          exact fresh (finished_parent earlier (List.mem_map.mpr ⟨clause, mem, rfl⟩) edge nextKnown)
      rw [changed, if_neg other]
    rw [changed, ← settled]
    rcases List.mem_cons.mp mem with rfl | mem
    · rw [if_pos rfl]
    · have other : next.id ≠ clause.id := fun same =>
        fresh (same ▸ List.mem_map.mpr ⟨clause, mem, rfl⟩)
      rw [if_neg other, ih clause mem]

theorem contract_trail_mem (finished : Finished table trail) (id : ClauseId) :
    id ∈ contractTrail table rule trail ↔ id ∈ table := by
  by_cases mem : id ∈ trail.map Clause.id
  · obtain ⟨clause, listed, rfl⟩ := List.mem_map.mp mem
    have after := contract_trail_found rule finished clause listed
    have before := finished_found finished clause listed
    rw [mem_table_iff, mem_table_iff, after, before]
    simp
  · rw [mem_table_iff, mem_table_iff, contract_trail_apart rule finished mem]

end Trail

section Table
variable {derivation : Derivation} (rule : String)

theorem contract_table_eq : derivation.contractTable rule =
    contractTrail derivation.table rule derivation.childrenFirst := by
  rw [contractTable, contractTrail, childrenFirst, List.foldl_map, List.foldr_reverse]

theorem contract_table_found (coherent : derivation.Coherent) (clear : derivation.Traversable) :
    ∀ clause ∈ derivation.childrenFirst, (derivation.contractTable rule)[clause.id]? =
      some (contracted (derivation.contractTable rule) rule clause) := by
  rw [contract_table_eq]
  exact contract_trail_found rule (children_first_finished coherent clear)

theorem contract_table_apart (coherent : derivation.Coherent) (clear : derivation.Traversable)
    {id : ClauseId} (apart : id ∉ derivation.childrenFirst.map Clause.id) :
    (derivation.contractTable rule)[id]? = derivation.table[id]? := by
  rw [contract_table_eq]
  exact contract_trail_apart rule (children_first_finished coherent clear) apart

theorem contract_table_mem (coherent : derivation.Coherent) (clear : derivation.Traversable)
    (id : ClauseId) : id ∈ derivation.contractTable rule ↔ id ∈ derivation := by
  rw [contract_table_eq]
  exact contract_trail_mem rule (children_first_finished coherent clear) id

theorem contract_table_keyed (coherent : derivation.Coherent) (clear : derivation.Traversable) :
    Keyed (derivation.contractTable rule) := by
  intro id clause found
  by_cases reached : id ∈ derivation.childrenFirst.map Clause.id
  · obtain ⟨source, listed, rfl⟩ := List.mem_map.mp reached
    rw [contract_table_found rule coherent clear source listed] at found
    rw [← Option.some.inj found, contracted_eq]
  · rw [contract_table_apart rule coherent clear reached] at found
    exact coherent.keyed id clause found

theorem contracted_parent_is_ancestor (coherent : derivation.Coherent)
    (clear : derivation.Traversable) {trail : List Clause}
    (finished : Finished derivation.table trail) (part : trail ⊆ derivation.childrenFirst) :
    ∀ clause ∈ trail,
      ∀ parent ∈ (contracted (derivation.contractTable rule) rule clause).parents,
        IsAncestor derivation.table parent clause.id := by
  induction finished with
  | nil => simp
  | @cons next trail found fresh after earlier ih =>
    intro clause mem parent listed
    have shorter : trail ⊆ derivation.childrenFirst :=
      fun _ mem => part (List.mem_cons_of_mem _ mem)
    rcases List.mem_cons.mp mem with rfl | mem
    · cases input : clause.fromPreprocessing with
      | false =>
        rw [contracted_of_search input] at listed
        exact parent_is_ancestor ⟨clause, found, listed⟩
      | true =>
        rw [contracted_of_preprocessing input] at listed
        obtain ⟨old, was, replaced⟩ := (mem_contracted_parents clause parent).mp listed
        have edge : IsParent derivation.table old clause.id := ⟨clause, found, was⟩
        rcases replacement_cases replaced with rfl | ⟨settled, here, _, above⟩
        · exact parent_is_ancestor edge
        · -- The old parent had its turn before: its own new parents are ancestors of it.
          have known := after old was (coherent_closed coherent old clause.id edge)
          obtain ⟨source, visited, rfl⟩ := List.mem_map.mp known
          rw [contract_table_found rule coherent clear source (shorter visited)] at here
          rw [← Option.some.inj here] at above
          exact TransGen.tail (ih shorter source visited parent above) edge
    · exact ih shorter clause mem parent listed

theorem contract_edge_is_ancestor (coherent : derivation.Coherent)
    (clear : derivation.Traversable) (parent child : ClauseId)
    (edge : IsParent (derivation.contractTable rule) parent child) :
    IsAncestor derivation.table parent child := by
  obtain ⟨clause, found, listed⟩ := edge
  by_cases reached : child ∈ derivation.childrenFirst.map Clause.id
  · obtain ⟨source, visited, rfl⟩ := List.mem_map.mp reached
    rw [contract_table_found rule coherent clear source visited] at found
    rw [← Option.some.inj found] at listed
    exact contracted_parent_is_ancestor rule coherent clear (children_first_finished coherent clear)
      (List.Subset.refl _) source visited parent listed
  · rw [contract_table_apart rule coherent clear reached] at found
    exact parent_is_ancestor ⟨clause, found, listed⟩

theorem contract_table_closed (coherent : derivation.Coherent) (clear : derivation.Traversable) :
    Closed (derivation.contractTable rule) := by
  intro parent child edge
  rw [contract_table_mem rule coherent clear]
  exact ancestor_in_table (coherent_closed coherent)
    (contract_edge_is_ancestor rule coherent clear parent child edge)

theorem contract_leaf_grounded (coherent : derivation.Coherent) (clear : derivation.Traversable) :
    ∀ leaf ∈ derivation.leaves.toList, Grounded (derivation.contractTable rule) leaf :=
  fun _ mem => grounded_of_ancestors (leaf_grounded clear (Std.ExtTreeSet.mem_toList.mp mem))
    (contract_edge_is_ancestor rule coherent clear)

theorem get_of_clauses {clauses : List Clause} (distinct : (clauses.map Clause.id).Nodup)
    (id : ClauseId) (clause : Clause) :
    (Std.ExtTreeMap.ofList (clauses.map fun clause => (clause.id, clause)) : Table)[id]? =
      some clause ↔ clause ∈ clauses ∧ clause.id = id := by
  have apart : (clauses.map fun clause => (clause.id, clause)).Pairwise
      fun first second => ¬ compare first.1 second.1 = .eq := by
    rw [List.pairwise_map]
    refine (List.pairwise_map.mp distinct).imp fun different same => different ?_
    exact Std.LawfulEqCmp.compare_eq_iff_eq.mp same
  have stored : ∀ clause ∈ clauses, (Std.ExtTreeMap.ofList
      (clauses.map fun clause => (clause.id, clause)) : Table)[clause.id]? = some clause :=
    fun clause mem => Std.ExtTreeMap.getElem?_ofList_of_mem Std.ReflCmp.compare_self apart
      (List.mem_map.mpr ⟨clause, mem, rfl⟩)
  constructor
  · intro found
    have mem := (mem_table_iff _ id).mpr ⟨clause, found⟩
    simp only [Std.ExtTreeMap.mem_ofList, List.map_map, List.contains_iff_mem, List.mem_map,
      Function.comp_apply] at mem
    obtain ⟨other, listed, rfl⟩ := mem
    obtain rfl : other = clause := Option.some.inj ((stored other listed).symm.trans found)
    exact ⟨listed, rfl⟩
  · rintro ⟨mem, rfl⟩
    exact stored clause mem

theorem contract_kept (coherent : derivation.Coherent) (clear : derivation.Traversable) :
    ∃ kept : Table, derivation.contractPreprocessing rule = assemble kept ∧
      ∀ (id : ClauseId) (clause : Clause), kept[id]? = some clause ↔
        (derivation.contractTable rule)[id]? = some clause ∧
          ∃ leaf ∈ derivation.leaves, Underlies (derivation.contractTable rule) id leaf := by
  refine ⟨_, rfl, fun id clause => ?_⟩
  have keyed : Keyed (derivation.contractTable rule) := contract_table_keyed rule coherent clear
  have grounded := contract_leaf_grounded rule coherent clear
  have finished := parents_first_finished keyed grounded
  have members := mem_parents_first keyed grounded
  have distinct := finished_nodup finished
  rw [List.map_reverse, List.nodup_reverse] at distinct
  rw [get_of_clauses distinct]
  constructor
  · rintro ⟨visited, rfl⟩
    refine ⟨finished_found finished clause (List.mem_reverse.mpr visited), ?_⟩
    obtain ⟨_, leaf, isLeaf, under⟩ := (members clause.id).mp (List.mem_map.mpr ⟨_, visited, rfl⟩)
    exact ⟨leaf, Std.ExtTreeSet.mem_toList.mp isLeaf, under⟩
  · rintro ⟨found, leaf, isLeaf, under⟩
    have reached := (members id).mpr ⟨(mem_table_iff _ id).mpr ⟨clause, found⟩, leaf,
      Std.ExtTreeSet.mem_toList.mpr isLeaf, under⟩
    obtain ⟨other, visited, rfl⟩ := List.mem_map.mp reached
    have here := finished_found finished other (List.mem_reverse.mpr visited)
    obtain rfl : other = clause := Option.some.inj (here.symm.trans found)
    exact ⟨visited, rfl⟩

theorem contract_acyclic (coherent : derivation.Coherent) (clear : derivation.Traversable) :
    Acyclic (derivation.contractPreprocessing rule).table := by
  obtain ⟨kept, view, found⟩ := contract_kept rule coherent clear
  have ancestors := contract_edge_is_ancestor rule coherent clear
  refine acyclic_under_leaves clear fun parent child edge => ?_
  rw [view, is_parent_assemble] at edge
  obtain ⟨clause, here, listed⟩ := edge
  obtain ⟨settled, leaf, tip, under⟩ := (found child clause).mp here
  exact ⟨ancestors parent child ⟨clause, settled, listed⟩, leaf, tip,
    underlies_of_ancestors ancestors under⟩

theorem contract_coherent (coherent : derivation.Coherent) (clear : derivation.Traversable) :
    (derivation.contractPreprocessing rule).Coherent := by
  obtain ⟨kept, view, found⟩ := contract_kept rule coherent clear
  rw [view]
  refine assemble_coherent (fun id clause here => ?_) ?_
  · exact contract_table_keyed rule coherent clear id clause ((found id clause).mp here).1
  · intro parent child edge
    obtain ⟨clause, here, listed⟩ := edge
    obtain ⟨source, leaf, isLeaf, under⟩ := (found child clause).mp here
    have edge : IsParent (derivation.contractTable rule) parent child := ⟨clause, source, listed⟩
    obtain ⟨other, known⟩ :=
      (mem_table_iff _ parent).mp (contract_table_closed rule coherent clear parent child edge)
    exact (mem_table_iff kept parent).mpr
      ⟨other, (found parent other).mpr ⟨known, leaf, isLeaf, ReflTransGen.head edge under⟩⟩

end Table

end DerivationReplay.Derivation
