import DerivationReplay.Proofs.Origins
import DerivationReplay.Proofs.Tolerance
import Mathlib.Data.List.Basic

/-!
Clean-up done twice is clean-up done once. One contraction leaves nothing to contract: a clause of
preprocessing keeps only parents of the search and first forms of input formulas. It makes no leaf,
and the leaves of a pruned derivation are activated, so there is nothing left to prune either.
-/
namespace DerivationReplay

namespace Reconstruction
variable {state next : Reconstruction} {event : Event}

theorem accepted_options {time : Time} (done : state.apply time event = (next, none)) :
    next.options = state.options := by
  unfold apply at done
  cases kind : event.kind <;>
    simp only [kind, settle_none_iff, declare_preprocessing_ok_iff, declare_new_ok_iff,
      make_passive_ok_iff, activate_none_iff, reduce_ok_iff, add_reduction_parent_ok_iff] at done
  case preprocessing =>
    obtain ⟨_, rfl⟩ := done
    rfl
  case new =>
    obtain ⟨clause, _, stored⟩ := done
    split at stored
    · obtain ⟨_, _, _, rfl⟩ := (saturate_ok_iff _ _ _ _).mp stored
      rfl
    · rw [stored]
      rfl
  case passive | active =>
    obtain ⟨_, _, _, _, _, _, rfl⟩ := done
    rfl
  case forwardReduction | backwardReduction =>
    obtain ⟨_, _, _, _, rfl⟩ := done
    rfl
  case replacement | premise =>
    obtain ⟨_, _, _, _, _, rfl⟩ := done
    rfl

theorem add_placeholders_options (parents : List ClauseId) (state : Reconstruction) :
    (parents.foldl addPlaceholder state).options = state.options := by
  induction parents generalizing state with
  | nil => rfl
  | cons parent parents ih =>
    rw [List.foldl_cons, ih, addPlaceholder]
    split <;> rfl

theorem record_options (state : Reconstruction) (index : Nat) (event : Event) :
    (state.record index event).1.options = state.options := by
  rcases record_cases state index event with
    ⟨_, same⟩ | ⟨_, _, _, failed, same⟩ | ⟨_, _, done, same⟩
  · rw [same]
  · rw [same]
    rcases apply_rejected failed with rfl | rfl <;> rfl
  · rw [same, ← accepted_options done]
    dsimp only
    split
    · exact add_placeholders_options _ _
    · rfl

theorem run_options (state : Reconstruction) (calls : List (Nat × Event)) :
    (recordEach state calls).options = state.options := by
  induction calls using List.reverseRecOn with
  | nil => rfl
  | append_singleton calls call ih =>
    rw [recordEach, List.foldl_append]
    exact (record_options _ call.1 call.2).trans ih

end Reconstruction

namespace Derivation
open Relation Reconstruction

theorem erase_dups_nodup (ids : List ClauseId) : ids.eraseDups.Nodup := by
  induction h : ids.length using Nat.strongRecOn generalizing ids with
  | ind length ih =>
    cases ids with
    | nil => simp
    | cons id ids =>
      have shorter : (ids.filter fun other => !other == id).length < length := by
        have few := List.length_filter_le (fun other => !other == id) ids
        rw [List.length_cons] at h
        omega
      rw [List.eraseDups_cons, List.nodup_cons, List.mem_eraseDups]
      exact ⟨by simp, ih _ shorter _ rfl⟩

theorem erase_dups_of_nodup {ids : List ClauseId} (distinct : ids.Nodup) : ids.eraseDups = ids := by
  induction ids with
  | nil => rfl
  | cons id ids ih =>
    obtain ⟨fresh, distinct⟩ := List.nodup_cons.mp distinct
    have others : ids.filter (fun other => !other == id) = ids := by
      refine List.filter_eq_self.mpr fun other mem => ?_
      have different : other ≠ id := fun same => fresh (same ▸ mem)
      simp [different]
    rw [List.eraseDups_cons, others, ih distinct]

/-! Contraction has nothing to do. -/

def Stays (table : Table) (rule : String) (parent : ClauseId) : Prop :=
  ∀ source, table[parent]? = some source → source.fromPreprocessing = true →
    source.parents = [] ∧ source.rule ≠ rule

/-- Each clause of preprocessing lists its parents once, and all of them stay. -/
def Contracted (table : Table) (rule : String) : Prop :=
  ∀ (id : ClauseId) (clause : Clause), table[id]? = some clause → clause.fromPreprocessing = true →
    clause.parents.Nodup ∧ ∀ parent ∈ clause.parents, Stays table rule parent

section Fixed
variable {table : Table} {rule : String}

theorem replace_staying {parent : ClauseId} (stays : Stays table rule parent) :
    replaceParent table rule parent = [parent] := by
  unfold replaceParent
  split
  · rename_i source found
    by_cases input : source.fromPreprocessing = true
    · obtain ⟨first, shown⟩ := stays source found input
      simp [input, first, shown]
    · simp [input]
  · rfl

theorem contracted_parents_fixed {clause : Clause} (distinct : clause.parents.Nodup)
    (stay : ∀ parent ∈ clause.parents, Stays table rule parent) :
    contractedParents table rule clause = clause.parents := by
  have replaced : clause.parents.flatMap (replaceParent table rule) = clause.parents := by
    rw [List.flatMap_congr fun parent listed => replace_staying (stay parent listed)]
    simp
  rw [contractedParents, replaced, erase_dups_of_nodup distinct]

theorem insert_found {id : ClauseId} {clause : Clause} (found : table[id]? = some clause) :
    table.insert id clause = table := by
  refine Std.ExtTreeMap.ext_getElem? fun other => ?_
  rw [get_insert]
  split
  · rename_i same
    rw [← same, found]
  · rfl

theorem contract_at_fixed (settled : Contracted table rule) (id : ClauseId) :
    contractAt rule table id = table := by
  unfold contractAt
  split
  · rename_i clause found
    split
    · rename_i input
      obtain ⟨distinct, stay⟩ := settled id clause found input
      rw [contracted_parents_fixed distinct stay, insert_found found]
    · rfl
  · rfl

end Fixed

theorem active_time_life (derivation : Derivation) (id : ClauseId) :
    derivation.activeTime? id = ((derivation.get? id).map Clause.life).bind (·.active) := by
  rw [activeTime?]
  cases derivation.get? id <;> rfl

section Settled
variable {derivation : Derivation} (rule : String) (coherent : derivation.Coherent)
  (acyclic : Acyclic derivation.table)
include coherent acyclic

theorem contraction_fixed (settled : Contracted derivation.table rule) :
    derivation.contractPreprocessing rule = derivation := by
  have same : derivation.contractTable rule = derivation.table := by
    rw [contractTable]
    exact List.foldl_fixed' (contract_at_fixed settled) _
  obtain ⟨kept, view, found⟩ := contract_kept rule coherent (acyclic_traversable acyclic)
  have all : kept = derivation.table := by
    refine Std.ExtTreeMap.ext_getElem? fun id => Option.ext fun clause => ?_
    rw [found, same]
    refine and_iff_left_of_imp fun here => ?_
    exact under_leaf coherent acyclic id ((mem_table_iff _ id).mpr ⟨clause, here⟩)
  rw [view, all, assemble_table coherent]

theorem contraction_found {id : ClauseId} {clause : Clause}
    (here : (derivation.contractPreprocessing rule).table[id]? = some clause) :
    ∃ source, derivation.table[id]? = some source ∧
      clause.bare = (contracted (derivation.contractTable rule) rule source).bare := by
  have clear := acyclic_traversable acyclic
  obtain ⟨kept, view, found⟩ := contract_kept rule coherent clear
  rw [view] at here
  obtain ⟨middle, stored, rfl⟩ := get_assemble_some.mp here
  have settled_here := ((found id middle).mp stored).1
  have mem : id ∈ derivation := by
    rw [← contract_table_mem rule coherent clear]
    exact (mem_table_iff _ id).mpr ⟨middle, settled_here⟩
  obtain ⟨source, known⟩ := (mem_table_iff derivation.table id).mp mem
  obtain rfl := Option.some.inj (settled_here.symm.trans (settled rule coherent acyclic known))
  exact ⟨source, known, rfl⟩

theorem contraction_found_input {id : ClauseId} {clause : Clause}
    (here : (derivation.contractPreprocessing rule).table[id]? = some clause)
    (input : clause.fromPreprocessing = true) : ∃ source, derivation.table[id]? = some source ∧
      source.fromPreprocessing = true ∧ source.rule = clause.rule ∧
      clause.parents = contractedParents (derivation.contractTable rule) rule source := by
  obtain ⟨source, known, bare⟩ := contraction_found rule coherent acyclic here
  have own : source.fromPreprocessing = true := by
    have same := congrArg Clause.fromPreprocessing bare
    rw [contracted_eq] at same
    exact same.symm.trans input
  rw [contracted_of_preprocessing own] at bare
  exact ⟨source, known, own, (congrArg Clause.rule bare).symm, congrArg Clause.parents bare⟩

theorem contraction_contracted : Contracted (derivation.contractPreprocessing rule).table rule := by
  intro id clause here input
  obtain ⟨source, known, own, _, parents⟩ :=
    contraction_found_input rule coherent acyclic here input
  refine ⟨parents ▸ erase_dups_nodup _, fun parent listed form form_here form_input => ?_⟩
  obtain ⟨first, first_known, first_own, first_rule, first_parents⟩ :=
    contraction_found_input rule coherent acyclic form_here form_input
  have edge : IsParent (derivation.contractTable rule) parent id := by
    rw [contracted_edge_iff rule coherent acyclic known, contracted_of_preprocessing own]
    exact parents ▸ listed
  -- Two clauses of preprocessing: the parent is one that a contraction had to keep.
  obtain ⟨other, other_known, search | ⟨shown, background⟩⟩ :=
    new_parent_cases rule coherent acyclic known own edge
  · obtain rfl := Option.some.inj (first_known.symm.trans other_known)
    simp [first_own] at search
  · obtain rfl := Option.some.inj (first_known.symm.trans other_known)
    rw [first_parents, ← first_rule]
    exact ⟨(contracted_parents_nil_iff rule coherent acyclic first_known).mpr background, shown⟩

theorem contraction_leaf {id : ClauseId}
    (tip : id ∈ (derivation.contractPreprocessing rule).leaves) : id ∈ derivation.leaves := by
  have clear := acyclic_traversable acyclic
  obtain ⟨mem, childless⟩ := (leaf_iff (contract_coherent rule coherent clear) id).mp tip
  obtain ⟨inside, survives⟩ := (contraction_mem_iff rule coherent acyclic id).mp mem
  obtain ⟨leaf, leaf_tip, under⟩ := (reached_iff_survives rule coherent acyclic inside).mpr survives
  -- Otherwise the first step down leads to a child, which survives with the leaf below it.
  rcases ReflTransGen.cases_head under with rfl | ⟨child, edge, below⟩
  · exact leaf_tip
  · have child_inside : child ∈ derivation := by
      rw [← contract_table_mem rule coherent clear]
      exact child_in_table edge
    have child_kept : child ∈ derivation.contractPreprocessing rule :=
      (contraction_mem_iff rule coherent acyclic child).mpr ⟨child_inside,
        (reached_iff_survives rule coherent acyclic child_inside).mp ⟨leaf, leaf_tip, below⟩⟩
    exact absurd ((contraction_edge_iff rule coherent acyclic id child).mpr ⟨edge, child_kept⟩)
      (childless child)

/-! Pruning has nothing to do. -/

theorem activated_part_fixed
    (active : ∀ leaf ∈ derivation.leaves, (derivation.activeTime? leaf).isSome) :
    derivation.activatedPart = derivation := by
  refine coherent_ext (activated_part_coherent coherent (acyclic_traversable acyclic)) coherent
    fun id => Option.ext fun shown => ?_
  rw [activatedPart, ancestor_closure_bare_iff coherent acyclic]
  refine and_iff_left_of_imp fun here => ?_
  obtain ⟨leaf, tip, under⟩ :=
    under_leaf coherent acyclic id ((mem_iff_bare derivation id).mpr ⟨shown, here⟩)
  have seed : leaf ∈ derivation.activeIds := (mem_active_ids coherent leaf).mpr (active leaf tip)
  exact ⟨leaf, (mem_of_list _ leaf).mpr seed, under⟩

theorem activated_part_leaf {leaf : ClauseId} (tip : leaf ∈ derivation.activatedPart.leaves) :
    (derivation.activatedPart.activeTime? leaf).isSome := by
  have part := activated_part_coherent coherent (acyclic_traversable acyclic)
  obtain ⟨mem, childless⟩ := (leaf_iff part leaf).mp tip
  obtain ⟨_, seed, given, under⟩ := (mem_ancestor_closure coherent acyclic _ leaf).mp mem
  have active : (derivation.activeTime? seed).isSome :=
    (mem_active_ids coherent seed).mp ((mem_of_list _ seed).mp given)
  rcases ReflTransGen.cases_head under with rfl | ⟨child, edge, below⟩
  · rwa [activated_part_times coherent acyclic]
  · exact absurd ((ancestor_closure_edge_iff coherent acyclic _ leaf child).mpr
      ⟨edge, seed, given, below⟩) (childless child)

theorem contraction_leaf_time {leaf : ClauseId} (tip : leaf ∈ derivation.leaves) :
    (derivation.contractPreprocessing rule).activeTime? leaf = derivation.activeTime? leaf := by
  have lives : ((derivation.contractPreprocessing rule).get? leaf).map Clause.life =
      (derivation.get? leaf).map Clause.life := by
    refine Option.ext fun life => ?_
    rw [contraction_keeps_iff rule coherent acyclic]
    exact and_iff_left (.leaf tip)
  rw [active_time_life, lives, ← active_time_life]

theorem pruned_contraction_fixed :
    let cleaned := derivation.activatedPart.contractPreprocessing rule
    cleaned.activatedPart = cleaned ∧ cleaned.contractPreprocessing rule = cleaned := by
  have part := activated_part_coherent coherent (acyclic_traversable acyclic)
  have part_acyclic := activated_part_acyclic coherent acyclic
  have clear := acyclic_traversable part_acyclic
  have cleaned := contract_coherent rule part clear
  have cleaned_acyclic := contract_acyclic rule part clear
  refine ⟨activated_part_fixed cleaned cleaned_acyclic fun leaf tip => ?_,
    contraction_fixed rule cleaned cleaned_acyclic (contraction_contracted rule part part_acyclic)⟩
  -- The contraction keeps the leaves and their activations, so there is nothing to prune.
  have kept := contraction_leaf rule part part_acyclic tip
  rw [contraction_leaf_time rule part part_acyclic kept]
  exact activated_part_leaf coherent acyclic kept

end Settled

theorem run_coherent (options : Options) (calls : List (Nat × Event)) :
    (assemble (recordEach { options } calls).table).Coherent := by
  have kept := kept_run options calls
  exact assemble_coherent kept.keyed fun _ _ => parent_in_table kept

/-- A contracted derivation stays as it is when it is contracted again: its clauses of preprocessing
are derived from nothing but clauses of the search and first forms of input formulas. Whatever has
been recorded or rejected, a full clean-up leaves nothing for another one. -/
theorem clean_up_is_final :
    (∀ (derivation : Derivation) (rule : String), derivation.Coherent → Acyclic derivation.table →
      (derivation.contractPreprocessing rule).contractPreprocessing rule =
        derivation.contractPreprocessing rule ∧
      ∀ id clause, (derivation.contractPreprocessing rule).get? id = some clause →
        clause.fromPreprocessing = true → ∀ parent ∈ clause.parents, ∀ source,
          (derivation.contractPreprocessing rule).get? parent = some source →
            source.fromPreprocessing = true → source.parents = [] ∧ source.rule ≠ rule) ∧
    ∀ (options : Options) (calls : List (Nat × Event)), options.pruneInactive = true →
      options.mergePreprocessing = true → Acyclic (recordEach { options } calls).table →
        let finished := (recordEach { options } calls).finish
        finished.activatedPart = finished ∧
          finished.contractPreprocessing options.choiceAxiomRule = finished := by
  constructor
  · intro derivation rule coherent acyclic
    have clear := acyclic_traversable acyclic
    have settled := contraction_contracted rule coherent acyclic
    refine ⟨contraction_fixed rule (contract_coherent rule coherent clear)
      (contract_acyclic rule coherent clear) settled, ?_⟩
    intro id clause here input parent listed
    exact (settled id clause here input).2 parent listed
  · intro options calls prune merge acyclic finished
    have cleaned : finished = ((assemble (recordEach { options } calls).table).activatedPart
        ).contractPreprocessing options.choiceAxiomRule := by
      simp only [finished, finish, run_options, prune, merge, if_true]
    rw [cleaned]
    exact pruned_contraction_fixed _ (run_coherent options calls) (acyclic_assemble acyclic)

def prunedRun : List (Nat × Event) :=
  [(0, ⟨.preprocessing, 1, "p", "input", [], ∅⟩), (1, ⟨.preprocessing, 2, "q", "cnf", [1], ∅⟩),
    (2, ⟨.preprocessing, 3, "r", "cnf", [2], ∅⟩), (3, ⟨.new, 4, "s", "resolution", [3], ∅⟩),
    (4, ⟨.active, 4, "s", "resolution", [3], ∅⟩), (5, ⟨.passive, 4, "s", "resolution", [3], ∅⟩),
    (6, ⟨.active, 4, "s", "resolution", [3], ∅⟩), (7, ⟨.new, 5, "t", "resolution", [4], ∅⟩)]

theorem acyclic_of_listed {table : Table} (edges : List (ClauseId × List ClauseId))
    (listed : table.toList.map (fun entry => (entry.1, entry.2.parents)) = edges)
    (smaller : ∀ edge ∈ edges, ∀ parent ∈ edge.2, parent < edge.1) : Acyclic table := by
  refine acyclic_of_smaller_parents fun parent child edge => ?_
  obtain ⟨clause, found, mem⟩ := edge
  refine smaller (child, clause.parents) ?_ parent mem
  rw [← listed, List.mem_map]
  exact ⟨(child, clause), Std.ExtTreeMap.mem_toList_iff_getElem?_eq_some.mpr found, rfl⟩

theorem pruned_run_final :
    let finished := (recordEach { options := {} } prunedRun).finish
    finished.ids = [1, 3, 4] ∧ finished.activatedPart = finished ∧
      finished.contractPreprocessing "choice axiom" = finished := by
  have acyclic : Acyclic (recordEach { options := {} } prunedRun).table :=
    acyclic_of_listed [(1, []), (2, [1]), (3, [2]), (4, [3]), (5, [4])] rfl (by simp)
  exact ⟨rfl, clean_up_is_final.2 {} prunedRun rfl rfl acyclic⟩

end Derivation
end DerivationReplay
