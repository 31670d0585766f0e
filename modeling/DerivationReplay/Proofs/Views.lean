import DerivationReplay.Derivation.Selection
import DerivationReplay.Proofs.Exploration

/-!
The ancestor view. The sweep from children to parents meets each child before its parents, so the
view holds exactly what the given clauses are derived from, each clause unchanged, and is coherent
again.
-/
namespace DerivationReplay
open Relation

theorem mem_insert_table (table : Table) (key id : ClauseId) (clause : Clause) :
    id ∈ table.insert key clause ↔ key = id ∨ id ∈ table := by
  simp

namespace Selection
variable {table : Table} {trail : List Clause}

theorem mem_insert_all (parents : List ClauseId) (wanted : ClauseIds) (id : ClauseId) :
    id ∈ parents.foldl (·.insert ·) wanted ↔ id ∈ wanted ∨ id ∈ parents := by
  induction parents generalizing wanted with
  | nil => simp
  | cons parent parents ih =>
    rw [List.foldl_cons, ih, Walk.mem_visited_insert, List.mem_cons, eq_comm (a := id), or_assoc,
      or_left_comm]

theorem reached_next {wanted : ClauseIds} {next : Clause} (found : table[next.id]? = some next)
    (after : ∀ parent ∈ next.parents, parent ∈ table → parent ∈ trail.map Clause.id)
    (own : next.id ∈ wanted) {id : ClauseId} (known : id ∈ table) :
    (∃ seed ∈ wanted, seed ∈ (next :: trail).map Clause.id ∧ Underlies table id seed) ↔
      next.id = id ∨ ∃ seed, (seed ∈ wanted ∨ seed ∈ next.parents) ∧
        seed ∈ trail.map Clause.id ∧ Underlies table id seed := by
  constructor
  · intro reached
    obtain ⟨seed, old, mem, under⟩ := reached
    rcases List.mem_cons.mp mem with rfl | mem
    · rcases underlies_cases under with rfl | ⟨parent, under, other, here, listed⟩
      · exact .inl rfl
      · obtain rfl := Option.some.inj (found.symm.trans here)
        exact .inr ⟨parent, .inr listed, after parent listed (upper_in_table known under), under⟩
    · exact .inr ⟨seed, .inl old, mem, under⟩
  · rintro (rfl | ⟨seed, old | parent, mem, under⟩)
    · exact ⟨next.id, own, List.mem_cons_self, ReflTransGen.refl⟩
    · exact ⟨seed, old, List.mem_cons_of_mem _ mem, under⟩
    · exact ⟨next.id, own, List.mem_cons_self, underlies_of_parent under ⟨next, found, parent⟩⟩

/-- The sweep runs from children to parents: whatever is wanted of the trail is kept, with all it
is derived from. -/
theorem take_ancestors (finished : Finished table trail) (selection : Selection)
    (apart : ∀ id ∈ trail.map Clause.id, id ∉ selection.kept) (id : ClauseId) (clause : Clause) :
    (trail.foldl takeAncestor selection).kept[id]? = some clause ↔
      selection.kept[id]? = some clause ∨ table[id]? = some clause ∧
        ∃ seed ∈ selection.wanted, seed ∈ trail.map Clause.id ∧ Underlies table id seed := by
  induction finished generalizing selection with
  | nil => simp
  | @cons next trail found fresh after earlier ih =>
    have own : next.id ∉ selection.kept := apart next.id List.mem_cons_self
    rw [List.foldl_cons, takeAncestor]
    by_cases wanted : next.id ∈ selection.wanted
    · rw [if_pos wanted, ih]
      · -- The turn makes the parents wanted: what underlies the clause underlies one of them.
        have reached : table[id]? = some clause → _ := fun here =>
          reached_next found after wanted ((mem_table_iff table id).mpr ⟨clause, here⟩)
        rw [and_congr_right reached]
        simp only [get_insert, mem_insert_all]
        by_cases same : next.id = id
        · subst same
          simp only [↓reduceIte, found, Std.ExtTreeMap.getElem?_eq_none own, true_or, and_true,
            reduceCtorEq, false_or]
          exact or_iff_left_of_imp And.left
        · simp only [same, ↓reduceIte, false_or]
      · intro other mem kept
        rcases (mem_insert_table _ _ _ _).mp kept with rfl | kept
        · exact fresh mem
        · exact apart other (List.mem_cons_of_mem _ mem) kept
    · rw [if_neg wanted, ih selection fun other mem => apart other (List.mem_cons_of_mem _ mem)]
      simp only [List.map_cons, List.mem_cons]
      refine or_congr_right (and_congr_right fun _ => exists_congr fun seed => ?_)
      refine and_congr_right fun old => and_congr_left fun _ => ?_
      have other : seed ≠ next.id := fun same => wanted (same ▸ old)
      exact ⟨.inr, fun mem => mem.resolve_left other⟩

end Selection

namespace Derivation
variable {derivation : Derivation}

theorem children_first_finished (coherent : derivation.Coherent) (clear : derivation.Traversable) :
    Finished derivation.table derivation.childrenFirst := by
  rw [childrenFirst, parentsFirst]
  refine parents_first_finished (coherent_keyed coherent) fun leaf mem => ?_
  exact leaf_grounded clear (Std.ExtTreeSet.mem_toList.mp mem)

theorem mem_children_first (coherent : derivation.Coherent) (clear : derivation.Traversable)
    (id : ClauseId) :
    id ∈ derivation.childrenFirst.map Clause.id ↔
      id ∈ derivation ∧ ∃ leaf ∈ derivation.leaves, Underlies derivation.table id leaf := by
  rw [childrenFirst, List.map_reverse, List.mem_reverse, parentsFirst, mem_parents_first]
  · simp only [Std.ExtTreeSet.mem_toList]
    rfl
  · exact coherent_keyed coherent
  · exact fun leaf mem => leaf_grounded clear (Std.ExtTreeSet.mem_toList.mp mem)

theorem acyclic_children_first (coherent : derivation.Coherent)
    (acyclic : Acyclic derivation.table) (id : ClauseId) :
    id ∈ derivation.childrenFirst.map Clause.id ↔ id ∈ derivation := by
  rw [mem_children_first coherent (acyclic_traversable acyclic)]
  exact and_iff_left_of_imp (under_leaf coherent acyclic id)

theorem mem_of_list (ids : List ClauseId) (id : ClauseId) :
    id ∈ (.ofList ids : ClauseIds) ↔ id ∈ ids := by
  rw [Std.ExtTreeSet.mem_ofList, List.contains_iff_mem]

theorem require_known_ok_iff (derivation : Derivation) (given : ClauseIds) (passed : Unit) :
    derivation.requireKnown given = .ok passed ↔ ∀ id ∈ given, id ∈ derivation := by
  have known : derivation.firstUnknown? given = none ↔ ∀ id ∈ given, id ∈ derivation := by
    simp only [firstUnknown?, Option.map_eq_none_iff, List.find?_eq_none, Std.ExtTreeSet.mem_toList,
      Bool.not_eq_true, Bool.not_eq_false', Std.ExtTreeMap.contains_iff_mem]
    rfl
  rw [requireKnown, ← known]
  cases derivation.firstUnknown? given <;> simp

theorem request_ok_iff {α : Type} (derivation : Derivation) (ids : List ClauseId)
    (answer value : α) :
    (do derivation.requireKnown (.ofList ids); return answer) = .ok value ↔
      (∀ id ∈ ids, id ∈ derivation) ∧ answer = value := by
  rw [bind_ok_iff]
  simp only [require_known_ok_iff, pure_ok_iff, mem_of_list, exists_const]

theorem ancestor_view_some {derivation : Derivation} {ids : List ClauseId}
    (known : ∀ id ∈ ids, id ∈ derivation) :
    derivation.ancestorView ids = .ok (derivation.ancestorClosure (.ofList ids)) :=
  (request_ok_iff derivation ids _ _).mpr ⟨known, rfl⟩

theorem descendant_view_some {derivation : Derivation} {ids : List ClauseId}
    (known : ∀ id ∈ ids, id ∈ derivation) :
    derivation.descendantView ids = .ok (derivation.descendantClosure (.ofList ids)) :=
  (request_ok_iff derivation ids _ _).mpr ⟨known, rfl⟩

theorem ancestor_closure_kept (coherent : derivation.Coherent) (clear : derivation.Traversable)
    (ids : ClauseIds) : ∃ kept : Table, derivation.ancestorClosure ids = assemble kept ∧
      ∀ (id : ClauseId) (clause : Clause), kept[id]? = some clause ↔
        derivation.table[id]? = some clause ∧ ∃ seed ∈ ids,
          seed ∈ derivation.childrenFirst.map Clause.id ∧ Underlies derivation.table id seed := by
  refine ⟨_, rfl, fun id clause => ?_⟩
  rw [Selection.take_ancestors (children_first_finished coherent clear) _ (by simp)]
  simp

theorem ancestor_closure_coherent (coherent : derivation.Coherent)
    (clear : derivation.Traversable) (ids : ClauseIds) :
    (derivation.ancestorClosure ids).Coherent := by
  obtain ⟨kept, view, found⟩ := ancestor_closure_kept coherent clear ids
  rw [view]
  refine assemble_coherent (fun id clause here => ?_) ?_
  · exact coherent.keyed id clause ((found id clause).mp here).1
  · intro parent child edge
    obtain ⟨clause, here, listed⟩ := edge
    obtain ⟨source, seed, given, reached, under⟩ := (found child clause).mp here
    have edge : IsParent derivation.table parent child := ⟨clause, source, listed⟩
    obtain ⟨other, known⟩ :=
      (mem_table_iff _ parent).mp (coherent_closed coherent parent child edge)
    exact (mem_table_iff kept parent).mpr
      ⟨other, (found parent other).mpr ⟨known, seed, given, reached, ReflTransGen.head edge under⟩⟩

theorem ancestor_closure_bare_iff (coherent : derivation.Coherent)
    (acyclic : Acyclic derivation.table) (given : ClauseIds) (id : ClauseId) (shown : Clause) :
    (derivation.ancestorClosure given).bare? id = some shown ↔
      derivation.bare? id = some shown ∧ ∃ seed ∈ given, Underlies derivation.table id seed := by
  obtain ⟨kept, view, found⟩ := ancestor_closure_kept coherent (acyclic_traversable acyclic) given
  rw [view, bare_assemble_iff]
  simp only [bare_some_iff, found, acyclic_children_first coherent acyclic]
  constructor
  · intro here
    obtain ⟨clause, ⟨known, seed, mem, _, under⟩, bare⟩ := here
    exact ⟨⟨clause, known, bare⟩, seed, mem, under⟩
  · intro here
    obtain ⟨⟨clause, known, bare⟩, seed, mem, under⟩ := here
    have inside := upper_in_table ((mem_table_iff _ id).mpr ⟨clause, known⟩) under
    exact ⟨clause, ⟨known, seed, mem, inside, under⟩, bare⟩

theorem mem_ancestor_closure (coherent : derivation.Coherent) (acyclic : Acyclic derivation.table)
    (given : ClauseIds) (id : ClauseId) : id ∈ derivation.ancestorClosure given ↔
      id ∈ derivation ∧ ∃ seed ∈ given, Underlies derivation.table id seed := by
  simp only [mem_iff_bare, ancestor_closure_bare_iff coherent acyclic, exists_and_right]

theorem ancestor_closure_edge_iff (coherent : derivation.Coherent)
    (acyclic : Acyclic derivation.table) (given : ClauseIds) (parent child : ClauseId) :
    IsParent (derivation.ancestorClosure given).table parent child ↔
      IsParent derivation.table parent child ∧
        ∃ seed ∈ given, Underlies derivation.table child seed := by
  simp only [is_parent_iff_bare, ancestor_closure_bare_iff coherent acyclic, and_right_comm,
    exists_and_right]

/-- The view holds only clauses that the walk came to, so it has no cycle of its own. -/
theorem ancestor_closure_acyclic (coherent : derivation.Coherent)
    (clear : derivation.Traversable) (given : ClauseIds) :
    Acyclic (derivation.ancestorClosure given).table := by
  obtain ⟨kept, view, found⟩ := ancestor_closure_kept coherent clear given
  refine acyclic_under_leaves clear fun parent child edge => ?_
  rw [view, is_parent_assemble] at edge
  obtain ⟨clause, here, listed⟩ := edge
  obtain ⟨source, seed, _, reached, under⟩ := (found child clause).mp here
  obtain ⟨_, leaf, tip, below⟩ := (mem_children_first coherent clear seed).mp reached
  exact ⟨parent_is_ancestor ⟨clause, source, listed⟩, leaf, tip, under.trans below⟩

theorem activated_part_coherent (coherent : derivation.Coherent)
    (clear : derivation.Traversable) : derivation.activatedPart.Coherent :=
  ancestor_closure_coherent coherent clear _

end Derivation
end DerivationReplay
