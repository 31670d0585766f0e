import DerivationReplay.Proofs.CleanUp

/-!
What the two views hold, clause by clause. A request that names unknown clauses is refused for the
least of them. Otherwise the ancestor view holds the given clauses and what they are derived from,
unchanged, and its leaves are the given clauses without a given clause below them. The descendant
view holds the given clauses and what is derived from them; those with a parent among these are
unchanged, and the others and the parents beside the way stand at the boundary.
-/
namespace DerivationReplay.Derivation
open Relation

section Refusal
variable {derivation : Derivation} {ids : List ClauseId}

structure LeastUnknown (derivation : Derivation) (ids : List ClauseId) (unknown : ClauseId) :
    Prop where
  given : unknown ∈ ids
  absent : unknown ∉ derivation
  least : ∀ id ∈ ids, id ∉ derivation → unknown ≤ id

theorem not_contains_iff (id : ClauseId) :
    (!derivation.table.contains id) = true ↔ id ∉ derivation := by
  rw [Bool.not_eq_true', ← Bool.not_eq_true, Std.ExtTreeMap.contains_iff_mem]
  rfl

theorem first_unknown_least {unknown : UnknownClause}
    (first : derivation.firstUnknown? (.ofList ids) = some unknown) :
    LeastUnknown derivation ids unknown.id := by
  obtain ⟨id, found, rfl⟩ := Option.map_eq_some_iff.mp first
  obtain ⟨absent, before, after, order, passed⟩ := List.find?_eq_some_iff_append.mp found
  have listed : ∀ other, other ∈ ids ↔ other ∈ before ++ id :: after := by
    intro other
    rw [← order, Std.ExtTreeSet.mem_toList, mem_of_list]
  have ascending := Std.ExtTreeSet.ordered_toList (t := (.ofList ids : ClauseIds))
  rw [order, List.pairwise_append, List.pairwise_cons] at ascending
  refine ⟨(listed id).mpr (by simp), (not_contains_iff id).mp absent, ?_⟩
  intro other given unknown
  rcases List.mem_append.mp ((listed other).mp given) with earlier | later
  · have known := passed other earlier
    rw [(not_contains_iff other).mpr unknown] at known
    cases known
  · rcases List.mem_cons.mp later with rfl | later
    · exact UInt64.le_refl other
    · exact UInt64.le_of_lt (Std.compare_eq_lt.mp (ascending.2.1.1 other later))

theorem request_refused {α : Type} (answer : α) (absent : ∃ id ∈ ids, id ∉ derivation) :
    ∃ unknown, LeastUnknown derivation ids unknown ∧
      (do derivation.requireKnown (.ofList ids); return answer) =
        (.error ⟨unknown⟩ : Except UnknownClause α) := by
  cases first : derivation.firstUnknown? (.ofList ids) with
  | none =>
    have passed : derivation.requireKnown (.ofList ids) = .ok () := by rw [requireKnown, first]
    obtain ⟨id, given, unknown⟩ := absent
    have known := (require_known_ok_iff derivation (.ofList ids) ()).mp passed id
    exact absurd (known ((mem_of_list ids id).mpr given)) unknown
  | some unknown =>
    refine ⟨unknown.id, first_unknown_least first, ?_⟩
    rw [requireKnown, first]
    rfl

end Refusal

section Ancestors
variable {derivation : Derivation} (coherent : derivation.Coherent)
  (acyclic : Acyclic derivation.table)

/-- The given clauses and what they are derived from, unchanged but for the children that are left.
A given clause is a leaf unless another one is derived from it. -/
structure ShowsAncestors (source : Derivation) (ids : List ClauseId) (view : Derivation) :
    Prop where
  members : ∀ id, id ∈ view ↔ id ∈ ids ∨ ∃ seed ∈ ids, IsAncestor source.table id seed
  unchanged : ∀ id clause, source.get? id = some clause → id ∈ view →
    ∃ children, view.get? id = some { clause with children }
  leaves : ∀ id, id ∈ view.leaves ↔
    id ∈ ids ∧ ∀ other ∈ ids, other ≠ id → ¬ IsAncestor source.table id other

theorem underlies_given_iff (ids : List ClauseId) (id : ClauseId) :
    (∃ seed ∈ (.ofList ids : ClauseIds), Underlies derivation.table id seed) ↔
      id ∈ ids ∨ ∃ seed ∈ ids, IsAncestor derivation.table id seed := by
  simp only [mem_of_list, underlies_iff, and_or_left, exists_or, exists_eq_right']

include coherent acyclic

section Known
variable {ids : List ClauseId} (known : ∀ id ∈ ids, id ∈ derivation)
include known

theorem ancestor_closure_members (id : ClauseId) :
    id ∈ derivation.ancestorClosure (.ofList ids) ↔
      id ∈ ids ∨ ∃ seed ∈ ids, IsAncestor derivation.table id seed := by
  rw [mem_ancestor_closure coherent acyclic, underlies_given_iff]
  refine and_iff_right_of_imp fun inside => ?_
  rcases inside with given | ⟨seed, _, above⟩
  · exact known id given
  · exact ancestor_in_table (coherent_closed coherent) above

theorem ancestor_closure_leaves (id : ClauseId) :
    id ∈ (derivation.ancestorClosure (.ofList ids)).leaves ↔
      id ∈ ids ∧ ∀ other ∈ ids, other ≠ id → ¬ IsAncestor derivation.table id other := by
  have view_coherent :=
    ancestor_closure_coherent coherent (acyclic_traversable acyclic) (.ofList ids)
  rw [leaf_iff view_coherent, ancestor_closure_members coherent acyclic known]
  simp only [ancestor_closure_edge_iff coherent acyclic]
  constructor
  · intro tip
    obtain ⟨inside, childless⟩ := tip
    -- The first step down to a given clause would be a child in the view.
    have apart : ∀ seed ∈ ids, ¬ IsAncestor derivation.table id seed := by
      intro seed given above
      obtain ⟨child, edge, under⟩ := TransGen.head'_iff.mp above
      exact childless child ⟨edge, seed, (mem_of_list ids seed).mpr given, under⟩
    constructor
    · rcases inside with given | ⟨seed, given, above⟩
      · exact given
      · exact absurd above (apart seed given)
    · intro other given _
      exact apart other given
  · intro tip
    obtain ⟨given, apart⟩ := tip
    refine ⟨.inl given, ?_⟩
    intro child below
    obtain ⟨edge, seed, mem, under⟩ := below
    have above : IsAncestor derivation.table id seed := TransGen.head' edge under
    by_cases same : seed = id
    · subst same
      exact acyclic seed above
    · exact apart seed ((mem_of_list ids seed).mp mem) same above

theorem ancestor_closure_shows :
    ShowsAncestors derivation ids (derivation.ancestorClosure (.ofList ids)) where
  members := ancestor_closure_members coherent acyclic known
  unchanged := by
    intro id clause found inside
    apply get_of_bare
    rw [ancestor_closure_bare_iff coherent acyclic, bare_some_iff]
    exact ⟨⟨clause, found, rfl⟩, ((mem_ancestor_closure coherent acyclic _ id).mp inside).2⟩
  leaves := ancestor_closure_leaves coherent acyclic known

end Known

omit acyclic in
theorem active_ids_known : ∀ id ∈ derivation.activeIds, id ∈ derivation := by
  intro id mem
  obtain ⟨step, active⟩ := Option.isSome_iff_exists.mp ((mem_active_ids coherent id).mp mem)
  obtain ⟨clause, found, _⟩ := Option.bind_eq_some_iff.mp active
  exact (mem_table_iff derivation.table id).mpr ⟨clause, found⟩

/-- The ancestor view shows what known clauses are derived from and is refused if one is unknown.
The activated part is the ancestor view of the activated clauses: each of its leaves is activated,
and no activated clause is lost. -/
theorem ancestor_view_contents :
    (∀ ids : List ClauseId, (∀ id ∈ ids, id ∈ derivation) → ∃ view,
      derivation.ancestorView ids = .ok view ∧ view.Coherent ∧
        ShowsAncestors derivation ids view) ∧
    (∀ ids : List ClauseId, (∃ id ∈ ids, id ∉ derivation) → ∃ unknown,
      LeastUnknown derivation ids unknown ∧ derivation.ancestorView ids = .error ⟨unknown⟩) ∧
    (∀ id, id ∈ derivation.activeIds ↔ (derivation.activeTime? id).isSome) ∧
    derivation.ancestorView derivation.activeIds = .ok derivation.activatedPart ∧
    (∀ leaf ∈ derivation.activatedPart.leaves,
      (derivation.activatedPart.activeTime? leaf).isSome) ∧
    ∀ id, (derivation.activeTime? id).isSome → id ∈ derivation.activatedPart := by
  have clear := acyclic_traversable acyclic
  have active_known := active_ids_known coherent
  refine ⟨?_, ?_, mem_active_ids coherent, ancestor_view_some active_known, ?_, ?_⟩
  · intro ids known
    exact ⟨_, ancestor_view_some known, ancestor_closure_coherent coherent clear _,
      ancestor_closure_shows coherent acyclic known⟩
  · intro ids absent
    exact request_refused _ absent
  · intro leaf tip
    exact activated_part_leaf coherent acyclic tip
  · intro id active
    have part := ancestor_closure_shows coherent acyclic active_known
    exact (part.members id).mpr (.inl ((mem_active_ids coherent id).mpr active))

end Ancestors

def partlyActivated : List Clause :=
  [{ id := 1, text := "p", rule := "input" }, { id := 2, text := "q", rule := "input" },
    { id := 3, text := "r", rule := "resolution", parents := [1], life := { active := some 1 } },
    { id := 4, text := "s", rule := "resolution", parents := [2, 3] },
    { id := 5, text := "t", rule := "resolution", parents := [4], life := { active := some 2 } },
    { id := 6, text := "u", rule := "factoring", parents := [5, 2] }]

theorem partly_activated_given : ∃ derivation, ofClauses partlyActivated = .ok derivation ∧
    derivation.Coherent ∧ Acyclic derivation.table ∧ 3 ∈ derivation ∧ 5 ∈ derivation ∧
    7 ∉ derivation ∧ (derivation.ancestorView [3, 5]).map ids = .ok [1, 2, 3, 4, 5] ∧
    (derivation.descendantView [5, 3]).map ids = .ok [2, 3, 4, 5, 6] := by
  obtain ⟨derivation, given, third, fifth, evaluated⟩ : ∃ derivation,
      ofClauses partlyActivated = .ok derivation ∧ 3 ∈ derivation ∧ 5 ∈ derivation ∧
      7 ∉ derivation ∧ (derivation.ancestorView [3, 5]).map ids = .ok [1, 2, 3, 4, 5] ∧
      (derivation.descendantView [5, 3]).map ids = .ok [2, 3, 4, 5, 6] :=
    ⟨_, rfl, by decide, by decide, by decide, rfl, rfl⟩
  have acyclic := clauses_acyclic given (by simp [partlyActivated])
  exact ⟨derivation, given, clauses_coherent given, acyclic, third, fifth, evaluated⟩

theorem partly_activated_ancestors : ∃ derivation, ofClauses partlyActivated = .ok derivation ∧
    (∃ view, derivation.ancestorView [3, 5] = .ok view ∧ ShowsAncestors derivation [3, 5] view ∧
      view.ids = [1, 2, 3, 4, 5]) ∧
    (∃ unknown, LeastUnknown derivation [9, 3, 7] unknown ∧
      derivation.ancestorView [9, 3, 7] = .error ⟨unknown⟩) ∧
    derivation.ancestorView derivation.activeIds = .ok derivation.activatedPart := by
  obtain ⟨derivation, given, coherent, acyclic, third, fifth, absent, shown, _⟩ :=
    partly_activated_given
  obtain ⟨answered, refused, _, pruned, _⟩ := ancestor_view_contents coherent acyclic
  obtain ⟨view, taken, _, shows⟩ := answered [3, 5] (by simp [third, fifth])
  have unknown := refused [9, 3, 7] ⟨7, by simp, absent⟩
  rw [taken] at shown
  exact ⟨derivation, given, ⟨view, taken, shows, Except.ok.inj shown⟩, unknown, pruned⟩

section Descendants
variable {derivation : Derivation} (coherent : derivation.Coherent)
  (acyclic : Acyclic derivation.table)

def Wanted (table : Table) (ids : List ClauseId) (id : ClauseId) : Prop :=
  id ∈ ids ∨ ∃ seed ∈ ids, IsAncestor table seed id

/-- The wanted clauses and the other parents of those that have a wanted parent. Only the clauses
with a wanted parent keep their derivation; the other ones are boundary copies. -/
structure ShowsDescendants (source : Derivation) (ids : List ClauseId) (view : Derivation) :
    Prop where
  members : ∀ id, id ∈ view ↔ Wanted source.table ids id ∨
    ∃ child, Wanted source.table ids child ∧ IsParent source.table id child ∧
      ∃ parent, IsParent source.table parent child ∧ Wanted source.table ids parent
  derived : ∀ id clause, source.get? id = some clause → Wanted source.table ids id →
    (∃ parent ∈ clause.parents, Wanted source.table ids parent) →
      ∃ children, view.get? id = some { clause with children }
  seeds : ∀ id clause, source.get? id = some clause → Wanted source.table ids id →
    (∀ parent ∈ clause.parents, ¬ Wanted source.table ids parent) →
      ∃ children, view.get? id = some { clause.boundary with children }
  beside : ∀ id clause, source.get? id = some clause → ¬ Wanted source.table ids id → id ∈ view →
    ∃ children, view.get? id = some { clause.boundary with children }

section Wanted
variable (table : Table) (ids : List ClauseId)

theorem wanted_iff (id : ClauseId) :
    Wanted table ids id ↔ id ∈ (.ofList ids : ClauseIds) ∨ DerivesFrom table (.ofList ids) id := by
  simp only [Wanted, DerivesFrom, mem_of_list]

theorem derives_iff_wanted_parent (id : ClauseId) : DerivesFrom table (.ofList ids) id ↔
    ∃ parent, IsParent table parent id ∧ Wanted table ids parent := by
  rw [derives_from_iff]
  simp only [wanted_iff]

theorem derives_iff_listed_wanted {id : ClauseId} {clause : Clause}
    (found : table[id]? = some clause) :
    DerivesFrom table (.ofList ids) id ↔ ∃ parent ∈ clause.parents, Wanted table ids parent := by
  rw [derives_iff_wanted_parent]
  simp only [IsParent, found, Option.some.injEq, exists_eq_left']

theorem wanted_known {ids : List ClauseId} (known : ∀ id ∈ ids, id ∈ derivation) {id : ClauseId}
    (wanted : Wanted derivation.table ids id) : id ∈ derivation := by
  rcases wanted with given | ⟨seed, _, above⟩
  · exact known id given
  · exact descendant_in_table above

end Wanted

include coherent acyclic

theorem descendant_closure_found {given : ClauseIds} {id : ClauseId} {clause : Clause}
    (found : derivation.get? id = some clause) (derived : DerivesFrom derivation.table given id) :
    ∃ children, (derivation.descendantClosure given).get? id = some { clause with children } := by
  apply get_of_bare
  rw [descendant_closure_bare_iff coherent acyclic]
  exact ⟨clause.bare, (bare_some_iff _ _ _).mpr ⟨clause, found, rfl⟩, .inl ⟨derived, rfl⟩⟩

theorem descendant_closure_boundary {given : ClauseIds} {id : ClauseId} {clause : Clause}
    (found : derivation.get? id = some clause) (inside : id ∈ derivation.descendantClosure given)
    (outside : ¬ DerivesFrom derivation.table given id) :
    ∃ children, (derivation.descendantClosure given).get? id =
      some { clause.boundary with children } := by
  have stands := ((mem_descendant_closure coherent acyclic given id).mp inside).2
  apply get_of_bare
  rw [descendant_closure_bare_iff coherent acyclic]
  exact ⟨clause.bare, (bare_some_iff _ _ _).mpr ⟨clause, found, rfl⟩,
    .inr ⟨stands.resolve_left outside, rfl⟩⟩

section Known
variable {ids : List ClauseId} (known : ∀ id ∈ ids, id ∈ derivation)
include known

theorem descendant_closure_members (id : ClauseId) :
    id ∈ derivation.descendantClosure (.ofList ids) ↔ Wanted derivation.table ids id ∨
      ∃ child, Wanted derivation.table ids child ∧ IsParent derivation.table id child ∧
        ∃ parent, IsParent derivation.table parent child ∧
          Wanted derivation.table ids parent := by
  rw [mem_descendant_closure coherent acyclic]
  constructor
  · intro inside
    obtain ⟨_, derived | ⟨_, given | ⟨child, edge, derived⟩⟩⟩ := inside
    · exact .inl ((wanted_iff _ ids id).mpr (.inr derived))
    · exact .inl ((wanted_iff _ ids id).mpr (.inl given))
    · exact .inr ⟨child, (wanted_iff _ ids child).mpr (.inr derived), edge,
        (derives_iff_wanted_parent _ ids child).mp derived⟩
  · intro inside
    rcases inside with wanted | ⟨child, _, edge, wanted_parent⟩
    · have shown := shown_of_wanted ((wanted_iff _ ids id).mp wanted)
      exact ⟨wanted_known known wanted, shown⟩
    -- A parent beside the way may still derive from a given clause itself.
    · have derived := (derives_iff_wanted_parent _ ids child).mpr wanted_parent
      refine ⟨coherent_closed coherent id child edge, ?_⟩
      by_cases own : DerivesFrom derivation.table (.ofList ids) id
      · exact .inl own
      · exact .inr ⟨own, .inr ⟨child, edge, derived⟩⟩

theorem descendant_closure_shows :
    ShowsDescendants derivation ids (derivation.descendantClosure (.ofList ids)) where
  members := descendant_closure_members coherent acyclic known
  derived := by
    intro id clause found _ wanted_parent
    exact descendant_closure_found coherent acyclic found
      ((derives_iff_listed_wanted _ ids found).mpr wanted_parent)
  seeds := by
    intro id clause found wanted unwanted
    refine descendant_closure_boundary coherent acyclic found
      ((descendant_closure_members coherent acyclic known id).mpr (.inl wanted)) ?_
    rw [derives_iff_listed_wanted _ ids found]
    rintro ⟨parent, listed, inside⟩
    exact unwanted parent listed inside
  beside := by
    intro id clause found unwanted inside
    refine descendant_closure_boundary coherent acyclic found inside ?_
    intro derived
    exact unwanted ((wanted_iff _ ids id).mpr (.inr derived))

end Known

/-- The descendant view shows what is derived from known clauses, cut off at the parents beside the
way, and is refused if one is unknown. -/
theorem descendant_view_contents (ids : List ClauseId) :
    ((∀ id ∈ ids, id ∈ derivation) → ∃ view, derivation.descendantView ids = .ok view ∧
      view.Coherent ∧ ShowsDescendants derivation ids view) ∧
    ((∃ id ∈ ids, id ∉ derivation) → ∃ unknown, LeastUnknown derivation ids unknown ∧
      derivation.descendantView ids = .error ⟨unknown⟩) := by
  constructor
  · intro known
    have view_coherent := descendant_closure_coherent coherent (acyclic_traversable acyclic)
    exact ⟨_, descendant_view_some known, view_coherent _,
      descendant_closure_shows coherent acyclic known⟩
  · intro absent
    exact request_refused _ absent

end Descendants

theorem partly_activated_descendants : ∃ derivation, ofClauses partlyActivated = .ok derivation ∧
    (∃ view, derivation.descendantView [5, 3] = .ok view ∧
      ShowsDescendants derivation [5, 3] view ∧ view.ids = [2, 3, 4, 5, 6]) ∧
    ∃ unknown, LeastUnknown derivation [9, 3, 7] unknown ∧
      derivation.descendantView [9, 3, 7] = .error ⟨unknown⟩ := by
  obtain ⟨derivation, given, coherent, acyclic, third, fifth, absent, _, shown⟩ :=
    partly_activated_given
  obtain ⟨view, taken, _, shows⟩ :=
    (descendant_view_contents coherent acyclic [5, 3]).1 (by simp [third, fifth])
  have unknown := (descendant_view_contents coherent acyclic [9, 3, 7]).2 ⟨7, by simp, absent⟩
  rw [taken] at shown
  exact ⟨derivation, given, ⟨view, taken, shows, Except.ok.inj shown⟩, unknown⟩

end DerivationReplay.Derivation
