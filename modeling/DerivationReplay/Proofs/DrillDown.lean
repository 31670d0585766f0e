import DerivationReplay.Proofs.Coherence
import DerivationReplay.Proofs.Consequences

/-!
Drilling down. Both views leave ancestry as it is wherever they are asked about it: the ancestor
view keeps each climb from its clauses, the descendant view each climb that ends at a given clause
or at one derived from it. So a narrower view taken of a view is the one taken of the source, and a
search in a view finds what it finds in the source.
-/
namespace DerivationReplay.Derivation
open Relation

section Narrower
variable {table : Table} {given narrower : ClauseIds}
  (inside : ∀ seed ∈ narrower, seed ∈ given ∨ DerivesFrom table given seed)
include inside

theorem derives_from_of_narrower {id : ClauseId} (derived : DerivesFrom table narrower id) :
    DerivesFrom table given id := by
  obtain ⟨seed, mem, above⟩ := derived
  exact derives_from_of_ancestor (inside seed mem) above

theorem shown_of_boundary {id : ClauseId} (boundary : AtBoundary table narrower id) :
    DerivesFrom table given id ∨ AtBoundary table given id := by
  rcases boundary.2 with mem | ⟨child, edge, below⟩
  · exact shown_of_wanted (inside id mem)
  · by_cases derived : DerivesFrom table given id
    · exact .inl derived
    · exact .inr ⟨derived, .inr ⟨child, edge, derives_from_of_narrower inside below⟩⟩

end Narrower

section Views
variable {derivation : Derivation} (coherent : derivation.Coherent)
  (acyclic : Acyclic derivation.table) (given : ClauseIds)
include coherent acyclic

theorem ancestor_closure_underlies_iff {lower id : ClauseId}
    (inside : ∃ seed ∈ given, Underlies derivation.table id seed) :
    Underlies (derivation.ancestorClosure given).table lower id ↔
      Underlies derivation.table lower id := by
  have edges := ancestor_closure_edge_iff coherent acyclic given
  constructor
  · exact ReflTransGen.mono (fun parent child edge => ((edges parent child).mp edge).1) _ _
  · intro under
    obtain ⟨seed, mem, above⟩ := inside
    -- Every clause on the way from the lower one underlies the seed as well.
    induction under using ReflTransGen.head_induction_on with
    | refl => exact ReflTransGen.refl
    | @head lower child edge under ih =>
      exact ReflTransGen.head ((edges lower child).mpr ⟨edge, seed, mem, under.trans above⟩) ih

theorem descendant_closure_underlies_iff {lower id : ClauseId}
    (inside : lower ∈ given ∨ DerivesFrom derivation.table given lower) :
    Underlies (derivation.descendantClosure given).table lower id ↔
      Underlies derivation.table lower id := by
  have edges := descendant_closure_edge_iff coherent acyclic given
  constructor
  · exact ReflTransGen.mono (fun parent child edge => ((edges parent child).mp edge).1) _ _
  · intro under
    -- Every clause on the way from the lower one derives from a given clause.
    induction under with
    | refl => exact ReflTransGen.refl
    | @tail parent child under edge ih =>
      have derived := derives_from_of_ancestor inside (TransGen.tail' under edge)
      exact ReflTransGen.tail ih ((edges parent child).mpr ⟨edge, derived⟩)

theorem descendant_closure_derives_iff {narrower : ClauseIds}
    (inside : ∀ seed ∈ narrower, seed ∈ given ∨ DerivesFrom derivation.table given seed)
    (id : ClauseId) : DerivesFrom (derivation.descendantClosure given).table narrower id ↔
      DerivesFrom derivation.table narrower id := by
  have edges := descendant_closure_edge_iff coherent acyclic given
  refine exists_congr fun seed => and_congr_right fun mem => ?_
  rw [IsAncestor, TransGen.tail'_iff, IsAncestor, TransGen.tail'_iff]
  refine exists_congr fun parent => ?_
  have same : Underlies (derivation.descendantClosure given).table seed parent ↔
      Underlies derivation.table seed parent :=
    descendant_closure_underlies_iff coherent acyclic given (inside seed mem)
  rw [edges]
  constructor
  · intro above
    obtain ⟨under, edge, _⟩ := above
    exact ⟨same.mp under, edge⟩
  · intro above
    obtain ⟨under, edge⟩ := above
    have derived := derives_from_of_ancestor (inside seed mem) (TransGen.tail' under edge)
    exact ⟨same.mpr under, edge, derived⟩

theorem ancestor_closure_again (narrower : ClauseIds)
    (inside : ∀ id ∈ narrower, ∃ seed ∈ given, Underlies derivation.table id seed) :
    (derivation.ancestorClosure given).ancestorClosure narrower =
      derivation.ancestorClosure narrower := by
  have outer := ancestor_closure_coherent coherent (acyclic_traversable acyclic) given
  have outer_acyclic := ancestor_closure_acyclic coherent (acyclic_traversable acyclic) given
  refine coherent_ext
    (ancestor_closure_coherent outer (acyclic_traversable outer_acyclic) narrower)
    (ancestor_closure_coherent coherent (acyclic_traversable acyclic) narrower)
    fun id => Option.ext fun shown => ?_
  rw [ancestor_closure_bare_iff outer outer_acyclic, ancestor_closure_bare_iff coherent acyclic,
    ancestor_closure_bare_iff coherent acyclic, and_assoc]
  refine and_congr_right fun _ => ?_
  constructor
  · intro seen
    obtain ⟨_, seed, mem, under⟩ := seen
    exact ⟨seed, mem,
      (ancestor_closure_underlies_iff coherent acyclic given (inside seed mem)).mp under⟩
  · intro seen
    obtain ⟨seed, mem, under⟩ := seen
    obtain ⟨source, source_mem, above⟩ := inside seed mem
    exact ⟨⟨source, source_mem, under.trans above⟩, seed, mem,
      (ancestor_closure_underlies_iff coherent acyclic given (inside seed mem)).mpr under⟩

theorem descendant_closure_boundary_iff {narrower : ClauseIds}
    (inside : ∀ seed ∈ narrower, seed ∈ given ∨ DerivesFrom derivation.table given seed)
    (id : ClauseId) : AtBoundary (derivation.descendantClosure given).table narrower id ↔
      AtBoundary derivation.table narrower id := by
  have derives := descendant_closure_derives_iff coherent acyclic given inside
  rw [AtBoundary, AtBoundary, derives]
  refine and_congr_right fun _ => or_congr_right (exists_congr fun child => ?_)
  rw [descendant_closure_edge_iff coherent acyclic given, derives, and_assoc]
  exact and_congr_right fun _ => and_iff_right_of_imp (derives_from_of_narrower inside)

theorem descendant_closure_again (narrower : ClauseIds)
    (inside : ∀ seed ∈ narrower, seed ∈ given ∨ DerivesFrom derivation.table given seed) :
    (derivation.descendantClosure given).descendantClosure narrower =
      derivation.descendantClosure narrower := by
  have outer := descendant_closure_coherent coherent (acyclic_traversable acyclic) given
  have outer_acyclic := descendant_closure_acyclic coherent acyclic given
  refine coherent_ext
    (descendant_closure_coherent outer (acyclic_traversable outer_acyclic) narrower)
    (descendant_closure_coherent coherent (acyclic_traversable acyclic) narrower)
    fun id => Option.ext fun shown => ?_
  rw [descendant_closure_bare_iff outer outer_acyclic, descendant_closure_bare_iff coherent acyclic]
  simp only [descendant_closure_derives_iff coherent acyclic given inside,
    descendant_closure_boundary_iff coherent acyclic given inside,
    descendant_closure_bare_iff coherent acyclic given]
  constructor
  · intro seen
    obtain ⟨_, ⟨clause, known, stands⟩, derived | boundary⟩ := seen
    · obtain ⟨derived, rfl⟩ := derived
      have whole := derives_from_of_narrower inside derived
      rcases stands with ⟨_, rfl⟩ | ⟨outside, _⟩
      · exact ⟨clause, known, .inl ⟨derived, rfl⟩⟩
      · exact absurd whole outside.1
    · obtain ⟨boundary, rfl⟩ := boundary
      rcases stands with ⟨_, rfl⟩ | ⟨_, rfl⟩
      · exact ⟨clause, known, .inr ⟨boundary, rfl⟩⟩
      · exact ⟨clause, known, .inr ⟨boundary, rfl⟩⟩
  · intro seen
    obtain ⟨clause, known, ⟨derived, rfl⟩ | ⟨boundary, rfl⟩⟩ := seen
    · have whole := derives_from_of_narrower inside derived
      exact ⟨clause, ⟨clause, known, .inl ⟨whole, rfl⟩⟩, .inl ⟨derived, rfl⟩⟩
    · rcases shown_of_boundary inside boundary with whole | outer_boundary
      · exact ⟨clause, ⟨clause, known, .inl ⟨whole, rfl⟩⟩, .inr ⟨boundary, rfl⟩⟩
      · exact ⟨clause.boundary, ⟨clause, known, .inr ⟨outer_boundary, rfl⟩⟩, .inr ⟨boundary, rfl⟩⟩

theorem search_in_ancestor_closure {wanted : List ClauseId}
    (inside : ∀ id ∈ wanted, id ∈ derivation.ancestorClosure given) :
    ∃ found seen, derivation.commonConsequences wanted = .ok found ∧
      (derivation.ancestorClosure given).commonConsequences wanted = .ok seen ∧
      ∀ id, id ∈ seen ↔ id ∈ found ∧ id ∈ derivation.ancestorClosure given := by
  have members := mem_ancestor_closure coherent acyclic given
  refine search_in_part coherent acyclic
    (ancestor_closure_coherent coherent (acyclic_traversable acyclic) given)
    (ancestor_closure_acyclic coherent (acyclic_traversable acyclic) given) ?_ inside ?_
  · exact fun id mem => ((members id).mp mem).1
  · intro seed _ id mem
    exact ancestor_closure_underlies_iff coherent acyclic given ((members id).mp mem).2

theorem search_in_descendant_closure {wanted : List ClauseId} (some : wanted ≠ [])
    (inside : ∀ id ∈ wanted, id ∈ given ∨ DerivesFrom derivation.table given id)
    (known : ∀ id ∈ wanted, id ∈ derivation.descendantClosure given) :
    ∃ found seen, derivation.commonConsequences wanted = .ok found ∧
      (derivation.descendantClosure given).commonConsequences wanted = .ok seen ∧
      ∀ id, id ∈ seen ↔ id ∈ found := by
  have members := mem_descendant_closure coherent acyclic given
  obtain ⟨found, seen, searched, searched_view, same⟩ := search_in_part coherent acyclic
    (descendant_closure_coherent coherent (acyclic_traversable acyclic) given)
    (descendant_closure_acyclic coherent acyclic given)
    (fun id mem => ((members id).mp mem).1) known
    fun seed mem id _ => descendant_closure_underlies_iff coherent acyclic given (inside seed mem)
  refine ⟨found, seen, searched, searched_view, fun id => ?_⟩
  rw [same, and_iff_left_of_imp]
  intro mem
  obtain ⟨seed, listed⟩ := List.exists_mem_of_ne_nil wanted some
  obtain ⟨here, under⟩ := (mem_common_consequences coherent acyclic searched id).mp mem
  rcases underlies_iff.mp (under seed listed) with rfl | above
  · exact known seed listed
  · exact (members id).mpr ⟨here, .inl (derives_from_of_ancestor (inside seed listed) above)⟩

end Views

theorem same_view_again {derivation : Derivation}
    (request : Derivation → Except UnknownClause Derivation)
    (composed : ∃ view inner, request derivation = .ok view ∧ request derivation = .ok inner ∧
      request view = .ok inner) :
    ∃ view, request derivation = .ok view ∧ request view = .ok view := by
  obtain ⟨view, inner, outer, direct, again⟩ := composed
  obtain rfl : view = inner := Except.ok.inj (outer.symm.trans direct)
  exact ⟨view, outer, again⟩

section Requests
variable {derivation : Derivation} (coherent : derivation.Coherent)
  (acyclic : Acyclic derivation.table) (ids : List ClauseId)
  (known : ∀ id ∈ ids, id ∈ derivation)

theorem ancestors_inside {narrower : List ClauseId}
    (inside : ∀ id ∈ narrower, id ∈ ids ∨ ∃ source ∈ ids, IsAncestor derivation.table id source) :
    ∀ id ∈ narrower, ∃ seed ∈ (.ofList ids : ClauseIds), Underlies derivation.table id seed := by
  intro id mem
  simp only [mem_of_list]
  rcases inside id mem with given | ⟨source, given, above⟩
  · exact ⟨id, given, ReflTransGen.refl⟩
  · exact ⟨source, given, above.to_reflTransGen⟩

theorem descendants_inside {narrower : List ClauseId}
    (inside : ∀ id ∈ narrower, id ∈ ids ∨ ∃ source ∈ ids, IsAncestor derivation.table source id) :
    ∀ id ∈ narrower, id ∈ (.ofList ids : ClauseIds) ∨
      DerivesFrom derivation.table (.ofList ids) id := by
  simpa only [mem_of_list, DerivesFrom] using inside

include coherent acyclic known

theorem ancestors_known {narrower : List ClauseId}
    (inside : ∀ id ∈ narrower, id ∈ ids ∨ ∃ source ∈ ids, IsAncestor derivation.table id source) :
    ∀ id ∈ narrower, id ∈ derivation.ancestorClosure (.ofList ids) := by
  intro id mem
  refine (mem_ancestor_closure coherent acyclic _ id).mpr ⟨?_, ancestors_inside ids inside id mem⟩
  rcases inside id mem with given | ⟨source, _, above⟩
  · exact known id given
  · exact ancestor_in_table (coherent_closed coherent) above

theorem descendants_known {narrower : List ClauseId}
    (inside : ∀ id ∈ narrower, id ∈ ids ∨ ∃ source ∈ ids, IsAncestor derivation.table source id) :
    ∀ id ∈ narrower, id ∈ derivation.descendantClosure (.ofList ids) := by
  intro id mem
  refine (mem_descendant_closure coherent acyclic _ id).mpr
    ⟨?_, shown_of_wanted (descendants_inside ids inside id mem)⟩
  rcases inside id mem with given | ⟨source, _, above⟩
  · exact known id given
  · exact descendant_in_table above

theorem descendant_view_of_view (narrower : List ClauseId)
    (inside : ∀ id ∈ narrower, id ∈ ids ∨ ∃ source ∈ ids, IsAncestor derivation.table source id) :
    ∃ view inner, derivation.descendantView ids = .ok view ∧
      derivation.descendantView narrower = .ok inner ∧
      view.descendantView narrower = .ok inner := by
  have shown := descendants_known coherent acyclic ids known inside
  have again := descendant_closure_again coherent acyclic (.ofList ids) (.ofList narrower)
    fun seed mem => descendants_inside ids inside seed ((mem_of_list narrower seed).mp mem)
  have narrower_known : ∀ id ∈ narrower, id ∈ derivation := fun id mem =>
    ((mem_descendant_closure coherent acyclic _ id).mp (shown id mem)).1
  have inner := descendant_view_some shown
  rw [again] at inner
  exact ⟨_, _, descendant_view_some known, descendant_view_some narrower_known, inner⟩

theorem ancestor_view_of_view (narrower : List ClauseId)
    (inside : ∀ id ∈ narrower, id ∈ ids ∨ ∃ source ∈ ids, IsAncestor derivation.table id source) :
    ∃ view inner, derivation.ancestorView ids = .ok view ∧
      derivation.ancestorView narrower = .ok inner ∧ view.ancestorView narrower = .ok inner := by
  have shown := ancestors_known coherent acyclic ids known inside
  have again := ancestor_closure_again coherent acyclic (.ofList ids) (.ofList narrower)
    fun seed mem => ancestors_inside ids inside seed ((mem_of_list narrower seed).mp mem)
  have narrower_known : ∀ id ∈ narrower, id ∈ derivation := fun id mem =>
    ((mem_ancestor_closure coherent acyclic _ id).mp (shown id mem)).1
  have inner := ancestor_view_some shown
  rw [again] at inner
  exact ⟨_, _, ancestor_view_some known, ancestor_view_some narrower_known, inner⟩

/-- Views compose: a view of a view shows what the same view of the source shows, if it asks for
clauses of the wider one. Asking again for the same clauses changes nothing. -/
theorem drill_down_composes (narrower : List ClauseId) :
    ((∀ id ∈ narrower, id ∈ ids ∨ ∃ source ∈ ids, IsAncestor derivation.table source id) →
      ∃ view inner, derivation.descendantView ids = .ok view ∧
        derivation.descendantView narrower = .ok inner ∧
        view.descendantView narrower = .ok inner) ∧
    ((∀ id ∈ narrower, id ∈ ids ∨ ∃ source ∈ ids, IsAncestor derivation.table id source) →
      ∃ view inner, derivation.ancestorView ids = .ok view ∧
        derivation.ancestorView narrower = .ok inner ∧
        view.ancestorView narrower = .ok inner) ∧
    (∃ view, derivation.descendantView ids = .ok view ∧ view.descendantView ids = .ok view) ∧
    ∃ view, derivation.ancestorView ids = .ok view ∧ view.ancestorView ids = .ok view := by
  have descendants := descendant_view_of_view coherent acyclic ids known
  have ancestors := ancestor_view_of_view coherent acyclic ids known
  refine ⟨descendants narrower, ancestors narrower, ?_, ?_⟩
  · exact same_view_again (·.descendantView ids) (descendants ids fun id mem => .inl mem)
  · exact same_view_again (·.ancestorView ids) (ancestors ids fun id mem => .inl mem)

end Requests

def layeredClauses : List Clause :=
  [{ id := 1, text := "p", rule := "input" }, { id := 2, text := "q", rule := "input" },
    { id := 3, text := "r", rule := "resolution", parents := [1] },
    { id := 4, text := "s", rule := "resolution", parents := [2, 3] },
    { id := 5, text := "$false", rule := "resolution", parents := [4] }]

def layered : Derivation :=
  .assemble (.ofList (layeredClauses.map fun clause => (clause.id, clause)))

theorem layered_given : ofClauses layeredClauses = .ok layered := rfl

theorem layered_coherent : layered.Coherent := clauses_coherent layered_given

theorem layered_acyclic : Acyclic layered.table :=
  clauses_acyclic layered_given (by simp [layeredClauses])

theorem layered_known : (∀ id ∈ [3], id ∈ layered) ∧ ∀ id ∈ [4], id ∈ layered := by
  have third : 3 ∈ layered := by decide
  have fourth : 4 ∈ layered := by decide
  simp [third, fourth]

theorem layered_above : IsAncestor layered.table 3 4 := parent_is_ancestor ⟨_, rfl, by decide⟩

theorem layered_drill_down : ofClauses layeredClauses = .ok layered ∧
    (∃ view inner, layered.descendantView [3] = .ok view ∧
      layered.descendantView [4] = .ok inner ∧ view.descendantView [4] = .ok inner ∧
      view.ids = [2, 3, 4, 5] ∧ inner.ids = [4, 5]) ∧
    ∃ view inner, layered.ancestorView [4] = .ok view ∧
      layered.ancestorView [3] = .ok inner ∧ view.ancestorView [3] = .ok inner ∧
      view.ids = [1, 2, 3, 4] ∧ inner.ids = [1, 3] := by
  have composes := drill_down_composes layered_coherent layered_acyclic
  have below : (layered.descendantView [3]).map ids = .ok [2, 3, 4, 5] ∧
      (layered.descendantView [4]).map ids = .ok [4, 5] := ⟨rfl, rfl⟩
  have above : (layered.ancestorView [4]).map ids = .ok [1, 2, 3, 4] ∧
      (layered.ancestorView [3]).map ids = .ok [1, 3] := ⟨rfl, rfl⟩
  obtain ⟨lower, inner, taken, direct, down⟩ :=
    (composes [3] layered_known.1 [4]).1 (by simpa using layered_above)
  obtain ⟨upper, narrow, raised, straight, up⟩ :=
    (composes [4] layered_known.2 [3]).2.1 (by simpa using layered_above)
  rw [taken, direct] at below
  rw [raised, straight] at above
  exact ⟨layered_given,
    ⟨lower, inner, taken, direct, down, below.imp Except.ok.inj Except.ok.inj⟩,
    ⟨upper, narrow, raised, straight, up, above.imp Except.ok.inj Except.ok.inj⟩⟩

/-- A search in a view finds what it finds in the source: in a descendant view all of it, as long as
it asks for a clause of the view; in an ancestor view what the view has. -/
theorem search_agrees_with_source {derivation : Derivation} (coherent : derivation.Coherent)
    (acyclic : Acyclic derivation.table) (ids : List ClauseId)
    (known : ∀ id ∈ ids, id ∈ derivation) :
    (∃ view, derivation.descendantView ids = .ok view ∧ ∀ wanted : List ClauseId, wanted ≠ [] →
      (∀ id ∈ wanted, id ∈ ids ∨ ∃ source ∈ ids, IsAncestor derivation.table source id) →
      ∃ found seen, derivation.commonConsequences wanted = .ok found ∧
        view.commonConsequences wanted = .ok seen ∧ ∀ id, id ∈ seen ↔ id ∈ found) ∧
    ∃ view, derivation.ancestorView ids = .ok view ∧ ∀ wanted : List ClauseId,
      (∀ id ∈ wanted, id ∈ view) →
      ∃ found seen, derivation.commonConsequences wanted = .ok found ∧
        view.commonConsequences wanted = .ok seen ∧ ∀ id, id ∈ seen ↔ id ∈ found ∧ id ∈ view := by
  constructor
  · refine ⟨_, descendant_view_some known, ?_⟩
    intro wanted some inside
    have shown := descendants_known coherent acyclic ids known inside
    have searched := search_in_descendant_closure coherent acyclic _ some
      (descendants_inside ids inside) shown
    exact searched
  · refine ⟨_, ancestor_view_some known, ?_⟩
    intro wanted shown
    have searched := search_in_ancestor_closure coherent acyclic _ shown
    exact searched

theorem layered_search : ofClauses layeredClauses = .ok layered ∧
    (∃ view found seen, layered.descendantView [3] = .ok view ∧
      layered.commonConsequences [3, 4] = .ok found ∧
      view.commonConsequences [3, 4] = .ok seen ∧ (∀ id, id ∈ seen ↔ id ∈ found) ∧
      found = [4, 5] ∧ seen = [4, 5]) ∧
    ∃ view found seen, layered.ancestorView [4] = .ok view ∧
      layered.commonConsequences [3] = .ok found ∧ view.commonConsequences [3] = .ok seen ∧
      (∀ id, id ∈ seen ↔ id ∈ found ∧ id ∈ view) ∧ found = [3, 4, 5] ∧ seen = [3, 4] := by
  have agrees := search_agrees_with_source layered_coherent layered_acyclic
  refine ⟨layered_given, ?_, ?_⟩
  · have whole : layered.commonConsequences [3, 4] = .ok [4, 5] := rfl
    have part : layered.descendantView [3] >>= (·.commonConsequences [3, 4]) = .ok [4, 5] := rfl
    obtain ⟨⟨view, taken, same⟩, _⟩ := agrees [3] layered_known.1
    obtain ⟨found, seen, searched, answered, listed⟩ :=
      same [3, 4] (by simp) (by simpa using layered_above)
    rw [searched] at whole
    rw [taken] at part
    exact ⟨view, found, seen, taken, searched, answered, listed, Except.ok.inj whole,
      Except.ok.inj (answered.symm.trans part)⟩
  · have whole : layered.commonConsequences [3] = .ok [3, 4, 5] := rfl
    have part : layered.ancestorView [4] >>= (·.commonConsequences [3]) = .ok [3, 4] := rfl
    have known : (layered.ancestorView [4]).map (decide <| 3 ∈ ·) = .ok true := rfl
    obtain ⟨_, view, taken, same⟩ := agrees [4] layered_known.2
    rw [taken] at known
    obtain ⟨found, seen, searched, answered, listed⟩ :=
      same [3] (by simpa using of_decide_eq_true (Except.ok.inj known))
    rw [searched] at whole
    rw [taken] at part
    exact ⟨view, found, seen, taken, searched, answered, listed, Except.ok.inj whole,
      Except.ok.inj (answered.symm.trans part)⟩

end DerivationReplay.Derivation
