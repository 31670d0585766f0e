import DerivationReplay.Proofs.Views

/-!
The descendant view. The sweep from parents to children meets each parent before its children, so
whether a clause has a wanted parent is settled when its turn comes: it derives from a given clause.
Such clauses stand in the view as they are; the given clauses that derive from no other one, and the
parents beside the way, stand at its boundary. The view is coherent again.
-/
namespace DerivationReplay
open Relation

namespace Selection
variable {table : Table} {trail : List Clause}

theorem get_outside_parents (source : Table) (wanted : ClauseIds) (clause : Clause) (kept : Table)
    (id : ClauseId) : (addOutsideParents source wanted clause kept)[id]? =
      if id ∈ clause.parents ∧ id ∉ wanted then (source[id]?.map Clause.boundary).or kept[id]?
      else kept[id]? := by
  unfold addOutsideParents
  generalize clause.parents = parents
  induction parents generalizing kept with
  | nil => simp
  | cons parent parents ih =>
    rw [List.foldl_cons, ih]
    by_cases here : id = parent
    · subst here
      by_cases inside : id ∈ wanted
      · simp [inside]
      · cases found : source[id]? <;> simp [inside]
    · by_cases inside : parent ∈ wanted
      · simp [here, inside]
      · cases found : source[parent]? with
        | none => simp [here, inside]
        | some outside => simp [here, Ne.symm here, inside, get_insert]

/-- What stands in the view once the clauses of a trail are swept: a clause that derives from a
given one as it is; a given clause that does not, or a parent beside the way, at the boundary. -/
inductive Shows (table : Table) (given : ClauseIds) (trail : List Clause) (clause : Clause) :
    Clause → Prop
  | whole (reached : clause.id ∈ trail.map Clause.id)
      (derived : DerivesFrom table given clause.id) : Shows table given trail clause clause
  | seed (reached : clause.id ∈ trail.map Clause.id) (wanted : clause.id ∈ given)
      (outside : ¬ DerivesFrom table given clause.id) :
      Shows table given trail clause clause.boundary
  | parent (child : ClauseId) (reached : child ∈ trail.map Clause.id)
      (derived : DerivesFrom table given child) (edge : IsParent table clause.id child)
      (outside : ¬ DerivesFrom table given clause.id) :
      Shows table given trail clause clause.boundary

theorem shows_cons {given : ClauseIds} {clause shown : Clause} (next : Clause)
    (shows : Shows table given trail clause shown) :
    Shows table given (next :: trail) clause shown := by
  cases shows with
  | whole reached derived => exact .whole (List.mem_cons_of_mem _ reached) derived
  | seed reached wanted outside => exact .seed (List.mem_cons_of_mem _ reached) wanted outside
  | parent child reached derived edge outside =>
    exact .parent child (List.mem_cons_of_mem _ reached) derived edge outside

theorem shows_whole {given : ClauseIds} {clause shown : Clause}
    (derived : DerivesFrom table given clause.id) (shows : Shows table given trail clause shown) :
    clause = shown := by
  cases shows with
  | whole => rfl
  | seed _ _ outside => exact absurd derived outside
  | parent _ _ _ _ outside => exact absurd derived outside

theorem shows_boundary {given : ClauseIds} {clause shown : Clause}
    (outside : ¬ DerivesFrom table given clause.id) (shows : Shows table given trail clause shown) :
    clause.boundary = shown := by
  cases shows with
  | whole _ derived => exact absurd derived outside
  | seed => rfl
  | parent => rfl

theorem shows_derived_iff {given : ClauseIds} {clause shown next : Clause}
    (found : table[next.id]? = some next) (derived : DerivesFrom table given next.id)
    (other : clause.id ≠ next.id) : Shows table given (next :: trail) clause shown ↔
      Shows table given trail clause shown ∨ clause.id ∈ next.parents ∧
        ¬ DerivesFrom table given clause.id ∧ clause.boundary = shown := by
  constructor
  · intro shows
    cases shows with
    | whole reached inside =>
      exact .inl (.whole ((List.mem_cons.mp reached).resolve_left other) inside)
    | seed reached wanted outside =>
      exact .inl (.seed ((List.mem_cons.mp reached).resolve_left other) wanted outside)
    | parent child reached below edge outside =>
      rcases List.mem_cons.mp reached with rfl | reached
      · obtain ⟨source, here, listed⟩ := edge
        obtain rfl := Option.some.inj (found.symm.trans here)
        exact .inr ⟨listed, outside, rfl⟩
      · exact .inl (.parent child reached below edge outside)
  · rintro (shows | ⟨listed, outside, rfl⟩)
    · exact shows_cons next shows
    · exact .parent next.id List.mem_cons_self derived ⟨next, found, listed⟩ outside

theorem shows_outside_iff {given : ClauseIds} {clause shown next : Clause}
    (outside : ¬ DerivesFrom table given next.id) :
    Shows table given (next :: trail) clause shown ↔ Shows table given trail clause shown ∨
      clause.id = next.id ∧ clause.id ∈ given ∧ shown = clause.boundary := by
  constructor
  · intro shows
    cases shows with
    | whole reached derived =>
      rcases List.mem_cons.mp reached with same | reached
      · exact absurd (same ▸ derived) outside
      · exact .inl (.whole reached derived)
    | seed reached wanted apart =>
      rcases List.mem_cons.mp reached with same | reached
      · exact .inr ⟨same, wanted, rfl⟩
      · exact .inl (.seed reached wanted apart)
    | parent child reached derived edge apart =>
      rcases List.mem_cons.mp reached with rfl | reached
      · exact absurd derived outside
      · exact .inl (.parent child reached derived edge apart)
  · rintro (shows | ⟨same, wanted, rfl⟩)
    · exact shows_cons next shows
    · exact .seed (List.mem_cons.mpr (.inl same)) wanted (same ▸ outside)

/-- What the sweep from parents to children keeps true. -/
structure Swept (table : Table) (given : ClauseIds) (trail : List Clause) (selection : Selection) :
    Prop where
  wanted : ∀ id, id ∈ selection.wanted ↔
    id ∈ given ∨ id ∈ trail.map Clause.id ∧ DerivesFrom table given id
  kept : ∀ (id : ClauseId) (shown : Clause), selection.kept[id]? = some shown ↔
    ∃ clause, table[id]? = some clause ∧ Shows table given trail clause shown

section Step
variable {given : ClauseIds} {next : Clause} {selection : Selection} (keyed : Keyed table)
  (found : table[next.id]? = some next)
  (known : ∀ parent ∈ next.parents, parent ∈ table)
  (after : ∀ parent ∈ next.parents, parent ∈ trail.map Clause.id)
  (swept : Swept table given trail selection)
include found after swept

theorem derived_iff : (next.parents.any fun parent => selection.wanted.contains parent) = true ↔
    DerivesFrom table given next.id := by
  rw [derives_from_iff, List.any_eq_true]
  simp only [Std.ExtTreeSet.contains_iff_mem, swept.wanted]
  constructor
  · intro some
    obtain ⟨parent, listed, wanted⟩ := some
    exact ⟨parent, ⟨next, found, listed⟩, wanted.imp_right And.right⟩
  · intro some
    obtain ⟨parent, ⟨other, here, listed⟩, wanted⟩ := some
    obtain rfl := Option.some.inj (found.symm.trans here)
    exact ⟨parent, listed, wanted.imp_right fun derived => ⟨after parent listed, derived⟩⟩

include keyed

theorem sweep_beside (derived : DerivesFrom table given next.id) {id : ClauseId}
    (other : next.id ≠ id) (listed : id ∈ next.parents) (inTable : id ∈ table)
    (unwanted : id ∉ selection.wanted) (shown : Clause) :
    (table[id]?.map Clause.boundary).or selection.kept[id]? = some shown ↔
      ∃ clause, table[id]? = some clause ∧ Shows table given (next :: trail) clause shown := by
  rw [swept.wanted, not_or, not_and] at unwanted
  -- The parent had its turn before, so that it would be wanted if it derived from a given clause.
  have outside := unwanted.2 (after id listed)
  obtain ⟨clause, here⟩ := (mem_table_iff table id).mp inTable
  obtain rfl := keyed id clause here
  simp only [here, Option.map_some, Option.some_or, Option.some.injEq, exists_eq_left']
  rw [shows_derived_iff found derived (Ne.symm other)]
  constructor
  · intro boundary
    exact .inr ⟨listed, outside, boundary⟩
  · intro shows
    exact shows.elim (shows_boundary outside) fun beside => beside.2.2

theorem sweep_elsewhere (derived : DerivesFrom table given next.id) {id : ClauseId}
    (other : next.id ≠ id) (wanted : id ∈ next.parents → id ∈ selection.wanted) (shown : Clause) :
    selection.kept[id]? = some shown ↔
      ∃ clause, table[id]? = some clause ∧ Shows table given (next :: trail) clause shown := by
  rw [swept.kept]
  refine exists_congr fun clause => and_congr_right fun here => ?_
  obtain rfl := keyed id clause here
  rw [shows_derived_iff found derived (Ne.symm other), or_iff_left_of_imp]
  intro beside
  obtain ⟨listed, outside, rfl⟩ := beside
  have given := ((swept.wanted clause.id).mp (wanted listed)).resolve_right fun own => outside own.2
  exact .seed (after clause.id listed) given outside

include known

theorem sweep_derived (derived : DerivesFrom table given next.id) :
    Swept table given (next :: trail)
      { wanted := selection.wanted.insert next.id
        kept := (addOutsideParents table (selection.wanted.insert next.id) next
          selection.kept).insert next.id next } where
  wanted id := by
    rw [Walk.mem_visited_insert, swept.wanted, List.map_cons, List.mem_cons, or_and_right,
      or_left_comm]
    refine or_congr_right (or_congr_left ⟨?_, fun same => same.1.symm⟩)
    rintro rfl
    exact ⟨rfl, derived⟩
  kept id shown := by
    rw [get_insert, get_outside_parents]
    by_cases same : next.id = id
    · subst same
      simp only [↓reduceIte, found, Option.some.injEq, exists_eq_left']
      constructor
      · rintro rfl
        exact .whole List.mem_cons_self derived
      · exact shows_whole derived
    · have wanted : id ∈ selection.wanted.insert next.id ↔ id ∈ selection.wanted := by
        rw [Walk.mem_visited_insert, or_iff_right same]
      simp only [if_neg same, wanted]
      split
      · rename_i beside
        exact sweep_beside keyed found after swept derived same beside.1 (known id beside.1)
          beside.2 shown
      · rename_i beside
        refine sweep_elsewhere keyed found after swept derived same (fun listed => ?_) shown
        exact not_not.mp fun unwanted => beside ⟨listed, unwanted⟩

omit keyed found known after in
theorem sweep_wanted (outside : ¬ DerivesFrom table given next.id) (id : ClauseId) :
    id ∈ selection.wanted ↔
      id ∈ given ∨ id ∈ (next :: trail).map Clause.id ∧ DerivesFrom table given id := by
  rw [swept.wanted, List.map_cons, List.mem_cons, or_and_right]
  refine or_congr_right ⟨.inr, fun reached => reached.resolve_left ?_⟩
  rintro ⟨rfl, inside⟩
  exact outside inside

omit known after in
theorem sweep_outside (outside : ¬ DerivesFrom table given next.id) :
    Swept table given (next :: trail)
      (if next.id ∈ selection.wanted then
        { selection with kept := selection.kept.insert next.id next.boundary }
      else selection) := by
  have reached : next.id ∈ (next :: trail).map Clause.id := List.mem_cons_self
  have own : next.id ∈ selection.wanted ↔ next.id ∈ given := by
    rw [sweep_wanted swept outside]
    exact or_iff_left fun derived => outside derived.2
  split
  · rename_i wanted
    refine ⟨fun id => sweep_wanted swept outside id, fun id shown => ?_⟩
    rw [get_insert]
    split
    · rename_i same
      subst same
      simp only [found, Option.some.injEq, exists_eq_left']
      constructor
      · rintro rfl
        exact .seed reached (own.mp wanted) outside
      · exact shows_boundary outside
    · rename_i other
      rw [swept.kept]
      refine exists_congr fun clause => and_congr_right fun here => ?_
      rw [shows_outside_iff outside, or_iff_left]
      rintro ⟨same, _⟩
      exact other (same.symm.trans (keyed id clause here))
  · rename_i unwanted
    refine ⟨fun id => sweep_wanted swept outside id, fun id shown => ?_⟩
    rw [swept.kept]
    refine exists_congr fun clause => and_congr_right fun here => ?_
    rw [shows_outside_iff outside, or_iff_left]
    rintro ⟨same, given, _⟩
    exact unwanted (own.mpr (same ▸ given))

theorem swept_step : Swept table given (next :: trail) (takeDescendant table selection next) := by
  unfold takeDescendant
  by_cases derived : DerivesFrom table given next.id
  · rw [if_pos ((derived_iff found after swept).mpr derived)]
    exact sweep_derived keyed found known after swept derived
  · rw [if_neg (mt (derived_iff found after swept).mp derived)]
    exact sweep_outside keyed found swept derived

end Step

theorem take_descendants (keyed : Keyed table) (closed : Closed table)
    (finished : Finished table trail) (given : ClauseIds) :
    Swept table given trail (trail.reverse.foldl (takeDescendant table) { wanted := given }) := by
  rw [List.foldl_reverse]
  induction finished with
  | nil =>
    refine ⟨by simp, fun id shown => iff_of_false (by simp) ?_⟩
    rintro ⟨clause, _, shows⟩
    cases shows with
    | whole reached => simp at reached
    | seed reached => simp at reached
    | parent _ reached => simp at reached
  | @cons next trail found fresh after _ ih =>
    have known : ∀ parent ∈ next.parents, parent ∈ table :=
      fun parent listed => closed parent next.id ⟨next, found, listed⟩
    exact swept_step keyed found known
      (fun parent listed => after parent listed (known parent listed)) ih

end Selection

namespace Derivation
variable {derivation : Derivation}

theorem descendant_closure_kept (coherent : derivation.Coherent) (clear : derivation.Traversable)
    (given : ClauseIds) : ∃ kept : Table, derivation.descendantClosure given = assemble kept ∧
      ∀ (id : ClauseId) (shown : Clause), kept[id]? = some shown ↔
        ∃ clause, derivation.table[id]? = some clause ∧
          Selection.Shows derivation.table given derivation.childrenFirst clause shown := by
  have swept := Selection.take_descendants (coherent_keyed coherent) (coherent_closed coherent)
    (children_first_finished coherent clear) given
  rw [childrenFirst, List.reverse_reverse] at swept
  exact ⟨_, rfl, swept.kept⟩

theorem descendant_closure_coherent (coherent : derivation.Coherent)
    (clear : derivation.Traversable) (given : ClauseIds) :
    (derivation.descendantClosure given).Coherent := by
  obtain ⟨kept, view, found⟩ := descendant_closure_kept coherent clear given
  have finished := children_first_finished coherent clear
  rw [view]
  refine assemble_coherent (fun id shown here => ?_) ?_
  · obtain ⟨clause, known, shows⟩ := (found id shown).mp here
    have number := coherent.keyed id clause known
    cases shows <;> exact number
  · intro parent child edge
    obtain ⟨shown, here, listed⟩ := edge
    obtain ⟨clause, known, shows⟩ := (found child shown).mp here
    obtain rfl := coherent.keyed child clause known
    cases shows with
    | seed => simp [Clause.boundary] at listed
    | parent => simp [Clause.boundary] at listed
    | whole reached derived =>
      have edge : IsParent derivation.table parent shown.id := ⟨shown, known, listed⟩
      have inTable := coherent_closed coherent parent shown.id edge
      obtain ⟨other, there⟩ := (mem_table_iff _ parent).mp inTable
      obtain rfl := coherent.keyed parent other there
      -- The parent is in the view too: whole if it derives from a given clause, else cut off.
      have above := finished_parent finished reached edge inTable
      rw [mem_table_iff]
      by_cases inside : DerivesFrom derivation.table given other.id
      · exact ⟨other, (found _ other).mpr ⟨other, there, .whole above inside⟩⟩
      · exact ⟨other.boundary,
          (found _ _).mpr ⟨other, there, .parent shown.id reached derived edge inside⟩⟩

def AtBoundary (table : Table) (given : ClauseIds) (id : ClauseId) : Prop :=
  ¬ DerivesFrom table given id ∧
    (id ∈ given ∨ ∃ child, IsParent table id child ∧ DerivesFrom table given child)

theorem shown_of_wanted {table : Table} {given : ClauseIds} {id : ClauseId}
    (wanted : id ∈ given ∨ DerivesFrom table given id) :
    DerivesFrom table given id ∨ AtBoundary table given id := by
  by_cases derived : DerivesFrom table given id
  · exact .inl derived
  · exact .inr ⟨derived, .inl (wanted.resolve_right derived)⟩

theorem descendant_closure_bare_iff (coherent : derivation.Coherent)
    (acyclic : Acyclic derivation.table) (given : ClauseIds) (id : ClauseId) (shown : Clause) :
    (derivation.descendantClosure given).bare? id = some shown ↔
      ∃ clause, derivation.bare? id = some clause ∧
        (DerivesFrom derivation.table given id ∧ clause = shown ∨
          AtBoundary derivation.table given id ∧ clause.boundary = shown) := by
  obtain ⟨kept, view, found⟩ :=
    descendant_closure_kept coherent (acyclic_traversable acyclic) given
  have reached : ∀ id ∈ derivation.table, id ∈ derivation.childrenFirst.map Clause.id :=
    fun id mem => (acyclic_children_first coherent acyclic id).mpr mem
  rw [view, bare_assemble_iff]
  simp only [bare_some_iff]
  constructor
  · intro here
    obtain ⟨other, kept_here, rfl⟩ := here
    obtain ⟨clause, known, shows⟩ := (found id other).mp kept_here
    obtain rfl := coherent.keyed id clause known
    refine ⟨clause.bare, ⟨clause, known, rfl⟩, ?_⟩
    cases shows with
    | whole _ derived => exact .inl ⟨derived, rfl⟩
    | seed _ wanted outside => exact .inr ⟨⟨outside, .inl wanted⟩, rfl⟩
    | parent child _ derived edge outside =>
      exact .inr ⟨⟨outside, .inr ⟨child, edge, derived⟩⟩, rfl⟩
  · intro here
    obtain ⟨_, ⟨clause, known, rfl⟩, stands⟩ := here
    obtain rfl := coherent.keyed id clause known
    have own := reached clause.id ((mem_table_iff _ _).mpr ⟨clause, known⟩)
    rcases stands with ⟨derived, rfl⟩ | ⟨⟨outside, wanted | ⟨child, edge, derived⟩⟩, rfl⟩
    · exact ⟨clause, (found _ _).mpr ⟨clause, known, .whole own derived⟩, rfl⟩
    · exact ⟨clause.boundary, (found _ _).mpr ⟨clause, known, .seed own wanted outside⟩, rfl⟩
    · have below := reached child (child_in_table edge)
      exact ⟨clause.boundary,
        (found _ _).mpr ⟨clause, known, .parent child below derived edge outside⟩, rfl⟩

theorem mem_descendant_closure (coherent : derivation.Coherent)
    (acyclic : Acyclic derivation.table) (given : ClauseIds) (id : ClauseId) :
    id ∈ derivation.descendantClosure given ↔ id ∈ derivation ∧
      (DerivesFrom derivation.table given id ∨ AtBoundary derivation.table given id) := by
  simp only [mem_iff_bare, descendant_closure_bare_iff coherent acyclic]
  constructor
  · intro here
    obtain ⟨_, clause, known, stands⟩ := here
    exact ⟨⟨clause, known⟩, stands.imp And.left And.left⟩
  · intro here
    obtain ⟨⟨clause, known⟩, derived | boundary⟩ := here
    · exact ⟨_, clause, known, .inl ⟨derived, rfl⟩⟩
    · exact ⟨_, clause, known, .inr ⟨boundary, rfl⟩⟩

theorem descendant_closure_edge_iff (coherent : derivation.Coherent)
    (acyclic : Acyclic derivation.table) (given : ClauseIds) (parent child : ClauseId) :
    IsParent (derivation.descendantClosure given).table parent child ↔
      IsParent derivation.table parent child ∧ DerivesFrom derivation.table given child := by
  simp only [is_parent_iff_bare, descendant_closure_bare_iff coherent acyclic]
  constructor
  · intro edge
    obtain ⟨_, ⟨clause, known, ⟨derived, rfl⟩ | ⟨_, rfl⟩⟩, listed⟩ := edge
    · exact ⟨⟨clause, known, listed⟩, derived⟩
    · cases listed
  · intro edge
    obtain ⟨⟨clause, known, listed⟩, derived⟩ := edge
    exact ⟨clause, ⟨clause, known, .inl ⟨derived, rfl⟩⟩, listed⟩

theorem descendant_closure_acyclic (coherent : derivation.Coherent)
    (acyclic : Acyclic derivation.table) (given : ClauseIds) :
    Acyclic (derivation.descendantClosure given).table :=
  acyclic_of_ancestors acyclic fun parent child edge => parent_is_ancestor
    ((descendant_closure_edge_iff coherent acyclic given parent child).mp edge).1

end Derivation
end DerivationReplay
