import DerivationReplay.Proofs.Activations

/-!
What the state of a recorder keeps, whatever events it accepts or rejects. A rejected event changes
at most the count of activations; an accepted one stores a single clause, newly declared or known
before, and puts placeholders for missing parents.
-/
namespace DerivationReplay

namespace Lifecycle

/-- Each stamp has those before it, and only a deleted clause has deletion parents. -/
structure InOrder (life : Lifecycle) : Prop where
  passive : life.passive.isSome → life.new.isSome
  active : life.active.isSome → life.passive.isSome
  deletion : life.deletion.isSome → life.new.isSome
  deletionParents : life.deletionParents ≠ [] → life.deletion.isSome

theorem start_in_order : InOrder {} where
  passive := nofun
  active := nofun
  deletion := nofun
  deletionParents := nofun

section Setters
variable {life : Lifecycle} (inOrder : life.InOrder) (time : Time)
include inOrder

theorem new_in_order : InOrder { life with new := some time } :=
  { inOrder with
    passive := fun _ => rfl
    deletion := fun _ => rfl }

theorem passive_in_order (new : life.new.isSome) : InOrder { life with passive := some time } :=
  { inOrder with
    passive := fun _ => new
    active := fun _ => rfl }

theorem active_in_order (passive : life.passive.isSome) :
    InOrder { life with active := some time } :=
  { inOrder with active := fun _ => passive }

theorem deletion_in_order (new : life.new.isSome) :
    InOrder { life with deletion := some time, deletionParents := [] } :=
  { inOrder with
    deletion := fun _ => new
    deletionParents := fun _ => rfl }

theorem deletion_parents_in_order (deletion : life.deletion.isSome) (parents : List ClauseId) :
    InOrder { life with deletionParents := parents } :=
  { inOrder with deletionParents := fun _ => deletion }

end Setters
end Lifecycle

namespace Reconstruction
variable {state next : Reconstruction} {event : Event} {clause : Clause}

theorem found_of_insert {table : Table} {key id : ClauseId} {clause other : Clause}
    (here : (table.insert key clause)[id]? = some other) :
    key = id ∧ clause = other ∨ table[id]? = some other := by
  rw [get_insert] at here
  split at here
  · exact .inl ⟨‹_›, Option.some.inj here⟩
  · exact .inr here

theorem declared_some_iff (state : Reconstruction) (id : ClauseId) (clause : Clause) :
    state.declared? id = some clause ↔
      id ∉ state.placeholders ∧ state.table[id]? = some clause := by
  unfold declared?
  split <;> simp_all

/-- What a state keeps; the parents in `pending` may still lack a placeholder. -/
structure Kept (pending : List ClauseId) (state : Reconstruction) : Prop where
  keyed : Keyed state.table
  closed : ∀ parent child, IsParent state.table parent child →
    parent ∈ state.table ∨ parent ∈ pending
  placeholders : ∀ id ∈ state.placeholders, state.table[id]? = some (.placeholder id)
  lives : ∀ (id : ClauseId) clause, state.table[id]? = some clause → clause.life.InOrder
  reduced : ∀ id, state.reduced = some id →
    ∃ clause, state.declared? id = some clause ∧ clause.life.deletion.isSome
  /-- There is an activation for each activated clause. -/
  activated : ∃ ids : List ClauseId, ids.length ≤ state.activations ∧
    ∀ (id : ClauseId) clause, state.table[id]? = some clause → clause.isActivated → id ∈ ids

theorem kept_start (options : Options) : Kept [] { options } where
  keyed := by simp [Keyed]
  closed := by simp [IsParent]
  placeholders := by simp
  lives := by simp
  reduced := by simp
  activated := ⟨[], by simp⟩

theorem kept_counted {pending : List ClauseId} (kept : Kept pending state) :
    Kept pending { state with activations := state.activations + 1 } := by
  obtain ⟨ids, few, all⟩ := kept.activated
  exact { kept with activated := ⟨ids, Nat.le_succ_of_le few, all⟩ }

/-! What an accepted event does. -/

structure Introduces (state : Reconstruction) (event : Event) (clause : Clause) : Prop where
  fresh : state.declared? clause.id = none
  id : clause.id = event.id
  kind : event.kind = .preprocessing ∨ event.kind = .new
  parents : clause.parents = event.parents

/-- The clause was declared before, and loses neither parents nor deletion. -/
structure Continues (state : Reconstruction) (known clause : Clause) : Prop where
  declared : state.declared? clause.id = some known
  parents : clause.parents = known.parents
  deletion : known.life.deletion.isSome → clause.life.deletion.isSome

/-- One clause is stored. A clause that was not active before has its activation counted. -/
structure Stores (state : Reconstruction) (event : Event) (clause : Clause)
    (next : Reconstruction) : Prop where
  table : next.table = (state.store clause).table
  placeholders : next.placeholders = (state.store clause).placeholders
  origin : state.Introduces event clause ∨ ∃ known, state.Continues known clause
  life : clause.life.InOrder
  counts : state.activations ≤ next.activations
  activation : clause.isActivated → state.activations < next.activations ∨
    ∃ known, state.declared? clause.id = some known ∧ known.isActivated
  reduced : next.reduced = state.reduced ∨
    next.reduced = some clause.id ∧ clause.life.deletion.isSome

theorem declared_store (id : ClauseId) : (state.store clause).declared? id =
    if clause.id = id then some clause else state.declared? id := by
  unfold declared? store
  simp only [Std.ExtTreeSet.mem_erase, get_insert, ne_eq, Std.LawfulEqCmp.compare_eq_iff_eq]
  by_cases same : clause.id = id <;> simp [same]

theorem Stores.declared (stores : Stores state event clause next) (id : ClauseId) :
    next.declared? id = if clause.id = id then some clause else state.declared? id := by
  rw [← declared_store]
  unfold declared?
  rw [stores.table, stores.placeholders]

theorem Stores.found (stores : Stores state event clause next) {id : ClauseId} {other : Clause}
    (here : next.table[id]? = some other) :
    clause.id = id ∧ clause = other ∨ state.table[id]? = some other := by
  rw [stores.table] at here
  exact found_of_insert here

section Stored
variable (kept : Kept [] state)
include kept

theorem declared_id {id : ClauseId} (declared : state.declared? id = some clause) :
    clause.id = id ∧ clause.life.InOrder := by
  obtain ⟨_, found⟩ := (declared_some_iff state id clause).mp declared
  exact ⟨kept.keyed id clause found, kept.lives id clause found⟩

theorem parent_in_table {parent child : ClauseId} (edge : IsParent state.table parent child) :
    parent ∈ state.table := by
  simpa using kept.closed parent child edge

section Store
variable (stores : Stores state event clause next)
include stores

theorem stored_closed (parent child : ClauseId) (edge : IsParent next.table parent child) :
    parent ∈ next.table ∨ parent ∈ if event.kind.declares then event.parents else [] := by
  have grows : parent ∈ state.table → parent ∈ next.table := by
    rw [stores.table]
    exact fun mem => Std.ExtTreeMap.mem_insert.mpr (.inr mem)
  obtain ⟨other, here, listed⟩ := edge
  rcases stores.found here with ⟨_, rfl⟩ | old
  · rcases stores.origin with fresh | ⟨known, continues⟩
    · rw [fresh.parents] at listed
      rcases fresh.kind with kind | kind <;> simp [kind, EventKind.declares, listed]
    · obtain ⟨_, here⟩ := (declared_some_iff _ _ _).mp continues.declared
      rw [continues.parents] at listed
      exact .inl (grows (parent_in_table kept ⟨known, here, listed⟩))
  · exact .inl (grows (parent_in_table kept ⟨other, old, listed⟩))

theorem stored_reduced (id : ClauseId) (reduced : next.reduced = some id) :
    ∃ other, next.declared? id = some other ∧ other.life.deletion.isSome := by
  rw [stores.declared]
  rcases stores.reduced with same | ⟨now, deletion⟩
  · obtain ⟨other, declared, deletion⟩ := kept.reduced id (same ▸ reduced)
    split
    · rename_i here
      subst id
      rcases stores.origin with fresh | ⟨known, continues⟩
      · rw [fresh.fresh] at declared
        cases declared
      · obtain rfl := Option.some.inj (continues.declared.symm.trans declared)
        exact ⟨clause, rfl, continues.deletion deletion⟩
    · exact ⟨other, declared, deletion⟩
  · obtain rfl := Option.some.inj (now.symm.trans reduced)
    exact ⟨clause, if_pos rfl, deletion⟩

theorem stored_activated : ∃ ids : List ClauseId, ids.length ≤ next.activations ∧
    ∀ (id : ClauseId) other, next.table[id]? = some other → other.isActivated → id ∈ ids := by
  obtain ⟨ids, few, all⟩ := kept.activated
  by_cases listed : clause.isActivated → clause.id ∈ ids
  · refine ⟨ids, Nat.le_trans few stores.counts, fun id other here active => ?_⟩
    rcases stores.found here with ⟨rfl, rfl⟩ | old
    · exact listed active
    · exact all id other old active
  · obtain ⟨active, unlisted⟩ := Classical.not_imp.mp listed
    -- Only a clause that was not active before joins the list, and that activation was counted.
    rcases stores.activation active with more | ⟨known, declared, was⟩
    · refine ⟨clause.id :: ids, Nat.lt_of_le_of_lt few more, fun id other here active => ?_⟩
      rcases stores.found here with ⟨rfl, _⟩ | old
      · exact List.mem_cons_self
      · exact List.mem_cons_of_mem _ (all id other old active)
    · obtain ⟨_, here⟩ := (declared_some_iff _ _ _).mp declared
      exact absurd (all _ known here was) unlisted

theorem kept_stores : Kept (if event.kind.declares then event.parents else []) next where
  keyed id other here := by
    rcases stores.found here with ⟨same, rfl⟩ | old
    · exact same
    · exact kept.keyed id other old
  closed := stored_closed kept stores
  placeholders id mem := by
    rw [stores.placeholders, store, Std.ExtTreeSet.mem_erase] at mem
    obtain ⟨apart, mem⟩ := mem
    rw [stores.table, store, get_insert, if_neg (by simpa using apart)]
    exact kept.placeholders id mem
  lives id other here := by
    rcases stores.found here with ⟨_, rfl⟩ | old
    · exact stores.life
    · exact kept.lives id other old
  reduced := stored_reduced kept stores
  activated := stored_activated kept stores

end Store

/-! The operations, one by one. -/

omit kept in
theorem declare_preprocessing_stores (kind : event.kind = .preprocessing)
    (done : state.declarePreprocessing event = .ok next) :
    ∃ clause, Stores state event clause next := by
  obtain ⟨fresh, rfl⟩ := (declare_preprocessing_ok_iff _ _ _).mp done
  exact ⟨declaration event true,
    { table := rfl
      placeholders := rfl
      origin := .inl ⟨fresh, rfl, .inl kind, rfl⟩
      life := Lifecycle.start_in_order
      counts := Nat.le_refl _
      activation := nofun
      reduced := .inl rfl }⟩

theorem new_clause_origin {time : Time} (kind : event.kind = .new)
    (found : state.newClause time event = .ok clause) :
    (state.Introduces event clause ∨ ∃ known, state.Continues known clause) ∧
      clause.life.InOrder := by
  rcases (new_clause_ok_iff _ _ _ _).mp found with
    ⟨fresh, rfl⟩ | ⟨known, declared, _, _, _, _, rfl⟩
  · exact ⟨.inl ⟨fresh, rfl, .inr kind, rfl⟩, Lifecycle.new_in_order Lifecycle.start_in_order time⟩
  · obtain ⟨same, inOrder⟩ := declared_id kept declared
    exact ⟨.inr ⟨known, same.symm ▸ declared, rfl, fun deletion => deletion⟩,
      Lifecycle.new_in_order inOrder time⟩

theorem declare_new_stores {time : Time} (kind : event.kind = .new)
    (done : state.declareNew time event = .ok next) : ∃ clause, Stores state event clause next := by
  obtain ⟨taken, found, after⟩ := (declare_new_ok_iff _ _ _ _).mp done
  obtain ⟨origin, inOrder⟩ := new_clause_origin kept kind found
  split at after
  · obtain ⟨new, _, _, rfl⟩ := (saturate_ok_iff _ _ _ _).mp after
    exact ⟨_,
      { table := rfl
        placeholders := rfl
        origin := origin.imp (fun fresh => ⟨fresh.fresh, fresh.id, fresh.kind, fresh.parents⟩)
          fun ⟨known, continues⟩ =>
            ⟨known, continues.declared, continues.parents, continues.deletion⟩
        life := Lifecycle.active_in_order (Lifecycle.passive_in_order inOrder time new) _ rfl
        counts := Nat.le_succ _
        activation := fun _ => .inl (Nat.lt_succ_self _)
        reduced := .inl rfl }⟩
  · subst after
    obtain ⟨_, _, inactive⟩ := new_clause_stamps _ _ _ found
    exact ⟨taken,
      { table := rfl
        placeholders := rfl
        origin
        life := inOrder
        counts := Nat.le_refl _
        activation := by simp [Clause.isActivated, inactive]
        reduced := .inl rfl }⟩

theorem make_passive_stores {time : Time} (done : state.makePassive time event = .ok next) :
    ∃ clause, Stores state event clause next := by
  obtain ⟨known, declared, _, new, _, inactive, rfl⟩ := (make_passive_ok_iff _ _ _ _).mp done
  obtain ⟨same, inOrder⟩ := declared_id kept declared
  exact ⟨_,
    { table := rfl
      placeholders := rfl
      origin := .inr ⟨known, same.symm ▸ declared, rfl, fun deletion => deletion⟩
      life := Lifecycle.passive_in_order inOrder time new
      counts := Nat.le_refl _
      activation := by simp [Clause.isActivated, inactive]
      reduced := .inl rfl }⟩

theorem activate_stores (done : state.activate event = (next, none)) :
    ∃ clause, Stores state event clause next := by
  obtain ⟨known, declared, passive, _, _, _, rfl⟩ := (activate_none_iff _ _ _).mp done
  obtain ⟨same, inOrder⟩ := declared_id kept declared
  exact ⟨_,
    { table := rfl
      placeholders := rfl
      origin := .inr ⟨known, same.symm ▸ declared, rfl, fun deletion => deletion⟩
      life := Lifecycle.active_in_order inOrder _ passive
      counts := Nat.le_succ _
      activation := fun _ => .inl (Nat.lt_succ_self _)
      reduced := .inl rfl }⟩

theorem reduce_stores {time : Time} (done : state.reduce time event = .ok next) :
    ∃ clause, Stores state event clause next := by
  obtain ⟨known, declared, new, _, rfl⟩ := (reduce_ok_iff _ _ _ _).mp done
  obtain ⟨same, inOrder⟩ := declared_id kept declared
  exact ⟨_,
    { table := rfl
      placeholders := rfl
      origin := .inr ⟨known, same.symm ▸ declared, rfl, fun _ => rfl⟩
      life := Lifecycle.deletion_in_order inOrder time new
      counts := Nat.le_refl _
      activation := fun active => .inr ⟨known, same.symm ▸ declared, active⟩
      reduced := .inr ⟨congrArg some same.symm, rfl⟩ }⟩

theorem add_reduction_parent_stores (done : state.addReductionParent event = .ok next) :
    ∃ clause, Stores state event clause next := by
  obtain ⟨id, reduced, known, here, deletion, rfl⟩ := (add_reduction_parent_ok_iff _ _ _).mp done
  obtain ⟨other, declared, _⟩ := kept.reduced id reduced
  obtain ⟨_, found⟩ := (declared_some_iff _ _ _).mp declared
  obtain rfl : other = known := by rw [← here, found, Option.getD_some]
  obtain ⟨rfl, inOrder⟩ := declared_id kept declared
  exact ⟨_,
    { table := rfl
      placeholders := rfl
      origin := .inr ⟨other, declared, rfl, fun deletion => deletion⟩
      life := Lifecycle.deletion_parents_in_order inOrder deletion _
      counts := Nat.le_refl _
      activation := fun active => .inr ⟨other, declared, active⟩
      reduced := .inl rfl }⟩

theorem apply_stores {time : Time} (done : state.apply time event = (next, none)) :
    ∃ clause, Stores state event clause next := by
  unfold apply at done
  cases kind : event.kind <;> simp only [kind, settle_none_iff] at done
  case preprocessing => exact declare_preprocessing_stores kind done
  case new => exact declare_new_stores kept kind done
  case passive => exact make_passive_stores kept done
  case active => exact activate_stores kept done
  case forwardReduction => exact reduce_stores kept done
  case backwardReduction => exact reduce_stores kept done
  case replacement => exact add_reduction_parent_stores kept done
  case premise => exact add_reduction_parent_stores kept done

end Stored

section Placeholders

theorem declared_add_placeholder (state : Reconstruction) (parent id : ClauseId) :
    (state.addPlaceholder parent).declared? id = state.declared? id := by
  unfold addPlaceholder
  split
  · rfl
  · rename_i unknown
    unfold declared?
    simp only [Std.ExtTreeSet.mem_insert, get_insert, Std.LawfulEqCmp.compare_eq_iff_eq]
    by_cases same : parent = id
    · subst id
      simp [Std.ExtTreeMap.getElem?_eq_none unknown]
    · simp [same]

theorem declared_add_placeholders (state : Reconstruction) (parents : List ClauseId)
    (id : ClauseId) : (parents.foldl addPlaceholder state).declared? id = state.declared? id := by
  induction parents generalizing state with
  | nil => rfl
  | cons parent parents ih => rw [List.foldl_cons, ih, declared_add_placeholder]

theorem kept_add_placeholder {parent : ClauseId} {pending : List ClauseId}
    (kept : Kept (parent :: pending) state) : Kept pending (state.addPlaceholder parent) := by
  -- Placeholders do not count as declared, so the clause reduced last is the one it was.
  have reduced : ∀ id, state.reduced = some id → ∃ clause,
      (state.addPlaceholder parent).declared? id = some clause ∧ clause.life.deletion.isSome := by
    simpa only [declared_add_placeholder] using kept.reduced
  have closed : ∀ other child, IsParent state.table other child →
      (other ∈ state.table ∨ other = parent) ∨ other ∈ pending := fun other child edge => by
    simpa [or_assoc] using kept.closed other child edge
  unfold addPlaceholder at reduced ⊢
  split
  · rename_i known
    refine { kept with closed := fun other child edge => (closed other child edge).imp_left ?_ }
    rintro (mem | rfl)
    · exact mem
    · exact known
  · rename_i unknown
    rw [if_neg unknown] at reduced
    obtain ⟨ids, few, all⟩ := kept.activated
    refine ⟨fun id other here => ?_, fun other child edge => ?_, fun id mem => ?_,
      fun id other here => ?_, reduced, ids, few, fun id other here active => ?_⟩
    · rcases found_of_insert here with ⟨same, rfl⟩ | old
      · exact same
      · exact kept.keyed id other old
    · obtain ⟨clause, here, listed⟩ := edge
      rcases found_of_insert here with ⟨_, rfl⟩ | old
      · cases listed
      · refine (closed other child ⟨clause, old, listed⟩).imp_left fun mem => ?_
        rwa [Std.ExtTreeMap.mem_insert, Std.LawfulEqCmp.compare_eq_iff_eq, or_comm, eq_comm]
    · rw [get_insert]
      rw [Std.ExtTreeSet.mem_insert, Std.LawfulEqCmp.compare_eq_iff_eq] at mem
      split
      · rename_i same
        rw [same]
      · exact kept.placeholders id (mem.resolve_left ‹_›)
    · rcases found_of_insert here with ⟨_, rfl⟩ | old
      · exact Lifecycle.start_in_order
      · exact kept.lives id other old
    · rcases found_of_insert here with ⟨_, rfl⟩ | old
      · cases active
      · exact all id other old active

theorem kept_add_placeholders (parents : List ClauseId) (kept : Kept parents state) :
    Kept [] (parents.foldl addPlaceholder state) := by
  induction parents generalizing state with
  | nil => exact kept
  | cons parent parents ih => exact ih (kept_add_placeholder kept)

end Placeholders

/-! One event, accepted or rejected. -/

theorem apply_rejected {time : Time} {fault : Fault}
    (failed : state.apply time event = (next, some fault)) :
    next = state ∨ next = { state with activations := state.activations + 1 } := by
  unfold apply at failed
  split at failed <;> try exact .inl (settle_keeps _ _ _ _ failed)
  unfold activate at failed
  split at failed
  · exact .inl (Prod.mk.inj failed).1.symm
  · exact .inr (settle_keeps _ _ _ _ failed)

theorem kept_apply_accepted (kept : Kept [] state) {time : Time}
    (done : state.apply time event = (next, none)) :
    Kept [] (if event.kind.declares then event.parents.foldl addPlaceholder next else next) := by
  obtain ⟨clause, stores⟩ := apply_stores kept done
  have stored := kept_stores kept stores
  split
  · rename_i declares
    rw [if_pos declares] at stored
    exact kept_add_placeholders event.parents stored
  · rename_i silent
    rwa [if_neg silent] at stored

/-- Each event leaves a state that keeps what it has to keep, also when it is rejected. -/
theorem kept_record (kept : Kept [] state) (index : Nat) (event : Event) :
    Kept [] (state.record index event).1 := by
  rcases record_cases state index event with
    ⟨_, same⟩ | ⟨_, _, _, failed, same⟩ | ⟨_, _, done, same⟩
  · rw [same]
    exact kept
  · rw [same]
    rcases apply_rejected failed with rfl | rfl
    · exact kept
    · exact kept_counted kept
  · rw [same]
    exact kept_apply_accepted kept done

theorem declared_by_event (kept : Kept [] state) (index : Nat) (event : Event) (id : ClauseId)
    (declared : ((state.record index event).1.declared? id).isSome) :
    (state.declared? id).isSome ∨ event.id = id ∧
      (event.kind = .preprocessing ∨ event.kind = .new) ∧ state.saturated = false ∧
      (state.record index event).2 = none := by
  rcases record_cases state index event with
    ⟨_, same⟩ | ⟨_, _, _, failed, same⟩ | ⟨applied, running, done, same⟩
  · rw [same] at declared
    exact .inl declared
  · rw [same] at declared
    refine .inl ?_
    rcases apply_rejected failed with rfl | rfl
    · exact declared
    · exact declared
  · obtain ⟨clause, stores⟩ := apply_stores kept done
    have placeholders : (if event.kind.declares then event.parents.foldl addPlaceholder applied
        else applied).declared? id = applied.declared? id := by
      split
      · exact declared_add_placeholders _ _ _
      · rfl
    rw [same, placeholders, stores.declared] at declared
    split at declared
    · rename_i here
      rcases stores.origin with fresh | ⟨known, continues⟩
      · exact .inr ⟨fresh.id ▸ here, fresh.kind, running, by rw [same]⟩
      · rw [← here, continues.declared]
        exact .inl rfl
    · exact .inl declared

end Reconstruction
end DerivationReplay
