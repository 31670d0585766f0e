import DerivationReplay.Proofs.Effects

/-!
Runs that go on after a rejection. The state keeps its shape through all of them, so that most
violations of a lifecycle cannot be met. A rejection leaves the state as it was, except that of an
attempt to activate a clause again, which uses up a step.
-/
namespace DerivationReplay

namespace Lifecycle
variable {life : Lifecycle} {violation : Violation}

/-- The violations that an event of the kind can meet. -/
inductive Met : EventKind → Violation → Prop
  | newTwice : Met .new (.alreadySet .new)
  | passiveBeforeNew : Met .passive (.missingPrerequisite .passive .new)
  | passiveTwice : Met .passive (.alreadySet .passive)
  | activeTwice : Met .active (.alreadySet .active)
  | deletedBeforeNew {kind : EventKind} (reduces : kind.reduces) :
      Met kind (.missingPrerequisite .deletion .new)
  | deletedTwice {kind : EventKind} (reduces : kind.reduces) : Met kind (.alreadySet .deletion)

theorem new_fault (inOrder : life.InOrder) {time : Time}
    (failed : life.setNew time = .error violation) : Met .new violation := by
  have passive := inOrder.passive
  have active := inOrder.active
  unfold setNew at failed
  split at failed
  · cases failed
    exact .newTwice
  · rw [if_neg fun set => ‹¬_› (passive set),
      if_neg fun set => ‹¬_› (passive (active set))] at failed
    cases failed

theorem passive_fault (inOrder : life.InOrder) {time : Time}
    (failed : life.setPassive time = .error violation) : Met .passive violation := by
  have active := inOrder.active
  unfold setPassive at failed
  split at failed
  · cases failed
    exact .passiveBeforeNew
  · split at failed
    · cases failed
      exact .passiveTwice
    · rw [if_neg fun set => ‹¬_› (active set)] at failed
      cases failed

theorem active_error_iff (inOrder : life.InOrder) (passive : life.passive.isSome) (step : Time) :
    life.setActive step = .error violation ↔
      life.active.isSome ∧ violation = .alreadySet .active := by
  have new := inOrder.passive passive
  rw [Option.isSome_iff_ne_none] at new passive
  rw [setActive, if_neg (by simpa using new), if_neg (by simpa using passive)]
  split
  · rename_i active
    rw [Except.error.injEq, eq_comm]
    exact ⟨fun same => ⟨active, same⟩, And.right⟩
  · rename_i inactive
    exact iff_of_false (by simp) fun again => inactive again.1

theorem deletion_fault {kind : EventKind} (reduces : kind.reduces) {time : Time}
    (failed : life.setDeletion time = .error violation) : Met kind violation := by
  unfold setDeletion at failed
  split at failed
  · cases failed
    exact .deletedBeforeNew reduces
  · split at failed <;> cases failed
    exact .deletedTwice reduces

theorem deletion_parent_added (deletion : life.deletion.isSome) (parent : ClauseId) :
    life.addDeletionParent parent ≠ .error violation := by
  rw [Option.isSome_iff_ne_none] at deletion
  rw [addDeletionParent, if_neg (by simpa using deletion)]
  simp

end Lifecycle

namespace Reconstruction
variable {state next : Reconstruction} {event : Event} {time : Time}

theorem bind_error_iff {ε α β : Type} (change : Except ε α) (after : α → Except ε β) (fault : ε) :
    (change >>= after) = .error fault ↔
      change = .error fault ∨ ∃ value, change = .ok value ∧ after value = .error fault := by
  cases change <;> simp [bind, Except.bind]

theorem stamped_error_iff (id : ClauseId) (set : Except Lifecycle.Violation Lifecycle)
    (fault : Fault) : stamped id set = .error fault ↔
      ∃ violation, set = .error violation ∧ fault = .lifecycle id violation := by
  cases set with
  | ok life => exact iff_of_false nofun nofun
  | error violation => simp [stamped, Except.mapError, eq_comm]

theorem stamping_error_iff {α : Type} (id : ClauseId) (set : Except Lifecycle.Violation Lifecycle)
    (after : Lifecycle → α) (fault : Fault) :
    (stamped id set >>= fun life => pure (after life)) = .error fault ↔
      ∃ violation, set = .error violation ∧ fault = .lifecycle id violation := by
  rw [bind_error_iff, stamped_error_iff]
  exact or_iff_left fun ⟨_, _, failed⟩ => nomatch failed

theorem settle_some_iff {fault : Fault} (change : Except Fault Reconstruction) :
    state.settle change = (next, some fault) ↔ change = .error fault ∧ next = state := by
  cases change <;> simp [settle, and_comm, eq_comm]

/-- The fault is no violation of a lifecycle, or one that the event can meet. -/
def Fault.Ordinary (event : Event) : Fault → Prop
  | .lifecycle id violation => id = event.id ∧ Lifecycle.Met event.kind violation
  | _ => True

def Fault.Early (fault : Fault) : Prop := ∀ id violation, fault ≠ .lifecycle id violation

theorem Fault.Early.ordinary {fault : Fault} (early : fault.Early) : fault.Ordinary event := by
  cases fault with
  | lifecycle id violation => exact absurd rfl (early id violation)
  | _ => trivial

theorem restatement_early {clause : Clause} {fault : Fault}
    (failed : checkRestatement clause event = .error fault) : fault.Early := by
  unfold checkRestatement at failed
  split at failed
  · cases failed
    exact nofun
  · split at failed <;> cases failed
    exact nofun

theorem require_declared_early {fault : Fault}
    (failed : state.requireDeclared event = .error fault) : fault.Early := by
  unfold requireDeclared at failed
  split at failed <;> cases failed
  exact nofun

theorem require_passive_early {fault : Fault}
    (failed : state.requirePassive event = .error fault) : fault.Early := by
  rcases (bind_error_iff _ _ _).mp failed with failed | ⟨clause, _, failed⟩
  · exact require_declared_early failed
  · split at failed
    · cases failed
      exact nofun
    · rcases (bind_error_iff _ _ _).mp failed with failed | ⟨_, _, failed⟩
      · exact restatement_early failed
      · cases failed

/-! The faults of the operations, one by one. -/

section Faults
variable {fault : Fault}

theorem declare_preprocessing_ordinary
    (failed : state.declarePreprocessing event = .error fault) : fault.Ordinary event := by
  unfold declarePreprocessing at failed
  split at failed <;> cases failed
  trivial

theorem saturate_succeeds {clause : Clause} (new : clause.life.new.isSome)
    (passive : clause.life.passive = none) (active : clause.life.active = none) :
    state.saturate time clause ≠ .error fault := by
  rw [(saturate_ok_iff state _ time clause).mpr ⟨new, passive, active, rfl⟩]
  exact nofun

variable (kept : Kept [] state)
include kept

theorem new_clause_ordinary (kind : event.kind = .new)
    (failed : state.newClause time event = .error fault) : fault.Ordinary event := by
  unfold newClause at failed
  split at failed
  · obtain ⟨_, inOrder⟩ := declared_id kept ‹_›
    rcases (bind_error_iff _ _ _).mp failed with failed | ⟨_, _, failed⟩
    · exact (restatement_early failed).ordinary
    · obtain ⟨violation, stamp, rfl⟩ := (stamping_error_iff _ _ _ _).mp failed
      exact ⟨rfl, kind ▸ Lifecycle.new_fault inOrder stamp⟩
  · cases failed

theorem declare_new_ordinary (kind : event.kind = .new)
    (failed : state.declareNew time event = .error fault) : fault.Ordinary event := by
  rcases (bind_error_iff _ _ _).mp failed with failed | ⟨clause, found, failed⟩
  · exact new_clause_ordinary kept kind failed
  · obtain ⟨new, passive, active⟩ := new_clause_stamps _ _ _ found
    split at failed
    · exact absurd failed (saturate_succeeds new passive active)
    · cases failed

theorem make_passive_ordinary (kind : event.kind = .passive)
    (failed : state.makePassive time event = .error fault) : fault.Ordinary event := by
  rcases (bind_error_iff _ _ _).mp failed with failed | ⟨clause, required, failed⟩
  · exact (require_declared_early failed).ordinary
  · obtain ⟨_, inOrder⟩ := declared_id kept ((require_declared_ok_iff _ _ _).mp required)
    rcases (bind_error_iff _ _ _).mp failed with failed | ⟨_, _, failed⟩
    · exact (restatement_early failed).ordinary
    · obtain ⟨violation, stamp, rfl⟩ := (stamping_error_iff _ _ _ _).mp failed
      exact ⟨rfl, kind ▸ Lifecycle.passive_fault inOrder stamp⟩

omit kept in
theorem reduce_ordinary (reduces : event.kind.reduces)
    (failed : state.reduce time event = .error fault) : fault.Ordinary event := by
  rcases (bind_error_iff _ _ _).mp failed with failed | ⟨clause, _, failed⟩
  · exact (require_declared_early failed).ordinary
  · obtain ⟨violation, stamp, rfl⟩ := (stamping_error_iff _ _ _ _).mp failed
    exact ⟨rfl, Lifecycle.deletion_fault reduces stamp⟩

theorem add_reduction_parent_ordinary
    (failed : state.addReductionParent event = .error fault) : fault.Ordinary event := by
  unfold addReductionParent at failed
  split at failed
  · cases failed
    trivial
  · rename_i id reduced
    obtain ⟨clause, declared, deletion⟩ := kept.reduced id reduced
    obtain ⟨_, found⟩ := (declared_some_iff _ _ _).mp declared
    rw [found] at failed
    obtain ⟨violation, failed, _⟩ := (stamping_error_iff _ _ _ _).mp failed
    exact absurd failed (Lifecycle.deletion_parent_added deletion event.id)

omit kept in
theorem make_active_error_iff {clause : Clause} (inOrder : clause.life.InOrder)
    (passive : clause.life.passive.isSome) (counted : Reconstruction) :
    counted.makeActive event clause = .error fault ↔
      clause.isActivated ∧ fault = .lifecycle event.id (.alreadySet .active) := by
  rw [makeActive, stamping_error_iff]
  simp only [Lifecycle.active_error_iff inOrder passive, and_assoc, exists_and_left,
    exists_eq_left, Clause.isActivated]

/-- The event would activate a clause that is active already. -/
def ActivatesAgain (state : Reconstruction) (event : Event) : Prop :=
  event.kind = .active ∧ ∃ clause, state.declared? event.id = some clause ∧
    clause.isActivated ∧ Restates clause event

theorem apply_again (again : state.ActivatesAgain event) : state.apply time event =
    ({ state with activations := state.activations + 1 },
      some (.lifecycle event.id (.alreadySet .active))) := by
  obtain ⟨kind, clause, declared, active, restates⟩ := again
  obtain ⟨_, inOrder⟩ := declared_id kept declared
  have passive := inOrder.active active
  have required := (require_passive_ok_iff state event clause).mpr ⟨declared, passive, restates⟩
  simp only [apply, kind, activate, required]
  exact (settle_some_iff _).mpr ⟨(make_active_error_iff inOrder passive _).mpr ⟨active, rfl⟩, rfl⟩

theorem activate_rejected (kind : event.kind = .active)
    (failed : state.activate event = (next, some fault)) :
    fault.Early ∧ next = state ∨ state.ActivatesAgain event := by
  unfold activate at failed
  split at failed
  · cases failed
    exact .inl ⟨require_passive_early ‹_›, rfl⟩
  · rename_i clause required
    obtain ⟨declared, passive, restates⟩ := (require_passive_ok_iff _ _ _).mp required
    obtain ⟨_, inOrder⟩ := declared_id kept declared
    obtain ⟨failed, _⟩ := (settle_some_iff _).mp failed
    obtain ⟨active, _⟩ := (make_active_error_iff inOrder passive _).mp failed
    exact .inr ⟨kind, clause, declared, active, restates⟩

theorem apply_ordinary (failed : state.apply time event = (next, some fault)) :
    fault.Ordinary event := by
  -- Only an attempt to activate a clause again meets a stamp that is set.
  by_cases again : state.ActivatesAgain event
  · rw [apply_again kept again] at failed
    cases failed
    exact ⟨rfl, again.1 ▸ .activeTwice⟩
  · unfold apply at failed
    split at failed <;> rename_i kind <;> try rw [settle_some_iff] at failed
    · exact declare_preprocessing_ordinary failed.1
    · exact declare_new_ordinary kept kind failed.1
    · exact make_passive_ordinary kept kind failed.1
    · exact ((activate_rejected kept kind failed).resolve_right again).1.ordinary
    · exact reduce_ordinary (by rw [kind]; rfl) failed.1
    · exact reduce_ordinary (by rw [kind]; rfl) failed.1
    · exact add_reduction_parent_ordinary kept failed.1
    · exact add_reduction_parent_ordinary kept failed.1

theorem apply_keeps (failed : state.apply time event = (next, some fault))
    (first : ¬ state.ActivatesAgain event) : next = state := by
  unfold apply at failed
  split at failed <;> try exact settle_keeps _ _ _ _ failed
  exact ((activate_rejected kept ‹_› failed).resolve_right first).2

end Faults

/-! Runs. -/

/-- The state after the calls, of which any may have been rejected. -/
def recordEach (state : Reconstruction) (calls : List (Nat × Event)) : Reconstruction :=
  calls.foldl (fun state call => (state.record call.1 call.2).1) state

theorem kept_run (options : Options) (calls : List (Nat × Event)) :
    Kept [] (recordEach { options } calls) := by
  induction calls using List.reverseRecOn with
  | nil => exact kept_start options
  | append_singleton calls call ih =>
    rw [recordEach, List.foldl_append]
    exact kept_record ih call.1 call.2

/-- What holds of the state whatever has been recorded or rejected. -/
structure Sound (state : Reconstruction) : Prop where
  keyed : Keyed state.table
  closed : Closed state.table
  placeholders : ∀ id ∈ state.placeholders, state.table[id]? = some (.placeholder id)
  lives : ∀ (id : ClauseId) clause, state.table[id]? = some clause → clause.life.InOrder
  reduced : ∀ id, state.reduced = some id →
    ∃ clause, state.declared? id = some clause ∧ clause.life.deletion.isSome
  activated : (state.table.values.filter Clause.isActivated).length ≤ state.activations

theorem kept_sound (kept : Kept [] state) : state.Sound where
  keyed := kept.keyed
  closed _ _ := parent_in_table kept
  placeholders := kept.placeholders
  lives := kept.lives
  reduced := kept.reduced
  activated := by
    obtain ⟨ids, few, all⟩ := kept.activated
    let active := (state.table.values.filter Clause.isActivated).map Clause.id
    have distinct : active.Nodup :=
      (ids_nodup kept.keyed).sublist (List.filter_sublist.map Clause.id)
    have listed : active ⊆ ids := by
      intro id mem
      obtain ⟨clause, inside, rfl⟩ := List.mem_map.mp mem
      obtain ⟨stored, active⟩ := List.mem_filter.mp inside
      obtain ⟨id, found⟩ := (mem_values _ _).mp stored
      obtain rfl := kept.keyed id clause found
      exact all clause.id clause found active
    calc (state.table.values.filter Clause.isActivated).length
        = active.length := (List.length_map _).symm
      _ ≤ ids.length := (List.subperm_of_subset distinct listed).length_le
      _ ≤ state.activations := few

theorem declared_in_run (options : Options) (calls : List (Nat × Event)) (id : ClauseId)
    (declared : ((recordEach { options } calls).declared? id).isSome) :
    ∃ earlier index event later, calls = earlier ++ (index, event) :: later ∧ event.id = id ∧
      (event.kind = .preprocessing ∨ event.kind = .new) ∧
      (recordEach { options } earlier).saturated = false ∧
      ((recordEach { options } earlier).record index event).2 = none := by
  induction calls using List.reverseRecOn with
  | nil => simp [recordEach, declared?] at declared
  | append_singleton calls call ih =>
    rw [recordEach, List.foldl_append] at declared
    rcases declared_by_event (kept_run options calls) call.1 call.2 id declared with
      before | ⟨same, kind, running, accepted⟩
    · obtain ⟨earlier, index, event, later, rfl, rest⟩ := ih before
      exact ⟨earlier, index, event, later ++ [call], by simp, rest⟩
    · exact ⟨calls, call.1, call.2, [], rfl, same, kind, running, accepted⟩

/-- Whatever has been recorded or rejected before, the state is sound, the declared clauses come
from declarations, and no event meets a stamp that is out of order or a clause to fill in. -/
theorem tolerant_run (options : Options) (calls : List (Nat × Event)) :
    let state := recordEach { options } calls
    state.Sound ∧
    (∀ id ∈ state.table, id ∉ state.placeholders →
      ∃ earlier index event later, calls = earlier ++ (index, event) :: later ∧ event.id = id ∧
        (event.kind = .preprocessing ∨ event.kind = .new) ∧
        (recordEach { options } earlier).saturated = false ∧
        ((recordEach { options } earlier).record index event).2 = none) ∧
    ∀ index event,
      (∀ place id violation,
        (state.record index event).2 = some ⟨place, .lifecycle id violation⟩ →
          (∀ stamp later, violation ≠ .afterLaterStamp stamp later) ∧ violation ≠ .notDeleted ∧
          ∀ requires, violation ≠ .missingPrerequisite .active requires) ∧
      state.recordInPlace index event =
        ({ state := (state.record index event).1 }, (state.record index event).2) := by
  intro state
  have kept : Kept [] state := kept_run options calls
  refine ⟨kept_sound kept, fun id mem apart => ?_, fun index event =>
    ⟨fun place id violation failed => ?_, record_in_place kept index event⟩⟩
  · obtain ⟨clause, found⟩ := (mem_table_iff _ _).mp mem
    have declared := (declared_some_iff state id clause).mpr ⟨apart, found⟩
    exact declared_in_run options calls id (Option.isSome_of_eq_some declared)
  · obtain ⟨_, applied⟩ := record_rejected (Prod.ext rfl failed)
    obtain ⟨_, met⟩ := apply_ordinary kept applied
    generalize event.kind = kind at met
    cases met <;> simp

def disorderlyRun : List (Nat × Event) :=
  [(4, ⟨.new, 2, "q", "resolution", [1], ∅⟩), (4, ⟨.active, 2, "q", "resolution", [1], ∅⟩),
    (0, ⟨.passive, 2, "q", "resolution", [1], ∅⟩), (5, ⟨.active, 2, "q", "resolution", [1], ∅⟩),
    (5, ⟨.active, 2, "q", "resolution", [1], ∅⟩), (3, ⟨.forwardReduction, 2, "q", "", [], ∅⟩),
    (3, ⟨.premise, 7, "r", "", [], ∅⟩), (9, ⟨.passive, 1, "p", "input", [], ∅⟩)]

theorem disorderly_run_sound :
    let state := recordEach { options := {} } disorderlyRun
    state.Sound ∧ state.activations = 2 ∧ state.reduced = some 2 ∧ 1 ∈ state.placeholders ∧
    7 ∉ state.table :=
  ⟨(tolerant_run {} disorderlyRun).1, rfl, rfl, by decide, by decide⟩

/-- A rejected event leaves the state as it was, except for an attempt to activate a clause again:
that one is always rejected, and the activation is counted all the same. -/
theorem rejection_keeps_state (options : Options) (calls : List (Nat × Event)) (index : Nat)
    (event : Event) :
    let state := recordEach { options } calls
    state.recordInPlace index event =
      ({ state := (state.record index event).1 }, (state.record index event).2) ∧
    (state.saturated = false → state.ActivatesAgain event → state.record index event =
      ({ state with activations := state.activations + 1 },
        some ⟨index, .lifecycle event.id (.alreadySet .active)⟩)) ∧
    ∀ next rejection, state.record index event = (next, some rejection) →
      ¬ state.ActivatesAgain event → next = state := by
  intro state
  have kept : Kept [] state := kept_run options calls
  refine ⟨record_in_place kept index event, fun running again => ?_,
    fun next rejection failed first => ?_⟩
  · rw [record, if_neg (by simp [running]), apply_again kept again]
  · obtain ⟨_, applied⟩ := record_rejected failed
    exact apply_keeps kept applied first

def activeRun : List (Nat × Event) :=
  [(0, ⟨.new, 1, "p", "input", [], ∅⟩), (1, ⟨.passive, 1, "p", "input", [], ∅⟩),
    (2, ⟨.active, 1, "p", "input", [], ∅⟩)]

def activeAgain : Event := ⟨.active, 1, "p", "input", [], ∅⟩

theorem active_run_activates_again :
    (recordEach { options := {} } activeRun).ActivatesAgain activeAgain :=
  ⟨rfl, _, rfl, rfl, rfl, rfl⟩

theorem active_run_rejections :
    let state := recordEach { options := {} } activeRun
    state.activations = 1 ∧
    (∃ rejection, state.record 3 activeAgain =
      ({ state with activations := 2 }, some rejection)) ∧
    ∃ rejection, state.record 3 { activeAgain with kind := .passive } =
      (state, some rejection) := by
  intro state
  obtain ⟨_, counted, _⟩ := rejection_keeps_state {} activeRun 3 activeAgain
  obtain ⟨_, _, kept⟩ := rejection_keeps_state {} activeRun 3 { activeAgain with kind := .passive }
  obtain ⟨next, rejection, rejected⟩ : ∃ next rejection,
      state.record 3 { activeAgain with kind := .passive } = (next, some rejection) := ⟨_, _, rfl⟩
  obtain rfl := kept next rejection rejected nofun
  exact ⟨rfl, ⟨_, counted rfl active_run_activates_again⟩, rejection, rejected⟩

theorem rejection_changes_state : ¬ ∀ (options : Options) (calls : List (Nat × Event))
    (index : Nat) (event : Event) next rejection,
      (recordEach { options } calls).record index event = (next, some rejection) →
        next = recordEach { options } calls := by
  intro claim
  have same := congrArg activations (claim {} activeRun 3 activeAgain _ _ rfl)
  revert same
  decide

end Reconstruction
end DerivationReplay
