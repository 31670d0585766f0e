import DerivationReplay.Proofs.Assembly
import DerivationReplay.Reconstruction

/-!
When each operation of the recorder succeeds, and the state that it leaves then. Every success
stores one clause; a declaration also puts placeholders for the parents that are not known yet.
-/
namespace DerivationReplay

def Restates (clause : Clause) (event : Event) : Prop :=
  clause.rule = event.rule ∧ clause.parents = event.parents

namespace Reconstruction
variable (state next : Reconstruction) (event : Event) (time : Time)

theorem stamped_ok_iff (id : ClauseId) (change : Except Lifecycle.Violation Lifecycle)
    (life : Lifecycle) : stamped id change = .ok life ↔ change = .ok life := by
  cases change with
  | error violation => exact iff_of_false nofun nofun
  | ok value =>
    constructor <;> intro done <;> cases done <;> rfl

theorem settle_none_iff (change : Except Fault Reconstruction) :
    state.settle change = (next, none) ↔ change = .ok next := by
  cases change <;> simp [settle]

theorem check_restatement_ok_iff (clause : Clause) (value : Unit) :
    checkRestatement clause event = .ok value ↔ Restates clause event := by
  simp only [checkRestatement, Restates]
  split <;> rename_i rule
  · simp [rule]
  · split <;> rename_i parents <;> simp_all

theorem require_declared_ok_iff (clause : Clause) :
    state.requireDeclared event = .ok clause ↔ state.declared? event.id = some clause := by
  unfold requireDeclared
  cases state.declared? event.id <;> simp

theorem declare_preprocessing_ok_iff : state.declarePreprocessing event = .ok next ↔
    state.declared? event.id = none ∧ next = state.store (declaration event true) := by
  unfold declarePreprocessing
  cases state.declared? event.id <;> simp [eq_comm]

theorem new_clause_ok_iff (clause : Clause) : state.newClause time event = .ok clause ↔
    (state.declared? event.id = none ∧
      clause = { declaration event false with life := { new := some time } }) ∨
    ∃ known, state.declared? event.id = some known ∧ Restates known event ∧
      known.life.new = none ∧ known.life.passive = none ∧ known.life.active = none ∧
      clause = { known with life := { known.life with new := some time } } := by
  unfold newClause
  cases state.declared? event.id with
  | none => simp [eq_comm]
  | some known =>
    simp only [bind_ok_iff, check_restatement_ok_iff, stamped_ok_iff, Lifecycle.set_new_ok_iff,
      pure_ok_iff]
    constructor
    · intro success
      obtain ⟨_, restates, life, ⟨new, passive, active, rfl⟩, rfl⟩ := success
      exact .inr ⟨known, rfl, restates, new, passive, active, rfl⟩
    · intro needs
      rcases needs with ⟨none, _⟩ | ⟨_, same, restates, new, passive, active, rfl⟩
      · cases none
      · cases same
        exact ⟨(), restates, _, ⟨new, passive, active, rfl⟩, rfl⟩

theorem new_clause_stamps {clause : Clause} (found : state.newClause time event = .ok clause) :
    clause.life.new.isSome ∧ clause.life.passive = none ∧ clause.life.active = none := by
  rcases (state.new_clause_ok_iff event time clause).mp found with
    ⟨_, rfl⟩ | ⟨known, _, _, _, passive, active, rfl⟩
  · exact ⟨rfl, rfl, rfl⟩
  · exact ⟨rfl, passive, active⟩

theorem saturate_ok_iff (clause : Clause) : state.saturate time clause = .ok next ↔
    clause.life.new.isSome ∧ clause.life.passive = none ∧ clause.life.active = none ∧
      next = { state.store { clause with life := { clause.life with
          passive := some time
          active := some (.ofNat (state.activations + 1)) } }
        with activations := state.activations + 1, saturated := true } := by
  simp only [saturate, bind_ok_iff, stamped_ok_iff, Lifecycle.set_passive_ok_iff,
    Lifecycle.set_active_ok_iff, pure_ok_iff]
  constructor
  · intro success
    obtain ⟨_, ⟨new, passive, active, rfl⟩, _, ⟨_, _, _, rfl⟩, rfl⟩ := success
    exact ⟨new, passive, active, rfl⟩
  · intro needs
    obtain ⟨new, passive, active, rfl⟩ := needs
    exact ⟨_, ⟨new, passive, active, rfl⟩, _, ⟨new, rfl, active, rfl⟩, rfl⟩

theorem declare_new_ok_iff : state.declareNew time event = .ok next ↔
    ∃ clause, state.newClause time event = .ok clause ∧
      if event.clause = state.options.emptyClause then state.saturate time clause = .ok next
      else next = state.store clause := by
  simp only [declareNew, bind_ok_iff]
  refine exists_congr fun clause => and_congr_right fun _ => ?_
  split
  · rfl
  · simp [pure, Except.pure, eq_comm]

theorem make_passive_ok_iff : state.makePassive time event = .ok next ↔
    ∃ clause, state.declared? event.id = some clause ∧ Restates clause event ∧
      clause.life.new.isSome ∧ clause.life.passive = none ∧ clause.life.active = none ∧
      next = state.store { clause with life := { clause.life with passive := some time } } := by
  simp only [makePassive, bind_ok_iff, require_declared_ok_iff, check_restatement_ok_iff,
    stamped_ok_iff, Lifecycle.set_passive_ok_iff, pure_ok_iff]
  constructor
  · intro success
    obtain ⟨clause, found, _, restates, _, ⟨new, passive, active, rfl⟩, rfl⟩ := success
    exact ⟨clause, found, restates, new, passive, active, rfl⟩
  · intro needs
    obtain ⟨clause, found, restates, new, passive, active, rfl⟩ := needs
    exact ⟨clause, found, (), restates, _, ⟨new, passive, active, rfl⟩, rfl⟩

theorem require_passive_ok_iff (clause : Clause) : state.requirePassive event = .ok clause ↔
    state.declared? event.id = some clause ∧ clause.life.passive.isSome ∧
      Restates clause event := by
  simp only [requirePassive, bind_ok_iff, require_declared_ok_iff]
  constructor
  · intro success
    obtain ⟨known, found, passed⟩ := success
    split at passed
    · cases passed
    · rename_i passive
      simp only [bind_ok_iff, check_restatement_ok_iff, pure_ok_iff] at passed
      obtain ⟨_, restates, rfl⟩ := passed
      exact ⟨found, by simpa [Option.isSome_iff_ne_none] using passive, restates⟩
  · intro needs
    obtain ⟨found, passive, restates⟩ := needs
    refine ⟨clause, found, ?_⟩
    rw [if_neg (by simpa [Option.isSome_iff_ne_none] using passive)]
    simp only [bind_ok_iff, check_restatement_ok_iff, pure_ok_iff]
    exact ⟨(), restates, trivial⟩

theorem activate_none_iff : state.activate event = (next, none) ↔
    ∃ clause, state.declared? event.id = some clause ∧ clause.life.passive.isSome ∧
      Restates clause event ∧ clause.life.new.isSome ∧ clause.life.active = none ∧
      next = { state.store { clause with
          text := event.clause
          statistics := event.statistics
          life := { clause.life with active := some (.ofNat (state.activations + 1)) } }
        with activations := state.activations + 1 } := by
  unfold activate
  cases passed : state.requirePassive event with
  | error fault =>
    have failed : ∀ clause, state.requirePassive event ≠ .ok clause := by simp [passed]
    simp only [ne_eq, require_passive_ok_iff] at failed
    simp only [Prod.mk.injEq, reduceCtorEq, and_false, false_iff]
    rintro ⟨clause, found, passive, restates, _⟩
    exact failed clause ⟨found, passive, restates⟩
  | ok clause =>
    obtain ⟨found, passive, restates⟩ := (state.require_passive_ok_iff event clause).mp passed
    simp only [settle_none_iff, makeActive, bind_ok_iff, stamped_ok_iff,
      Lifecycle.set_active_ok_iff, pure_ok_iff]
    constructor
    · intro success
      obtain ⟨_, ⟨new, _, active, rfl⟩, rfl⟩ := success
      exact ⟨clause, found, passive, restates, new, active, rfl⟩
    · intro needs
      obtain ⟨known, same, _, _, new, active, rfl⟩ := needs
      cases found.symm.trans same
      exact ⟨_, ⟨new, passive, active, rfl⟩, rfl⟩

theorem reduce_ok_iff : state.reduce time event = .ok next ↔
    ∃ clause, state.declared? event.id = some clause ∧ clause.life.new.isSome ∧
      clause.life.deletion = none ∧
      next = { state.store { clause with life :=
          { clause.life with deletion := some time, deletionParents := [] } }
        with reduced := some event.id } := by
  simp only [reduce, bind_ok_iff, require_declared_ok_iff, stamped_ok_iff,
    Lifecycle.set_deletion_ok_iff, pure_ok_iff]
  constructor
  · intro success
    obtain ⟨clause, found, _, ⟨new, deletion, rfl⟩, rfl⟩ := success
    exact ⟨clause, found, new, deletion, rfl⟩
  · intro needs
    obtain ⟨clause, found, new, deletion, rfl⟩ := needs
    exact ⟨clause, found, _, ⟨new, deletion, rfl⟩, rfl⟩

theorem add_reduction_parent_ok_iff : state.addReductionParent event = .ok next ↔
    ∃ id, state.reduced = some id ∧ ∃ clause, (state.table[id]?).getD (.placeholder id) = clause ∧
      clause.life.deletion.isSome ∧ next = state.store { clause with life :=
        { clause.life with deletionParents := clause.life.deletionParents ++ [event.id] } } := by
  unfold addReductionParent
  cases state.reduced with
  | none => simp
  | some id =>
    simp only [bind_ok_iff, stamped_ok_iff, Lifecycle.add_deletion_parent_ok_iff, pure_ok_iff,
      Option.some.injEq]
    constructor
    · intro success
      obtain ⟨_, ⟨deletion, rfl⟩, rfl⟩ := success
      exact ⟨id, rfl, _, rfl, deletion, rfl⟩
    · intro needs
      obtain ⟨_, rfl, _, rfl, deletion, rfl⟩ := needs
      exact ⟨_, ⟨deletion, rfl⟩, rfl⟩

section Record
variable {state next event}

/-- All that recording can do. Behind the refutation, events are ignored. -/
theorem record_cases (state : Reconstruction) (index : Nat) (event : Event) :
    (state.saturated = true ∧ state.record index event = (state, none)) ∨
    (∃ next fault, state.saturated = false ∧
      state.apply (.ofNat index) event = (next, some fault) ∧
      state.record index event = (next, some ⟨index, fault⟩)) ∨
    ∃ applied, state.saturated = false ∧ state.apply (.ofNat index) event = (applied, none) ∧
      state.record index event = (if event.kind.declares then
        event.parents.foldl addPlaceholder applied else applied, none) := by
  cases running : state.saturated with
  | true => exact .inl ⟨rfl, by rw [record, if_pos running]⟩
  | false =>
    have recorded : state.record index event = _ := if_neg (by simp [running])
    cases outcome : state.apply (.ofNat index) event with
    | mk next fault =>
      rw [outcome] at recorded
      cases fault with
      | some fault => exact .inr (.inl ⟨next, fault, rfl, rfl, recorded⟩)
      | none => exact .inr (.inr ⟨next, rfl, rfl, recorded⟩)

theorem record_rejected {index : Nat} {rejection : Rejection}
    (failed : state.record index event = (next, some rejection)) : rejection.index = index ∧
      state.apply (.ofNat index) event = (next, some rejection.fault) := by
  rcases record_cases state index event with
    ⟨_, same⟩ | ⟨_, fault, _, applied, same⟩ | ⟨_, _, _, same⟩
  · simp [same] at failed
  · rw [same] at failed
    cases failed
    exact ⟨rfl, applied⟩
  · simp [same] at failed

theorem record_none_iff (index : Nat) (unsaturated : state.saturated = false) :
    state.record index event = (next, none) ↔
      ∃ applied, state.apply (.ofNat index) event = (applied, none) ∧
        next = if event.kind.declares then event.parents.foldl addPlaceholder applied
          else applied := by
  rcases record_cases state index event with
    ⟨saturated, _⟩ | ⟨_, fault, _, applied, same⟩ | ⟨applied, _, apply, same⟩
  · simp [saturated] at unsaturated
  · simp [same, applied]
  · rw [same, apply]
    simp only [Prod.mk.injEq, and_true, exists_eq_left']
    exact eq_comm

end Record

end Reconstruction
end DerivationReplay
