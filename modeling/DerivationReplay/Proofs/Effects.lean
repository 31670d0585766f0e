import DerivationReplay.Proofs.Integrity

/-!
Recording in place. The changes that an event makes are made one after the other, each on the table
as it stands, and what has been changed stays changed when a later check fails; a clause that is to
be stamped but missing is filled in. For a state that the recorder can be in, this comes to what the
recorder does at once, and nothing is ever filled in.
-/
namespace DerivationReplay
namespace Reconstruction

/-- The state while an event is recorded, and the clauses that had to be filled in. -/
structure Draft where
  state : Reconstruction
  filled : List ClauseId := []

/-- Changes of the draft. The fault of one leaves the draft as the earlier ones made it. -/
abbrev Edit := EStateM Fault Draft

namespace Edit

def look {α : Type} (test : Reconstruction → Except Fault α) : Edit α := fun draft =>
  match test draft.state with
  | .ok value => .ok value draft
  | .error fault => .error fault draft

def change (update : Reconstruction → Reconstruction) : Edit Unit := fun draft =>
  .ok () { draft with state := update draft.state }

def put (id : ClauseId) (clause : Clause) : Edit Unit :=
  change fun state => { state with table := state.table.insert id clause }

/-- The clause as it stands in the table. A missing one is filled in by a placeholder. -/
def entry (id : ClauseId) : Edit Clause := fun draft =>
  match draft.state.table[id]? with
  | some clause => .ok clause draft
  | none => .ok (.placeholder id)
      { state := { draft.state with table := draft.state.table.insert id (.placeholder id) }
        filled := id :: draft.filled }

def stamp (id : ClauseId) (set : Lifecycle → Except Lifecycle.Violation Lifecycle) :
    Edit Unit := do
  let clause ← entry id
  let life ← look fun _ => stamped id (set clause.life)
  put id { clause with life }

def retell (id : ClauseId) (text : String) (statistics : Statistics) : Edit Unit := do
  let clause ← entry id
  put id { clause with text, statistics }

def count : Edit Time := do
  change fun state => { state with activations := state.activations + 1 }
  look fun state => .ok (.ofNat state.activations)

def declare (event : Event) (fromPreprocessing : Bool) : Edit Unit := do
  change fun state => { state with placeholders := state.placeholders.erase event.id }
  put event.id (declaration event fromPreprocessing)

end Edit

open Edit

def editPreprocessing (event : Event) : Edit Unit := do
  look fun state => if (state.declared? event.id).isSome then .error (.declaredTwice event.id)
    else .ok ()
  declare event true

def editNewClause (time : Time) (event : Event) : Edit Unit := do
  match ← look fun state => .ok (state.declared? event.id) with
  | some clause => look fun _ => checkRestatement clause event
  | none => declare event false
  stamp event.id (·.setNew time)

def editSaturation (time : Time) (id : ClauseId) : Edit Unit := do
  let step ← count
  stamp id (·.setPassive time)
  stamp id (·.setActive step)
  change fun state => { state with saturated := true }

def editNew (time : Time) (event : Event) : Edit Unit := do
  editNewClause time event
  let empty ← look fun state => .ok state.options.emptyClause
  if event.clause = empty then editSaturation time event.id

def editPassive (time : Time) (event : Event) : Edit Unit := do
  let clause ← look (·.requireDeclared event)
  look fun _ => checkRestatement clause event
  stamp event.id (·.setPassive time)

def editActive (event : Event) : Edit Unit := do
  let _ ← look (·.requirePassive event)
  let step ← count
  stamp event.id (·.setActive step)
  retell event.id event.clause event.statistics

def editReduced (time : Time) (event : Event) : Edit Unit := do
  let _ ← look (·.requireDeclared event)
  stamp event.id (·.setDeletion time)
  change fun state => { state with reduced := some event.id }

def editReductionParent (event : Event) : Edit Unit := do
  match ← look fun state => .ok state.reduced with
  | none => throw (.noReduction event.id event.kind)
  | some id => stamp id (·.addDeletionParent event.id)

def edit (time : Time) (event : Event) : Edit Unit :=
  match event.kind with
  | .preprocessing => editPreprocessing event
  | .new => editNew time event
  | .passive => editPassive time event
  | .active => editActive event
  | .forwardReduction | .backwardReduction => editReduced time event
  | .replacement | .premise => editReductionParent event

/-- Records the event one change at a time. -/
def recordInPlace (state : Reconstruction) (index : Nat) (event : Event) :
    Draft × Option Rejection :=
  if state.saturated then ({ state }, none)
  else
    let edits : Edit Unit := do
      edit (.ofNat index) event
      if event.kind.declares then change (event.parents.foldl addPlaceholder ·)
    match edits.run { state } with
    | .ok _ draft => (draft, none)
    | .error fault draft => (draft, some ⟨index, fault⟩)

section Steps
variable {α : Type} (draft : Draft)

theorem bind_edit {β : Type} (first : Edit α) (after : α → Edit β) :
    (first >>= after).run draft = match first.run draft with
      | .ok value draft => (after value).run draft
      | .error fault draft => .error fault draft := by
  simp only [bind, EStateM.bind, EStateM.run]
  cases first draft <;> rfl

theorem bind_ran {β : Type} {first : Edit α} {value : α} {draft next : Draft}
    (ran : first.run draft = .ok value next) (after : α → Edit β) :
    (first >>= after).run draft = (after value).run next := by
  rw [bind_edit, ran]

theorem look_bind (test : Reconstruction → Except Fault α) (after : α → Edit Unit) :
    (look test >>= after).run draft = match test draft.state with
      | .ok value => (after value).run draft
      | .error fault => .error fault draft := by
  rw [bind_edit]
  change (match look test draft with
    | .ok value draft => (after value).run draft
    | .error fault draft => .error fault draft) = _
  unfold look
  cases test draft.state <;> rfl

theorem count_bind (after : Time → Edit Unit) : (count >>= after).run draft =
    (after (.ofNat (draft.state.activations + 1))).run
      { draft with state := { draft.state with activations := draft.state.activations + 1 } } := by
  rw [bind_edit]
  rfl

end Steps

def ended : Reconstruction × Option Fault → EStateM.Result Fault Draft Unit
  | (next, none) => .ok () { state := next }
  | (next, some fault) => .error fault { state := next }

theorem ended_bind {α : Type} (state : Reconstruction) (test : Except Fault α)
    (after : α → Except Fault Reconstruction) : ended (state.settle (test >>= after)) =
      match test with
      | .ok value => ended (state.settle (after value))
      | .error fault => .error fault { state } := by
  cases test <;> rfl

theorem declared_stored (state : Reconstruction) {clause : Clause} {id : ClauseId}
    (same : clause.id = id) : (state.store clause).declared? id = some clause := by
  rw [declared_store, if_pos same]

theorem store_store (state : Reconstruction) {first second : Clause} (same : first.id = second.id) :
    (state.store first).store second = state.store second := by
  have table : (state.table.insert first.id first).insert second.id second =
      state.table.insert second.id second := by
    refine Std.ExtTreeMap.ext_getElem? fun id => ?_
    simp only [get_insert, same]
    split <;> rfl
  have placeholders : (state.placeholders.erase first.id).erase second.id =
      state.placeholders.erase second.id := by
    refine Std.ExtTreeSet.ext_mem fun id => ?_
    simp only [Std.ExtTreeSet.mem_erase, same, and_self_left]
  simp only [store, table, placeholders]

section Declared
variable {state : Reconstruction} {id : ClauseId} {known clause : Clause} (draft : Draft)

theorem entry_declared (declared : draft.state.declared? id = some known) :
    (entry id).run draft = .ok known draft := by
  obtain ⟨_, found⟩ := (declared_some_iff _ _ _).mp declared
  simp only [EStateM.run, entry, found]

theorem put_declared (declared : draft.state.declared? id = some known) (same : clause.id = id) :
    (put id clause).run draft = .ok () { draft with state := draft.state.store clause } := by
  obtain ⟨apart, _⟩ := (declared_some_iff _ _ _).mp declared
  have placeholders : draft.state.placeholders.erase id = draft.state.placeholders := by
    refine Std.ExtTreeSet.ext_mem fun other => ?_
    rw [Std.ExtTreeSet.mem_erase, ne_eq, Std.LawfulEqCmp.compare_eq_iff_eq]
    exact ⟨And.right, fun mem => ⟨fun here => apart (here ▸ mem), mem⟩⟩
  simp only [EStateM.run, put, change, store, same, placeholders]

theorem stamp_declared (declared : draft.state.declared? id = some known) (same : known.id = id)
    (set : Lifecycle → Except Lifecycle.Violation Lifecycle) :
    (stamp id set).run draft = match stamped id (set known.life) with
      | .ok life => .ok () { draft with state := draft.state.store { known with life } }
      | .error fault => .error fault draft := by
  rw [stamp, bind_ran (entry_declared draft declared), look_bind]
  cases stamped id (set known.life) with
  | error fault => rfl
  | ok life => exact put_declared draft declared same

theorem stamp_succeeds (declared : draft.state.declared? id = some known) (same : known.id = id)
    (set : Lifecycle → Except Lifecycle.Violation Lifecycle) {life : Lifecycle}
    (done : set known.life = .ok life) : (stamp id set).run draft =
      .ok () { draft with state := draft.state.store { known with life } } := by
  rw [stamp_declared draft declared same, done]
  rfl

theorem retell_declared (declared : draft.state.declared? id = some known) (same : known.id = id)
    (text : String) (statistics : Statistics) : (retell id text statistics).run draft =
      .ok () { draft with state := draft.state.store { known with text, statistics } } := by
  rw [retell, bind_ran (entry_declared draft declared)]
  exact put_declared draft declared same

end Declared

variable {state : Reconstruction} {event : Event}

theorem declare_run (draft : Draft) (event : Event) (fromPreprocessing : Bool) :
    (declare event fromPreprocessing).run draft = .ok ()
      { draft with state := draft.state.store (declaration event fromPreprocessing) } := rfl

theorem edit_preprocessing_eq : (editPreprocessing event).run { state } =
    ended (state.settle (state.declarePreprocessing event)) := by
  rw [editPreprocessing, look_bind, declarePreprocessing]
  cases state.declared? event.id <;> rfl

theorem edit_passive_eq (kept : Kept [] state) (time : Time) :
    (editPassive time event).run { state } =
      ended (state.settle (state.makePassive time event)) := by
  rw [editPassive, look_bind, makePassive, ended_bind]
  cases required : state.requireDeclared event with
  | error fault => rfl
  | ok clause =>
    have declared := (require_declared_ok_iff _ _ _).mp required
    obtain ⟨same, _⟩ := declared_id kept declared
    dsimp only
    rw [look_bind, ended_bind]
    cases checkRestatement clause event with
    | error fault => rfl
    | ok _ =>
      dsimp only
      rw [stamp_declared _ declared same, ended_bind]
      cases stamped event.id (clause.life.setPassive time) <;> rfl

theorem edit_reduced_eq (kept : Kept [] state) (time : Time) :
    (editReduced time event).run { state } = ended (state.settle (state.reduce time event)) := by
  rw [editReduced, look_bind, reduce, ended_bind]
  cases required : state.requireDeclared event with
  | error fault => rfl
  | ok clause =>
    have declared := (require_declared_ok_iff _ _ _).mp required
    obtain ⟨same, _⟩ := declared_id kept declared
    dsimp only
    rw [bind_edit, stamp_declared _ declared same, ended_bind]
    cases stamped event.id (clause.life.setDeletion time) <;> rfl

theorem edit_reduction_parent_eq (kept : Kept [] state) :
    (editReductionParent event).run { state } =
      ended (state.settle (state.addReductionParent event)) := by
  rw [editReductionParent, look_bind, addReductionParent]
  cases reduced : state.reduced with
  | none => rfl
  | some id =>
    obtain ⟨clause, declared, _⟩ := kept.reduced id reduced
    obtain ⟨same, _⟩ := declared_id kept declared
    obtain ⟨_, found⟩ := (declared_some_iff _ _ _).mp declared
    dsimp only
    rw [stamp_declared _ declared same, found, Option.getD_some, ended_bind]
    cases stamped id (clause.life.addDeletionParent event.id) <;> rfl

theorem edit_active_eq (kept : Kept [] state) :
    (editActive event).run { state } = ended (state.activate event) := by
  rw [editActive, look_bind, activate]
  cases required : state.requirePassive event with
  | error fault => rfl
  | ok clause =>
    obtain ⟨declared, _⟩ := (require_passive_ok_iff _ _ _).mp required
    obtain ⟨same, _⟩ := declared_id kept declared
    dsimp only
    rw [count_bind, bind_edit, stamp_declared _ declared same, makeActive, ended_bind]
    cases stamped event.id (clause.life.setActive (.ofNat (state.activations + 1))) with
    | error fault => rfl
    | ok life =>
      have named : { clause with life }.id = event.id := same
      dsimp only
      rw [retell_declared _ (declared_stored _ named) named, store_store _ (by rfl)]
      rfl

theorem edit_new_clause_eq (kept : Kept [] state) (time : Time) :
    (editNewClause time event).run { state } = match state.newClause time event with
      | .ok clause => .ok () { state := state.store clause }
      | .error fault => .error fault { state } := by
  rw [editNewClause, look_bind, newClause]
  -- A declaration is stored and then stamped; a restated clause is stored already.
  cases declared : state.declared? event.id with
  | none =>
    have named : (declaration event false).id = event.id := rfl
    dsimp only
    rw [bind_ran (declare_run _ _ _)]
    have done : (declaration event false).life.setNew time = .ok { new := some time } := rfl
    rw [stamp_succeeds _ (declared_stored _ named) named _ done, store_store _ (by rfl)]
  | some clause =>
    obtain ⟨same, _⟩ := declared_id kept declared
    dsimp only
    rw [look_bind]
    cases checkRestatement clause event with
    | error fault => rfl
    | ok _ =>
      dsimp only
      rw [stamp_declared _ declared same]
      cases stamped event.id (clause.life.setNew time) <;> rfl

theorem edit_saturation_eq (time : Time) {clause : Clause} (new : clause.life.new.isSome)
    (passive : clause.life.passive = none) (active : clause.life.active = none) :
    (editSaturation time clause.id).run { state := state.store clause } =
      ended (state.settle (state.saturate time clause)) := by
  let counted := { state with activations := state.activations + 1 }
  let taken := { clause with life := { clause.life with passive := some time } }
  have waiting : clause.life.setPassive time = .ok taken.life :=
    (Lifecycle.set_passive_ok_iff _ _ _).mpr ⟨new, passive, active, rfl⟩
  have activated := (Lifecycle.set_active_ok_iff taken.life _ (.ofNat counted.activations)).mpr
    ⟨new, rfl, active, rfl⟩
  have first := stamp_succeeds ⟨counted.store clause, []⟩ (declared_stored _ rfl) rfl
    (·.setPassive time) waiting
  have second := stamp_succeeds ⟨counted.store taken, []⟩ (declared_stored _ rfl) rfl
    (·.setActive (.ofNat counted.activations)) activated
  rw [store_store _ (by rfl)] at first second
  rw [(saturate_ok_iff state _ time clause).mpr ⟨new, passive, active, rfl⟩, editSaturation,
    count_bind]
  exact (bind_ran first _).trans (bind_ran second _)

theorem new_clause_id (kept : Kept [] state) {time : Time} {clause : Clause}
    (found : state.newClause time event = .ok clause) : clause.id = event.id := by
  rcases (new_clause_ok_iff _ _ _ _).mp found with ⟨_, rfl⟩ | ⟨known, declared, _, _, _, _, rfl⟩
  · rfl
  · exact (declared_id kept declared).1

theorem edit_new_eq (kept : Kept [] state) (time : Time) : (editNew time event).run { state } =
    ended (state.settle (state.declareNew time event)) := by
  rw [editNew, bind_edit, edit_new_clause_eq kept, declareNew, ended_bind]
  cases found : state.newClause time event with
  | error fault => rfl
  | ok clause =>
    obtain ⟨new, passive, active⟩ := new_clause_stamps _ _ _ found
    have same := new_clause_id kept found
    dsimp only
    rw [look_bind]
    by_cases empty : event.clause = state.options.emptyClause
    · rw [if_pos empty, ← edit_saturation_eq time new passive active, same]
      exact congrArg (EStateM.run · _) (if_pos empty)
    · rw [if_neg empty]
      exact congrArg (EStateM.run · _) (if_neg empty)

theorem edit_eq (kept : Kept [] state) (time : Time) :
    (edit time event).run { state } = ended (state.apply time event) := by
  unfold edit apply
  cases event.kind with
  | preprocessing => exact edit_preprocessing_eq
  | new => exact edit_new_eq kept time
  | passive => exact edit_passive_eq kept time
  | active => exact edit_active_eq kept
  | forwardReduction | backwardReduction => exact edit_reduced_eq kept time
  | replacement | premise => exact edit_reduction_parent_eq kept

/-- Recording in place agrees with recording, and fills in nothing. -/
theorem record_in_place (kept : Kept [] state) (index : Nat) (event : Event) :
    state.recordInPlace index event =
      ({ state := (state.record index event).1 }, (state.record index event).2) := by
  unfold recordInPlace record
  split
  · rfl
  · dsimp only
    rw [bind_edit, edit_eq kept]
    rcases state.apply (.ofNat index) event with ⟨next, _ | fault⟩
    · dsimp only [ended]
      cases event.kind.declares <;> rfl
    · rfl

end Reconstruction
end DerivationReplay
