import DerivationReplay.Proofs.Protocol
import DerivationReplay.Proofs.Recording

/-!
The state of a recorder is a reading of its chronicle: recording one more event of a lawful
chronicle succeeds exactly if the chronicle stays lawful, and the state is again read off it.
-/
namespace DerivationReplay
namespace Reconstruction
open Chronicle

/-- The state says what the chronicle says. The parents in `listed` have a placeholder. -/
structure Reflects (options : Options) (told : List Event) (listed : ClauseId → Bool)
    (state : Reconstruction) : Prop where
  options : state.options = options
  table : ∀ id, state.table[id]? = (written? state.options.emptyClause told id).or
    (if listed id then some (.placeholder id) else none)
  placeholders : ∀ id, id ∈ state.placeholders ↔
    written? state.options.emptyClause told id = none ∧ listed id = true
  activations : state.activations = told.countP (·.activates state.options.emptyClause)
  reduced : state.reduced = reduced? told
  saturated : state.saturated = told.any (·.refutes state.options.emptyClause)

variable {options : Options} {told : List Event} {listed : ClauseId → Bool}
  {state next : Reconstruction}

theorem reflects_start (options : Options) : Reflects options [] (fun _ => false) { options } := by
  constructor <;> simp [written?, declaration?, reduced?]

theorem declared_eq_written (reflects : Reflects options told listed state) (id : ClauseId) :
    state.declared? id = written? state.options.emptyClause told id := by
  rw [declared?]
  split
  · rename_i placeholder
    exact ((reflects.placeholders id).mp placeholder).1.symm
  · rename_i declared
    rw [reflects.table id]
    cases found : written? state.options.emptyClause told id with
    | some clause => rfl
    | none =>
      rw [if_neg fun known => declared ((reflects.placeholders id).mpr ⟨found, known⟩)]
      rfl

section Placeholders

theorem add_placeholder_reflects (reflects : Reflects options told listed state)
    (parent : ClauseId) :
    Reflects options told (fun id => listed id || id == parent) (state.addPlaceholder parent) := by
  unfold addPlaceholder
  split
  · rename_i known
    -- An entry without a declaration is the placeholder of a parent listed before.
    have already :
        written? state.options.emptyClause told parent = none → listed parent = true := by
      intro none
      obtain ⟨clause, found⟩ := (mem_table_iff _ _).mp known
      rw [reflects.table, none, Option.none_or] at found
      by_contra other
      rw [if_neg other] at found
      cases found
    refine ⟨reflects.options, fun id => ?_, fun id => ?_, reflects.activations, reflects.reduced,
      reflects.saturated⟩
    · rw [reflects.table]
      by_cases same : id = parent
      · subst id
        cases found : written? state.options.emptyClause told parent with
        | some clause => rfl
        | none => simp [already found]
      · simp [same]
    · rw [reflects.placeholders]
      by_cases same : id = parent
      · subst id
        refine and_congr_right fun none => ?_
        simp [already none]
      · simp [same]
  · rename_i unknown
    have missing := Std.ExtTreeMap.getElem?_eq_none unknown
    rw [reflects.table, Option.or_eq_none_iff] at missing
    refine ⟨reflects.options, fun id => ?_, fun id => ?_, reflects.activations, reflects.reduced,
      reflects.saturated⟩
    · rw [get_insert]
      by_cases same : id = parent
      · subst id
        simp [missing.1]
      · simp [same, Ne.symm same, reflects.table id]
    · simp only [Std.ExtTreeSet.mem_insert, Std.LawfulEqCmp.compare_eq_iff_eq,
        reflects.placeholders id, Bool.or_eq_true, beq_iff_eq]
      by_cases same : id = parent
      · subst id
        simp [missing.1]
      · simp [same, Ne.symm same]

theorem add_placeholders_reflects (reflects : Reflects options told listed state)
    (parents : List ClauseId) :
    Reflects options told (fun id => listed id || parents.contains id)
      (parents.foldl addPlaceholder state) := by
  induction parents generalizing listed state with
  | nil => simpa using reflects
  | cons parent parents ih =>
    have rest := ih (add_placeholder_reflects reflects parent)
    simpa only [Bool.or_assoc, List.contains_cons, List.foldl_cons] using rest

end Placeholders

def noted (state : Reconstruction) (event : Event) (clause : Clause) : Reconstruction :=
  { state.store clause with
    activations := state.activations + if event.activates state.options.emptyClause then 1 else 0
    reduced := if event.kind.reduces then some event.id else state.reduced
    saturated := state.saturated || event.refutes state.options.emptyClause }

theorem store_reflects (reflects : Reflects options told listed state) (event : Event)
    (clause : Clause)
    (stored : written? state.options.emptyClause (told ++ [event]) clause.id = some clause)
    (apart : ∀ id, id ≠ clause.id → written? state.options.emptyClause (told ++ [event]) id =
      written? state.options.emptyClause told id)
    (change : next = state.noted event clause) :
    Reflects options (told ++ [event]) listed next := by
  subst change
  refine ⟨reflects.options, fun id => ?_, fun id => ?_, ?_, ?_, ?_⟩
  · simp only [noted, store, get_insert]
    by_cases same : clause.id = id
    · subst id
      simp [stored]
    · simp [same, apart id (Ne.symm same), reflects.table id]
  · simp only [noted, store, Std.ExtTreeSet.mem_erase, ne_eq,
      Std.LawfulEqCmp.compare_eq_iff_eq, reflects.placeholders id]
    by_cases same : clause.id = id
    · subst id
      simp [stored]
    · simp [same, apart id (Ne.symm same)]
  · simp [noted, store, List.countP_append, List.countP_singleton, reflects.activations]
  · simp [noted, reduced_snoc, reflects.reduced]
  · simp [noted, store, reflects.saturated]

theorem report_reflects (reflects : Reflects options told listed state) (event : Event)
    (clause : Clause) (plain : event.kind.details = false)
    (stored : written? state.options.emptyClause (told ++ [event]) event.id = some clause)
    (change : next = state.noted event clause) :
    Reflects options (told ++ [event]) listed next := by
  have same := written_id _ (told ++ [event]) event.id clause stored
  refine store_reflects reflects event clause (same ▸ stored) (fun id other => ?_) change
  refine written_apart _ told event id ?_ (by simp [plain])
  simp [Event.concerns, ← same, Ne.symm other]

section Operations
attribute [local simp] noted store Event.isOf Event.refutes Event.activates Event.reduces
  EventKind.reduces EventKind.details

variable (reflects : Reflects options told listed state) (event : Event)
include reflects

theorem declare_preprocessing_reflects (lawful : Lawful told)
    (unrefuted : ∀ event ∈ told, event.refutes state.options.emptyClause = false)
    (kind : event.kind = .preprocessing)
    (done : state.declarePreprocessing event = .ok next) :
    Reflects options (told ++ [event]) listed next := by
  obtain ⟨unknown, rfl⟩ := (declare_preprocessing_ok_iff _ _ _).mp done
  rw [declared_eq_written reflects] at unknown
  have none := (written_none_iff event.id _ lawful).mp unknown
  refine report_reflects reflects event _ (by simp [kind])
    (written_first _ told event unknown (.inl kind)
      ((inactive_iff event.id).mpr (by simp [none]))) ?_
  rw [life_snoc, life_of_none event.id _ none unrefuted]
  simp [declaration, kind]

theorem make_passive_reflects (kind : event.kind = .passive)
    (done : state.makePassive (.ofNat told.length) event = .ok next) :
    Reflects options (told ++ [event]) listed next := by
  obtain ⟨clause, known, _, _, passive, _, rfl⟩ := (make_passive_ok_iff _ _ _ _).mp done
  rw [declared_eq_written reflects] at known
  refine report_reflects reflects event _ (by simp [kind])
    (written_again _ told event event.id clause known (by simp [kind])) ?_
  rw [life_snoc, written_life _ told event.id clause known]
  simp [kind, passive]

theorem activate_reflects
    (unrefuted : ∀ event ∈ told, event.refutes state.options.emptyClause = false)
    (kind : event.kind = .active) (done : state.activate event = (next, none)) :
    Reflects options (told ++ [event]) listed next := by
  obtain ⟨clause, known, _, _, _, active, rfl⟩ := (activate_none_iff _ _ _).mp done
  rw [declared_eq_written reflects] at known
  have inactive : ∀ other ∈ told, other.isOf .active event.id = false := by
    have never := (active_some_iff event.id _ unrefuted).not
    rw [written_life _ told event.id clause known, active] at never
    rw [inactive_iff]
    simpa using never
  refine report_reflects reflects event _ (by simp [kind])
    (written_activated _ told event clause known kind inactive) ?_
  rw [life_snoc, written_life _ told event.id clause known]
  simp [kind, active, reflects.activations]

theorem reduce_reflects (reduces : event.kind.reduces = true)
    (done : state.reduce (.ofNat told.length) event = .ok next) :
    Reflects options (told ++ [event]) listed next := by
  obtain ⟨clause, known, _, deletion, rfl⟩ := (reduce_ok_iff _ _ _ _).mp done
  rw [declared_eq_written reflects] at known
  have life := written_life _ told event.id clause known
  have parents := deletion_parents_none event.id _ (life.symm ▸ deletion)
  rw [life] at parents
  have kind := event.kind.reduces_iff.mp reduces
  refine report_reflects reflects event _ (event.kind.plain_of_reduces reduces)
    (written_again _ told event event.id clause known ?_) ?_
  · rcases kind with kind | kind <;> simp [kind]
  · rw [life_snoc, life]
    rcases kind with kind | kind <;> simp [kind, deletion, parents]

theorem new_clause_written (lawful : Lawful told)
    (unrefuted : ∀ event ∈ told, event.refutes state.options.emptyClause = false)
    (kind : event.kind = .new) {taken : Clause}
    (found : state.newClause (.ofNat told.length) event = .ok taken) :
    written? state.options.emptyClause (told ++ [event]) event.id = some { taken with
        life := life state.options.emptyClause (told ++ [event]) event.id } ∧
      (life state.options.emptyClause told event.id).new = none ∧
      taken.life = { life state.options.emptyClause told event.id with
        new := some (.ofNat told.length) } := by
  rcases (new_clause_ok_iff _ _ _ _).mp found with
    ⟨unknown, rfl⟩ | ⟨clause, known, _, new, _, _, rfl⟩
  · rw [declared_eq_written reflects] at unknown
    have none := (written_none_iff event.id _ lawful).mp unknown
    rw [life_of_none event.id _ none unrefuted]
    refine ⟨?_, rfl, rfl⟩
    rw [written_first _ told event unknown (.inr kind)
      ((inactive_iff event.id).mpr (by simp [none]))]
    simp [declaration, kind]
  · rw [declared_eq_written reflects] at known
    rw [written_life _ told event.id clause known]
    exact ⟨written_again _ told event event.id clause known (by simp [kind]), new, rfl⟩

theorem declare_new_reflects (lawful : Lawful told)
    (unrefuted : ∀ event ∈ told, event.refutes state.options.emptyClause = false)
    (kind : event.kind = .new)
    (done : state.declareNew (.ofNat told.length) event = .ok next) :
    Reflects options (told ++ [event]) listed next := by
  obtain ⟨taken, found, after⟩ := (declare_new_ok_iff _ _ _ _).mp done
  obtain ⟨stored, new, taken_life⟩ := new_clause_written reflects event lawful unrefuted kind found
  refine report_reflects reflects event _ (by simp [kind]) stored ?_
  have later : life state.options.emptyClause (told ++ [event]) event.id =
      if event.clause = state.options.emptyClause then
        { taken.life with
          passive := taken.life.passive.or (some (.ofNat told.length))
          active := taken.life.active.or (some (.ofNat (state.activations + 1))) }
      else taken.life := by
    rw [life_snoc, taken_life, reflects.activations]
    by_cases empty : event.clause = state.options.emptyClause <;>
      simp [kind, empty, new]
  rw [later]
  split at after
  · rename_i empty
    obtain ⟨_, passive, active, rfl⟩ := (saturate_ok_iff _ _ _ _).mp after
    simp [kind, empty, passive, active]
  · rename_i other
    subst after
    simp [kind, other]

theorem reduced_written (lawful : Lawful told) {id : ClauseId} (reduced : state.reduced = some id) :
    Open told id ∧ ∃ clause, written? state.options.emptyClause told id = some clause ∧
      state.table[id]? = some clause := by
  have still := (reduced_eq_some_iff id lawful).mp (reflects.reduced ▸ reduced)
  obtain ⟨reduction, mem, hit⟩ := still.1
  obtain ⟨clause, known⟩ := written_of_mem id _ lawful (reduction_of_clause id mem hit).1
  refine ⟨still, clause, known, ?_⟩
  rw [reflects.table, known, Option.some_or]

theorem add_reduction_parent_reflects (lawful : Lawful told)
    (details : event.kind.details = true) (done : state.addReductionParent event = .ok next) :
    Reflects options (told ++ [event]) listed next := by
  obtain ⟨id, reduced, clause, found, _, rfl⟩ := (add_reduction_parent_ok_iff _ _ _).mp done
  obtain ⟨still, stored, known, here⟩ := reduced_written reflects lawful reduced
  rw [here, Option.getD_some] at found
  obtain rfl := found
  have same := written_id _ told id stored known
  have kind := event.kind.details_iff.mp details
  refine store_reflects reflects event { stored with life := { stored.life with
    deletionParents := stored.life.deletionParents ++ [event.id] } } ?_ (fun other apart => ?_) ?_
  · rw [same, written_again _ told event id stored known
      (by rcases kind with kind | kind <;> simp [kind]), life_snoc,
      written_life _ told id stored known]
    rcases kind with kind | kind <;> simp [kind, still, same]
  · have silent : event.concerns other = false := by
      rw [Event.concerns, details]
      rfl
    refine written_apart _ told event other silent fun _ open_other => ?_
    have again := (reduced_eq_some_iff other lawful).mpr open_other
    rw [← reflects.reduced, reduced, Option.some.injEq] at again
    exact apart (same ▸ again.symm)
  · rcases kind with kind | kind <;> simp [kind]

end Operations

/-! An operation succeeds exactly on the events that the language allows. -/

section Admission
variable {event : Event} {id : ClauseId} {clause : Clause}
  (known : written? state.options.emptyClause told id = some clause)
include known

theorem restates_iff (lawful : Lawful told) :
    Restates clause event ↔ Repeats (ofClause id told) event := by
  obtain ⟨first, head, rfl⟩ := (written_some_iff id _ lawful clause).mp known
  rw [Option.mem_def] at head
  simp [Restates, Repeats, declared, head, eq_comm]

theorem new_known : clause.life.new.isSome ↔ ∃ event ∈ ofClause id told, event.kind = .new := by
  rw [← written_life _ told id clause known, new_some_iff]

theorem new_unknown : clause.life.new = none ↔ ∀ event ∈ ofClause id told, event.kind ≠ .new := by
  rw [← Option.not_isSome_iff_eq_none, new_known known]
  push Not
  rfl

theorem deletion_unknown : clause.life.deletion = none ↔
    ∀ event ∈ ofClause id told, event.kind.reduces = false := by
  rw [← Option.not_isSome_iff_eq_none, ← written_life _ told id clause known, deletion_some_iff]
  simp

variable (unrefuted : ∀ event ∈ told, event.refutes state.options.emptyClause = false)
include unrefuted

theorem passive_known :
    clause.life.passive.isSome ↔ ∃ event ∈ ofClause id told, event.kind = .passive := by
  rw [← written_life _ told id clause known, passive_some_iff id _ unrefuted]

theorem passive_unknown :
    clause.life.passive = none ↔ ∀ event ∈ ofClause id told, event.kind ≠ .passive := by
  rw [← Option.not_isSome_iff_eq_none, passive_known known unrefuted]
  push Not
  rfl

theorem active_unknown :
    clause.life.active = none ↔ ∀ event ∈ ofClause id told, event.kind ≠ .active := by
  rw [← Option.not_isSome_iff_eq_none, ← written_life _ told id clause known,
    active_some_iff id _ unrefuted]
  push Not
  rfl

end Admission

theorem unstamped_of_not_new {event : Event} (lawful : Lawful told)
    (unrefuted : ∀ event ∈ told, event.refutes state.options.emptyClause = false) {clause : Clause}
    (known : written? state.options.emptyClause told event.id = some clause)
    (new : ∀ other ∈ ofClause event.id told, other.kind ≠ .new) :
    clause.life.new = none ∧ clause.life.passive = none ∧ clause.life.active = none := by
  have ordered := lawful.ordered event.id
  -- Stamps come in order, so that without the first there is none.
  have passive := preceded_none ordered.new_before_passive new
  have active := preceded_none ordered.passive_before_active passive
  exact ⟨(new_unknown known).mpr new, (passive_unknown known unrefuted).mpr passive,
    (active_unknown known unrefuted).mpr active⟩

section Success
variable (reflects : Reflects options told listed state) (lawful : Lawful told)
  {event : Event} {time : Time}
include reflects lawful

theorem known_of_mem {other : Event} (mem : other ∈ ofClause event.id told) : ∃ clause,
    state.declared? event.id = some clause ∧
      written? state.options.emptyClause told event.id = some clause := by
  obtain ⟨clause, known⟩ := written_of_mem event.id _ lawful mem
  exact ⟨clause, (declared_eq_written reflects event.id).trans known, known⟩

theorem declare_preprocessing_iff (kind : event.kind = .preprocessing) :
    (∃ next, state.declarePreprocessing event = .ok next) ↔
      Allowed (ofClause event.id told) event := by
  rw [allowed_preprocessing_iff kind, ← written_none_iff event.id _ lawful,
    ← declared_eq_written reflects]
  simp [declare_preprocessing_ok_iff]

theorem reduce_iff (reduces : event.kind.reduces = true) :
    (∃ next, state.reduce time event = .ok next) ↔ Allowed (ofClause event.id told) event := by
  rw [allowed_reduction_iff reduces]
  constructor
  · intro success
    obtain ⟨next, done⟩ := success
    obtain ⟨clause, known, new, deletion, _⟩ := (reduce_ok_iff _ _ _ _).mp done
    rw [declared_eq_written reflects] at known
    exact ⟨(new_known known).mp new, (deletion_unknown known).mp deletion⟩
  · intro needs
    obtain ⟨new, once⟩ := needs
    obtain ⟨clause, declared, known⟩ := known_of_mem reflects lawful new.choose_spec.1
    exact ⟨_, (reduce_ok_iff _ _ _ _).mpr
      ⟨clause, declared, (new_known known).mpr new, (deletion_unknown known).mpr once, rfl⟩⟩

theorem add_reduction_parent_iff : (∃ next, state.addReductionParent event = .ok next) ↔
    ∃ other ∈ told, other.kind.reduces = true := by
  constructor
  · intro success
    obtain ⟨next, done⟩ := success
    obtain ⟨id, reduced, _⟩ := (add_reduction_parent_ok_iff _ _ _).mp done
    obtain ⟨⟨other, mem, hit⟩, _⟩ := (reduced_written reflects lawful reduced).1
    exact ⟨other, mem, (Bool.and_eq_true_iff.mp hit).1⟩
  · intro some
    have reduced : reduced? told ≠ none := by
      simpa [reduced?] using some
    obtain ⟨id, reduced⟩ := Option.ne_none_iff_exists'.mp reduced
    rw [← reflects.reduced] at reduced
    obtain ⟨still, clause, known, here⟩ := reduced_written reflects lawful reduced
    have deletion : clause.life.deletion.isSome := by
      rw [← written_life _ told id clause known, deletion_some_iff]
      obtain ⟨other, mem, hit⟩ := still.1
      exact ⟨other, reduction_of_clause id mem hit⟩
    exact ⟨_, (add_reduction_parent_ok_iff _ _ _).mpr
      ⟨id, reduced, clause, by rw [here]; rfl, deletion, rfl⟩⟩

variable (unrefuted : ∀ event ∈ told, event.refutes state.options.emptyClause = false)
include unrefuted

theorem make_passive_iff (kind : event.kind = .passive) :
    (∃ next, state.makePassive time event = .ok next) ↔
      Allowed (ofClause event.id told) event := by
  rw [allowed_passive_iff kind]
  constructor
  · intro success
    obtain ⟨next, done⟩ := success
    obtain ⟨clause, known, restates, new, passive, _⟩ := (make_passive_ok_iff _ _ _ _).mp done
    rw [declared_eq_written reflects] at known
    exact ⟨(new_known known).mp new, (passive_unknown known unrefuted).mp passive,
      (restates_iff known lawful).mp restates⟩
  · intro needs
    obtain ⟨new, passive, repeats⟩ := needs
    obtain ⟨clause, declared, known⟩ := known_of_mem reflects lawful new.choose_spec.1
    have active := preceded_none (lawful.ordered event.id).passive_before_active passive
    exact ⟨_, (make_passive_ok_iff _ _ _ _).mpr ⟨clause, declared,
      (restates_iff known lawful).mpr repeats, (new_known known).mpr new,
      (passive_unknown known unrefuted).mpr passive, (active_unknown known unrefuted).mpr active,
      rfl⟩⟩

theorem activate_iff (kind : event.kind = .active) :
    (∃ next, state.activate event = (next, none)) ↔
      Allowed (ofClause event.id told) event := by
  rw [allowed_active_iff kind]
  constructor
  · intro success
    obtain ⟨next, done⟩ := success
    obtain ⟨clause, known, passive, restates, _, active, _⟩ := (activate_none_iff _ _ _).mp done
    rw [declared_eq_written reflects] at known
    exact ⟨(passive_known known unrefuted).mp passive, (active_unknown known unrefuted).mp active,
      (restates_iff known lawful).mp restates⟩
  · intro needs
    obtain ⟨passive, active, repeats⟩ := needs
    obtain ⟨clause, declared, known⟩ := known_of_mem reflects lawful passive.choose_spec.1
    have new := preceded_some (lawful.ordered event.id).new_before_passive passive
    exact ⟨_, (activate_none_iff _ _ _).mpr ⟨clause, declared,
      (passive_known known unrefuted).mpr passive, (restates_iff known lawful).mpr repeats,
      (new_known known).mpr new, (active_unknown known unrefuted).mpr active, rfl⟩⟩

theorem new_clause_iff (kind : event.kind = .new) :
    (∃ clause, state.newClause time event = .ok clause) ↔
      Allowed (ofClause event.id told) event := by
  rw [allowed_new_iff kind]
  constructor
  · intro success
    obtain ⟨taken, done⟩ := success
    rcases (new_clause_ok_iff _ _ _ _).mp done with ⟨unknown, _⟩ | ⟨clause, known, restates, new, _⟩
    · rw [declared_eq_written reflects, written_none_iff event.id _ lawful] at unknown
      simp [unknown, Repeats]
    · rw [declared_eq_written reflects] at known
      exact ⟨(new_unknown known).mp new, (restates_iff known lawful).mp restates⟩
  · intro needs
    obtain ⟨new, repeats⟩ := needs
    cases known : state.declared? event.id with
    | none => exact ⟨_, (new_clause_ok_iff _ _ _ _).mpr (.inl ⟨known, rfl⟩)⟩
    | some clause =>
      have written := known
      rw [declared_eq_written reflects] at written
      obtain ⟨new, passive, active⟩ := unstamped_of_not_new lawful unrefuted written new
      exact ⟨_, (new_clause_ok_iff _ _ _ _).mpr (.inr ⟨clause, known,
        (restates_iff written lawful).mpr repeats, new, passive, active, rfl⟩)⟩

theorem declare_new_iff (kind : event.kind = .new) :
    (∃ next, state.declareNew time event = .ok next) ↔
      Allowed (ofClause event.id told) event := by
  rw [← new_clause_iff reflects lawful unrefuted kind]
  simp only [declare_new_ok_iff]
  constructor
  · intro success
    obtain ⟨next, clause, found, _⟩ := success
    exact ⟨clause, found⟩
  · intro success
    obtain ⟨clause, found⟩ := success
    obtain ⟨new, passive, active⟩ := new_clause_stamps _ _ _ found
    by_cases empty : event.clause = state.options.emptyClause
    · have saturated := (saturate_ok_iff state _ time clause).mpr ⟨new, passive, active, rfl⟩
      exact ⟨_, clause, found, by rwa [if_pos empty]⟩
    · exact ⟨_, clause, found, by rw [if_neg empty]⟩

end Success

/-! One event, applied and recorded. -/

section Record
variable (reflects : Reflects options told listed state) (lawful : Lawful told)
  (unrefuted : ∀ event ∈ told, event.refutes state.options.emptyClause = false) {event : Event}
include reflects lawful unrefuted

theorem apply_reflects (done : state.apply (.ofNat told.length) event = (next, none)) :
    Reflects options (told ++ [event]) listed next := by
  unfold apply at done
  cases kind : event.kind <;> simp only [kind, settle_none_iff] at done
  case preprocessing =>
    exact declare_preprocessing_reflects reflects event lawful unrefuted kind done
  case new => exact declare_new_reflects reflects event lawful unrefuted kind done
  case passive => exact make_passive_reflects reflects event kind done
  case active => exact activate_reflects reflects event unrefuted kind done
  case forwardReduction =>
    exact reduce_reflects reflects event (by simp [kind, EventKind.reduces]) done
  case backwardReduction =>
    exact reduce_reflects reflects event (by simp [kind, EventKind.reduces]) done
  case replacement =>
    exact add_reduction_parent_reflects reflects event lawful
      (by simp [kind, EventKind.details]) done
  case premise =>
    exact add_reduction_parent_reflects reflects event lawful
      (by simp [kind, EventKind.details]) done

theorem apply_iff (time : Time) :
    (∃ next, state.apply time event = (next, none)) ↔ Admissible told event := by
  unfold apply Admissible
  cases kind : event.kind <;> simp only [settle_none_iff, EventKind.details, if_pos, if_neg,
    Bool.false_eq_true, not_false_eq_true]
  case preprocessing => exact declare_preprocessing_iff reflects lawful kind
  case new => exact declare_new_iff reflects lawful unrefuted kind
  case passive => exact make_passive_iff reflects lawful unrefuted kind
  case active => exact activate_iff reflects lawful unrefuted kind
  case forwardReduction => exact reduce_iff reflects lawful (by simp [kind, EventKind.reduces])
  case backwardReduction => exact reduce_iff reflects lawful (by simp [kind, EventKind.reduces])
  case replacement => exact add_reduction_parent_iff reflects lawful
  case premise => exact add_reduction_parent_iff reflects lawful

end Record

end Reconstruction
end DerivationReplay
