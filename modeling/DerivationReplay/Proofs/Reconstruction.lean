import DerivationReplay.Proofs.Reflection
import Mathlib.Order.Bounds.Basic

/-!
Whole runs of the recorder: which transcripts it accepts, where it rejects the others, and what
derivation it reconstructs from the chronicle.
-/
namespace DerivationReplay
open Chronicle

namespace Chronicle
variable (emptyClause : String) (event : Event) (events : List Event)

theorem span_nil : span emptyClause [] = [] := rfl

theorem span_cons : span emptyClause (event :: events) =
    event :: if event.refutes emptyClause then [] else span emptyClause events := by
  rw [span, List.findIdx_cons]
  cases event.refutes emptyClause <;> rfl

theorem span_take (length : Nat) :
    span emptyClause (events.take length) = (span emptyClause events).take length := by
  induction events generalizing length with
  | nil => simp [span_nil]
  | cons event events ih =>
    cases length with
    | zero => rfl
    | succ length =>
      rw [List.take_succ_cons, span_cons, span_cons, List.take_succ_cons]
      split
      · rw [List.take_nil]
      · rw [ih]

theorem span_length : (span emptyClause events).length ≤ events.length := by
  rw [span, List.length_take]
  omega

theorem lawful_nil : Lawful [] where
  ordered id := by constructor <;> simp [ofClause, Preceded]
  details := by simp [Preceded]

theorem lawful_prefix (told rest : List Event) (lawful : Lawful (told ++ rest)) : Lawful told := by
  induction rest using List.reverseRecOn with
  | nil => rwa [List.append_nil] at lawful
  | append_singleton rest event ih =>
    rw [← List.append_assoc] at lawful
    exact ih ((lawful_snoc _ event).mp lawful).1

end Chronicle

namespace Reconstruction
variable {options : Options} {told : List Event} {state next : Reconstruction}

structure Records (options : Options) (told : List Event) (state : Reconstruction) : Prop where
  reflects : Reflects options told (fun id => told.any (·.lists id)) state
  lawful : Lawful told

theorem records_start (options : Options) : Records options [] { options } :=
  ⟨reflects_start options, lawful_nil⟩

theorem not_refuted (records : Records options told state) (unsaturated : state.saturated = false) :
    ∀ event ∈ told, event.refutes state.options.emptyClause = false := by
  simpa [records.reflects.saturated] using unsaturated

theorem record_step (records : Records options told state) (unsaturated : state.saturated = false)
    (event : Event) (done : state.record told.length event = (next, none)) :
    Records options (told ++ [event]) next := by
  have unrefuted := not_refuted records unsaturated
  obtain ⟨applied, apply, rfl⟩ := (record_none_iff _ unsaturated).mp done
  have reflects := apply_reflects records.reflects records.lawful unrefuted apply
  have admissible : Admissible told event :=
    (apply_iff records.reflects records.lawful unrefuted _).mp ⟨applied, apply⟩
  refine ⟨?_, (lawful_snoc told event).mpr ⟨records.lawful, admissible⟩⟩
  have listed : (fun id => (told ++ [event]).any (·.lists id)) = fun id =>
      told.any (·.lists id) || event.kind.declares && event.parents.contains id := by
    funext id
    simp [Event.lists]
  rw [listed]
  split
  · rename_i declares
    simpa only [declares, Bool.true_and] using
      add_placeholders_reflects reflects event.parents
  · rename_i silent
    simpa [silent] using reflects

theorem record_iff (records : Records options told state) (unsaturated : state.saturated = false)
    (event : Event) (index : Nat) :
    (∃ next, state.record index event = (next, none)) ↔ Admissible told event := by
  rw [← apply_iff records.reflects records.lawful (not_refuted records unsaturated) (.ofNat index)]
  simp only [record_none_iff _ unsaturated]
  constructor
  · intro success
    obtain ⟨_, applied, apply, _⟩ := success
    exact ⟨applied, apply⟩
  · intro success
    obtain ⟨applied, apply⟩ := success
    exact ⟨_, applied, apply, rfl⟩

/-- A run that ends well has recorded everything up to the refutation; a run that fails has
recorded all before the event that it rejects. -/
theorem record_run (records : Records options told state) (unsaturated : state.saturated = false)
    (events : List Event) :
    match state.recordAll told.length events with
    | .ok final => Records options (told ++ span options.emptyClause events) final
    | .error rejection => ∃ accepted event rest,
      span options.emptyClause events = accepted ++ event :: rest ∧
        rejection.index = told.length + accepted.length ∧
        Lawful (told ++ accepted) ∧ ¬ Admissible (told ++ accepted) event := by
  induction events generalizing told state with
  | nil => simpa [recordAll, span_nil] using records
  | cons event events ih =>
    rw [recordAll]
    rcases outcome : state.record told.length event with ⟨next, _ | rejection⟩
    · have step := record_step records unsaturated event outcome
      have refuted : next.saturated = event.refutes options.emptyClause := by
        have before := not_refuted records unsaturated
        rw [records.reflects.options] at before
        rw [step.reflects.saturated, step.reflects.options, List.any_append,
          List.any_eq_false.mpr (by simpa using before)]
        simp
      simp only [refuted, span_cons]
      -- The run stops at the refutation, and so does the span.
      cases ends : event.refutes options.emptyClause
      · have rest := ih step (refuted.trans ends)
        simp only [List.length_append, List.length_singleton, List.append_assoc,
          List.singleton_append] at rest
        simp only [Bool.false_eq_true, if_false]
        split at rest
        · exact rest
        · obtain ⟨accepted, rejected, later, split, index, lawful, admissible⟩ := rest
          refine ⟨event :: accepted, rejected, later, ?_, ?_, lawful, admissible⟩
          · rw [split, List.cons_append]
          · rw [index, List.length_cons]
            omega
      · exact step
    · refine ⟨[], event, _, span_cons _ event events, ?_, ?_, ?_⟩
      · rw [(record_rejected outcome).1]
        rfl
      · rw [List.append_nil]
        exact records.lawful
      · rw [List.append_nil, ← record_iff records unsaturated event told.length]
        intro success
        obtain ⟨other, accepted⟩ := success
        rw [outcome] at accepted
        cases accepted

theorem run_recorded {events : List Event} {final : Reconstruction}
    (done : recordAll { options } 0 events = .ok final) :
    Records options (span options.emptyClause events) final := by
  have run := record_run (records_start options) rfl events
  simpa only [List.length_nil, done, List.nil_append] using run

theorem run_rejected {events : List Event} {rejection : Rejection}
    (failed : recordAll { options } 0 events = .error rejection) : ∃ accepted event rest,
      span options.emptyClause events = accepted ++ event :: rest ∧
        rejection.index = accepted.length ∧ Lawful accepted ∧ ¬ Admissible accepted event := by
  have run := record_run (records_start options) rfl events
  simpa only [List.length_nil, failed, List.nil_append, Nat.zero_add] using run

theorem run_lawful_iff (events : List Event) :
    (∃ final, recordAll { options } 0 events = .ok final) ↔
      Lawful (span options.emptyClause events) := by
  constructor
  · intro success
    obtain ⟨final, done⟩ := success
    exact (run_recorded done).lawful
  · intro lawful
    cases outcome : recordAll { options } 0 events with
    | ok final => exact ⟨final, rfl⟩
    | error rejection =>
      obtain ⟨accepted, event, rest, split, _, _, inadmissible⟩ := run_rejected outcome
      rw [split, List.append_cons] at lawful
      have prefix_lawful := lawful_prefix _ _ lawful
      exact absurd ((lawful_snoc accepted event).mp prefix_lawful).2 inadmissible

end Reconstruction

/-- Every event as recorded, with the same view of what ends the search. -/
def Options.withoutCleanUp (options : Options) : Options :=
  { options with pruneInactive := false, mergePreprocessing := false }

def Derivation.pruned (options : Options) (whole : Derivation) : Derivation :=
  if options.pruneInactive then whole.activatedPart else whole

def Derivation.cleanUp (options : Options) (whole : Derivation) : Derivation :=
  if options.mergePreprocessing then
    (whole.pruned options).contractPreprocessing options.choiceAxiomRule
  else whole.pruned options

namespace Derivation
variable (options : Options) (events : List Event)

theorem of_events_ok_iff (derivation : Derivation) : ofEvents options events = .ok derivation ↔
    ∃ final, Reconstruction.recordAll { options } 0 events = .ok final ∧
      final.finish = derivation := by
  unfold ofEvents
  cases Reconstruction.recordAll { options } 0 events <;> simp [Functor.map, Except.map]

theorem of_events_error_iff (rejection : Reconstruction.Rejection) :
    ofEvents options events = .error rejection ↔
      Reconstruction.recordAll { options } 0 events = .error rejection := by
  unfold ofEvents
  cases Reconstruction.recordAll { options } 0 events <;> simp [Functor.map, Except.map]

theorem of_events_some_iff : (∃ derivation, ofEvents options events = .ok derivation) ↔
    Lawful (span options.emptyClause events) := by
  rw [← Reconstruction.run_lawful_iff]
  simp only [of_events_ok_iff]
  constructor
  · intro success
    obtain ⟨_, final, done, _⟩ := success
    exact ⟨final, done⟩
  · intro success
    obtain ⟨final, done⟩ := success
    exact ⟨_, final, done, rfl⟩

/-- The accepted transcripts are the lawful ones. Any other one is rejected at the place where
its longest accepted prefix ends. -/
theorem acceptance_language :
    ((∃ derivation, ofEvents options events = .ok derivation) ↔
      Lawful (span options.emptyClause events)) ∧
    ∀ rejection, ofEvents options events = .error rejection →
      IsGreatest {length | length ≤ events.length ∧
        ∃ derivation, ofEvents options (events.take length) = .ok derivation} rejection.index := by
  refine ⟨of_events_some_iff options events, fun rejection failed => ?_⟩
  obtain ⟨accepted, event, rest, split, index, lawful, inadmissible⟩ :=
    Reconstruction.run_rejected ((of_events_error_iff options events rejection).mp failed)
  have short := span_length options.emptyClause events
  rw [split, List.length_append, List.length_cons] at short
  simp only [of_events_some_iff, span_take, split, index]
  constructor
  · refine ⟨by omega, ?_⟩
    rwa [List.take_left]
  · -- A longer prefix would contain the event that is not admissible.
    rintro length ⟨_, longer⟩
    by_contra beyond
    obtain ⟨extra, rfl⟩ : ∃ extra, length = accepted.length + (extra + 1) :=
      ⟨length - accepted.length - 1, by omega⟩
    rw [List.take_length_add_append, List.take_succ_cons, List.append_cons] at longer
    have prefix_lawful := lawful_prefix _ _ longer
    exact inadmissible ((lawful_snoc accepted event).mp prefix_lawful).2

def strayRun : List Event :=
  [⟨.new, 1, "p", "input", [], ∅⟩, ⟨.passive, 2, "q", "input", [], ∅⟩]

theorem stray_run_rejected : IsGreatest {length | length ≤ strayRun.length ∧
    ∃ derivation, ofEvents .raw (strayRun.take length) = .ok derivation} 1 :=
  (acceptance_language .raw strayRun).2 ⟨1, .outOfOrder 2 .passive⟩ (by decide)

theorem mem_reading_iff (emptyClause : String) (told : List Event) (id : ClauseId) :
    (clause? emptyClause told id).isSome ↔ ∃ event ∈ told, event.kind.declares = true ∧
      (event.id = id ∨ id ∈ event.parents) := by
  have written : (written? emptyClause told id).isSome ↔
      ∃ event ∈ told, event.kind.declares = true ∧ event.id = id := by
    simp [written?, declaration?, Event.declares]
  have listed : told.any (·.lists id) = true ↔
      ∃ event ∈ told, event.kind.declares = true ∧ id ∈ event.parents := by
    simp [Event.lists]
  rw [clause?, Option.isSome_or, Bool.or_eq_true, written]
  simp only [and_or_left, exists_or, ← listed]
  refine or_congr_right ?_
  split <;> simp_all

theorem reading_childless (emptyClause : String) (told : List Event) (id : ClauseId)
    (clause : Clause) (read : clause? emptyClause told id = some clause) :
    clause.children = ∅ := by
  rw [clause?, Option.or_eq_some_iff] at read
  rcases read with written | ⟨_, placeholder⟩
  · obtain ⟨first, _, rfl⟩ := Option.map_eq_some_iff.mp written
    rfl
  · split at placeholder <;> cases placeholder
    rfl

theorem recorded_table {options : Options} {events : List Event} {final : Reconstruction}
    (recorded : Reconstruction.recordAll { options } 0 events = .ok final) (id : ClauseId) :
    final.table[id]? = clause? options.emptyClause (span options.emptyClause events) id := by
  have reflects := (Reconstruction.run_recorded recorded).reflects
  rw [reflects.table, reflects.options, clause?]

theorem recorded_finish {options : Options} {events : List Event} {final : Reconstruction}
    (recorded : Reconstruction.recordAll { options } 0 events = .ok final) :
    final.finish = (assemble final.table).cleanUp options := by
  rw [← (Reconstruction.run_recorded recorded).reflects.options]
  rfl

theorem of_events_whole {options : Options} {events : List Event} {derivation : Derivation}
    (built : ofEvents options events = .ok derivation) : ∃ table : Table,
      ofEvents options.withoutCleanUp events = .ok (assemble table) ∧
      derivation = (assemble table).cleanUp options ∧
      ∀ id : ClauseId, table[id]? =
        clause? options.emptyClause (span options.emptyClause events) id := by
  obtain ⟨final, done, rfl⟩ := (of_events_ok_iff options events derivation).mp built
  refine ⟨final.table, ?_, recorded_finish done, recorded_table done⟩
  -- What is lawful does not depend on the clean-up, nor does the table that is recorded.
  obtain ⟨other, again⟩ : ∃ other, Reconstruction.recordAll { options := options.withoutCleanUp } 0
      events = .ok other :=
    (Reconstruction.run_lawful_iff events).mpr (Reconstruction.run_recorded done).lawful
  have table : other.table = final.table := by
    refine Std.ExtTreeMap.ext_getElem? fun id => ?_
    rw [recorded_table again, recorded_table done]
    rfl
  refine (of_events_ok_iff _ events _).mpr ⟨other, again, ?_⟩
  rw [recorded_finish again, table]
  rfl

/-- Without clean-up, the derivation holds the clauses that are declared or listed as parents, each
as the chronicle tells of it. -/
theorem reconstruction_reads_chronicle (derivation : Derivation)
    (whole : options.pruneInactive = false) (apart : options.mergePreprocessing = false)
    (built : ofEvents options events = .ok derivation) :
    (∀ id, id ∈ derivation ↔ ∃ event ∈ span options.emptyClause events,
      event.kind.declares = true ∧ (event.id = id ∨ id ∈ event.parents)) ∧
    ∀ id, (derivation.get? id).map (fun clause => { clause with children := ∅ }) =
      clause? options.emptyClause (span options.emptyClause events) id := by
  obtain ⟨table, _, rfl, read⟩ := of_events_whole built
  simp only [cleanUp, pruned, whole, apart, Bool.false_eq_true, if_false]
  constructor
  · intro id
    rw [mem_assemble, Std.ExtTreeMap.mem_iff_isSome_getElem?, read, mem_reading_iff]
  · intro id
    rw [get_assemble, read]
    cases found : clause? options.emptyClause (span options.emptyClause events) id with
    | none => rfl
    | some clause =>
      have childless := reading_childless _ _ id clause found
      simp only [Option.map_some, ← childless]

def briefRun : List Event :=
  [⟨.preprocessing, 1, "p", "input", [], ∅⟩, ⟨.new, 2, "~p", "resolution", [1, 7], ∅⟩,
    ⟨.passive, 2, "~p", "resolution", [1, 7], ∅⟩, ⟨.active, 2, "~ p", "resolution", [1, 7], ∅⟩,
    ⟨.forwardReduction, 2, "~p", "resolution", [1, 7], ∅⟩, ⟨.premise, 1, "p", "input", [], ∅⟩,
    ⟨.new, 3, "$false", "resolution", [1, 2], ∅⟩]

theorem brief_run_read : ∃ derivation, ofEvents .raw briefRun = .ok derivation ∧
    (derivation.get? 2).map (fun clause => { clause with children := ∅ }) = some
      { id := 2
        text := "~ p"
        rule := "resolution"
        parents := [1, 7]
        life := ⟨some 1, some 2, some 1, some 4, [1]⟩ } := by
  refine ⟨_, rfl, ?_⟩
  rw [(reconstruction_reads_chronicle .raw briefRun _ rfl rfl rfl).2 2]
  decide

end Derivation
end DerivationReplay
