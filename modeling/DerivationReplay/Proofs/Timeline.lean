import DerivationReplay.Proofs.Activations

/-!
The replay of a run. Its steps are the activations in the order of their events: each step makes
one clause active and leaves all others as they are, so that what is visible only grows, and after
the last step nothing changes any more.
-/
namespace DerivationReplay
open Chronicle

namespace Chronicle
variable (emptyClause : String)

def activationOrder (told : List Event) : List ClauseId :=
  (told.filter (·.activates emptyClause)).map Event.id

theorem activation_order_length (told : List Event) :
    (activationOrder emptyClause told).length = told.countP (·.activates emptyClause) := by
  rw [activationOrder, List.length_map, List.countP_eq_length_filter]

theorem step_eq_place (told : List Event) (id : ClauseId) : step? emptyClause told id =
    ((activationOrder emptyClause told).findIdx? (· = id)).map fun place => .ofNat (place + 1) := by
  induction told using List.reverseRecOn with
  | nil => rfl
  | append_singleton told event ih =>
    have longer : activationOrder emptyClause (told ++ [event]) =
        activationOrder emptyClause told ++
          if event.activates emptyClause then [event.id] else [] := by
      cases hit : event.activates emptyClause <;> simp [activationOrder, hit]
    rw [step_snoc, ih, longer, List.findIdx?_append, activation_order_length]
    cases hit : event.activates emptyClause
    · simp
    · by_cases same : event.id = id <;>
        cases (activationOrder emptyClause told).findIdx? (· = id) <;> simp [same]

theorem step_some_iff {told : List Event} (distinct : (activationOrder emptyClause told).Nodup)
    (id : ClauseId) (time : Time) : step? emptyClause told id = some time ↔
      ∃ place, (activationOrder emptyClause told)[place]? = some id ∧
        .ofNat (place + 1) = time := by
  rw [step_eq_place, Option.map_eq_some_iff]
  refine exists_congr fun place => and_congr_left fun _ => ?_
  rw [List.findIdx?_eq_some_iff_getElem, List.getElem?_eq_some_iff]
  constructor
  · intro found
    obtain ⟨inside, same, _⟩ := found
    exact ⟨inside, of_decide_eq_true same⟩
  · intro found
    obtain ⟨inside, rfl⟩ := found
    -- No clause is activated twice, so there is no earlier place.
    refine ⟨inside, by simp, fun earlier before => ?_⟩
    rw [decide_eq_true_eq, distinct.getElem_inj_iff]
    exact Nat.ne_of_lt before

end Chronicle

namespace Clause
variable (clause : Clause)

theorem presence_next (step : Nat) :
    if clause.life.active.any (·.toNat = step + 1)
      then clause.presenceAt step ≠ .active ∧ clause.presenceAt (step + 1) = .active
      else clause.presenceAt (step + 1) = clause.presenceAt step := by
  have next : clause.isActiveAt (step + 1) =
      (clause.isActiveAt step || clause.life.active.any (·.toNat = step + 1)) := by
    unfold isActiveAt
    cases clause.life.active with
    | none => rfl
    | some time =>
      simp only [Option.any_some, Nat.le_succ_iff, Bool.decide_or]
  split
  · rename_i now
    have before : clause.isActiveAt step = false := by
      unfold isActiveAt
      cases active : clause.life.active with
      | none => rfl
      | some time =>
        rw [active, Option.any_some, decide_eq_true_eq] at now
        simp [now]
    refine ⟨?_, by rw [presenceAt, next, now, Bool.or_true, if_pos rfl]⟩
    rw [presenceAt, before, if_neg Bool.false_ne_true]
    split <;> decide
  · rename_i other
    rw [presenceAt, presenceAt, next, Bool.eq_false_of_not_eq_true other, Bool.or_false]

theorem visible_later {step later : Nat} (after : step ≤ later)
    (visible : clause.isVisibleAt step = true) : clause.isVisibleAt later = true := by
  rw [isVisibleAt, isActiveAt, Bool.or_eq_true, Option.any_eq_true] at visible ⊢
  refine visible.imp_right fun active => ?_
  obtain ⟨time, stamped, passed⟩ := active
  exact ⟨time, stamped, decide_eq_true (Nat.le_trans (of_decide_eq_true passed) after)⟩

end Clause

namespace Derivation
variable {derivation : Derivation} {order : List ClauseId}

/-- The activated clauses are those of the order, each active from the step of its place. -/
structure Follows (derivation : Derivation) (order : List ClauseId) : Prop where
  times : ∀ id time, derivation.activeTime? id = some time ↔
    ∃ place, order[place]? = some id ∧ .ofNat (place + 1) = time
  last : derivation.lastStep = order.length
  short : order.length < UInt64.size

theorem active_time_found {id : ClauseId} {clause : Clause}
    (found : derivation.get? id = some clause) :
    derivation.activeTime? id = clause.life.active := by
  rw [activeTime?, found, Option.bind_some]

section Steps
variable (follows : derivation.Follows order)
include follows

theorem step_of_place {place : Nat} {id : ClauseId} (here : order[place]? = some id) :
    place < derivation.lastStep ∧ (UInt64.ofNat (place + 1)).toNat = place + 1 := by
  obtain ⟨inside, _⟩ := List.getElem?_eq_some_iff.mp here
  have short := follows.short
  exact ⟨follows.last ▸ inside, UInt64.toNat_ofNat_of_lt' (by omega)⟩

theorem activated_at_iff {id : ClauseId} {clause : Clause}
    (found : derivation.get? id = some clause) (step : Nat) :
    clause.life.active.any (·.toNat = step + 1) = true ↔ order[step]? = some id := by
  rw [← active_time_found found, Option.any_eq_true]
  constructor
  · intro active
    obtain ⟨time, stamped, now⟩ := active
    obtain ⟨place, here, rfl⟩ := (follows.times id time).mp stamped
    rw [decide_eq_true_eq, (step_of_place follows here).2, Nat.succ_inj] at now
    exact now ▸ here
  · intro here
    refine ⟨_, (follows.times id _).mpr ⟨step, here, rfl⟩, ?_⟩
    rw [decide_eq_true_eq, (step_of_place follows here).2]

theorem step_changes {id : ClauseId} {clause : Clause} (found : derivation.get? id = some clause)
    (step : Nat) : if order[step]? = some id
      then clause.presenceAt step ≠ .active ∧ clause.presenceAt (step + 1) = .active
      else clause.presenceAt (step + 1) = clause.presenceAt step := by
  have change := clause.presence_next step
  simpa only [activated_at_iff follows found] using change

theorem active_in_time {id : ClauseId} {clause : Clause}
    (found : derivation.get? id = some clause) {time : Time}
    (stamped : clause.life.active = some time) : time.toNat ≤ derivation.lastStep := by
  rw [← active_time_found found] at stamped
  obtain ⟨place, here, rfl⟩ := (follows.times id time).mp stamped
  obtain ⟨inside, value⟩ := step_of_place follows here
  rw [value]
  exact inside

theorem order_in_derivation {step : Nat} {id : ClauseId} (here : order[step]? = some id) :
    id ∈ derivation := by
  have stamped := (follows.times id _).mpr ⟨step, here, rfl⟩
  obtain ⟨clause, found, _⟩ := Option.bind_eq_some_iff.mp stamped
  exact (mem_table_iff _ _).mpr ⟨clause, found⟩

theorem visible_after_last {later : Nat} (after : derivation.lastStep ≤ later) :
    derivation.visibleAt later = derivation.visibleAt derivation.lastStep := by
  refine List.filter_congr fun clause mem => ?_
  obtain ⟨id, found⟩ := (mem_values _ _).mp mem
  rw [Bool.eq_iff_iff]
  refine ⟨fun visible => ?_, clause.visible_later after⟩
  rw [Clause.isVisibleAt, Clause.isActiveAt, Bool.or_eq_true, Option.any_eq_true] at visible ⊢
  refine visible.imp_right fun active => ?_
  obtain ⟨time, stamped, _⟩ := active
  exact ⟨time, stamped, decide_eq_true (active_in_time follows found stamped)⟩

end Steps

theorem visible_at_eq (derivation : Derivation) (step : Nat) : derivation.visibleAt step =
    derivation.clauses.filter fun clause => clause.presenceAt step ≠ .hidden := by
  refine List.filter_congr fun clause _ => ?_
  rw [Bool.eq_iff_iff, decide_eq_true_eq, clause.visible_iff_not_hidden]

theorem visible_at_grows (derivation : Derivation) {step later : Nat} (after : step ≤ later) :
    (derivation.visibleAt step).Sublist (derivation.visibleAt later) :=
  List.monotone_filter_right _ fun clause => clause.visible_later after

theorem last_step_of_times (coherent : derivation.Coherent) (distinct : order.Nodup)
    (times : ∀ id time, derivation.activeTime? id = some time ↔
      ∃ place, order[place]? = some id ∧ .ofNat (place + 1) = time) :
    derivation.lastStep = order.length := by
  have same : derivation.activeIds.Perm order := by
    refine (List.perm_ext_iff_of_nodup (active_ids_nodup coherent) distinct).mpr fun id => ?_
    simp [mem_active_ids coherent, Option.isSome_iff_exists, times, List.mem_iff_getElem?]
  rw [← active_ids_length, same.length_eq]

theorem built_follows {options : Options} {events : List Event} {derivation whole : Derivation}
    (apart : options.mergePreprocessing = false)
    (built : ofEvents options events = .ok derivation)
    (raw : ofEvents options.withoutCleanUp events = .ok whole) (acyclic : Acyclic whole.table)
    (short : events.length < UInt64.size) : derivation.Follows
      (activationOrder options.emptyClause (span options.emptyClause events)) := by
  have lawful := (of_events_some_iff options events).mp ⟨derivation, built⟩
  have distinct : (activationOrder options.emptyClause (span options.emptyClause events)).Nodup :=
    activating_nodup options.emptyClause lawful (span_unrefuted _ events)
  obtain ⟨table, again, rfl, read⟩ := of_events_whole built
  obtain rfl := Except.ok.inj (again.symm.trans raw)
  have coherent := reading_coherent read
  have pruned : (assemble table).cleanUp options = (assemble table).pruned options := by
    rw [cleanUp, apart, if_neg Bool.false_ne_true]
  have times : ∀ id time, ((assemble table).pruned options).activeTime? id = some time ↔
      ∃ place, (activationOrder options.emptyClause (span options.emptyClause events))[place]? =
        some id ∧ .ofNat (place + 1) = time := by
    intro id time
    rw [pruned_times coherent acyclic, active_time_assemble, read, reading_active,
      step_some_iff _ distinct]
  rw [pruned]
  refine ⟨times, last_step_of_times ?_ distinct times, ?_⟩
  · exact pruned_coherent coherent options fun _ => acyclic_traversable acyclic
  · have most := List.countP_le_length (l := span options.emptyClause events)
      (p := fun event : Event => event.activates options.emptyClause)
    rw [activation_order_length]
    exact Nat.lt_of_le_of_lt (Nat.le_trans most (span_length _ events)) short

/-- Each step of the replay makes one clause active, the one of the activation of that number, and
changes no other; what is visible grows up to the last step and then stays. Steps are numbers of 64
bits, which no list of events in memory uses up. -/
theorem replay_timeline (options : Options) (events : List Event) (derivation whole : Derivation)
    (apart : options.mergePreprocessing = false)
    (built : ofEvents options events = .ok derivation)
    (raw : ofEvents options.withoutCleanUp events = .ok whole) (acyclic : Acyclic whole.table)
    (short : events.length < UInt64.size) :
    (∀ step < derivation.lastStep, ∃ id ∈ derivation,
      (activationOrder options.emptyClause (span options.emptyClause events))[step]? = some id ∧
      ∀ other clause, derivation.get? other = some clause →
        if other = id then clause.presenceAt step ≠ .active ∧ clause.presenceAt (step + 1) = .active
        else clause.presenceAt (step + 1) = clause.presenceAt step) ∧
    (∀ step ≥ derivation.lastStep, ∀ id clause, derivation.get? id = some clause →
      clause.presenceAt (step + 1) = clause.presenceAt step) ∧
    (∀ step, derivation.visibleAt step =
      derivation.clauses.filter fun clause => clause.presenceAt step ≠ .hidden) ∧
    (∀ step later, step ≤ later →
      (derivation.visibleAt step).Sublist (derivation.visibleAt later)) ∧
    ∀ later ≥ derivation.lastStep,
      derivation.visibleAt later = derivation.visibleAt derivation.lastStep := by
  have follows := built_follows apart built raw acyclic short
  refine ⟨fun step inside => ?_, fun step after id clause found => ?_, visible_at_eq derivation,
    fun _ _ => visible_at_grows derivation, fun _ => visible_after_last follows⟩
  · rw [follows.last] at inside
    have here := List.getElem?_eq_getElem inside
    refine ⟨_, order_in_derivation follows here, here, fun other clause found => ?_⟩
    have change := step_changes follows found step
    simpa only [here, Option.some.injEq, eq_comm] using change
  · have change := step_changes follows found step
    rwa [List.getElem?_eq_none (follows.last ▸ after), if_neg (by simp)] at change

def pruningOnly : Options := { mergePreprocessing := false }

def searchRun : List Event :=
  [⟨.preprocessing, 1, "p", "input", [], ∅⟩, ⟨.preprocessing, 9, "r", "input", [], ∅⟩,
    ⟨.new, 2, "q", "resolution", [1, 1], ∅⟩, ⟨.passive, 2, "q", "resolution", [1, 1], ∅⟩,
    ⟨.active, 2, "q", "resolution", [1, 1], ∅⟩, ⟨.new, 3, "$false", "resolution", [2], ∅⟩]

theorem search_run_replayed : ∃ derivation whole, ofEvents pruningOnly searchRun = .ok derivation ∧
    ofEvents pruningOnly.withoutCleanUp searchRun = .ok whole ∧ Acyclic whole.table ∧
    derivation.lastStep = 2 ∧ ∀ other clause, derivation.get? other = some clause →
      if other = 3 then clause.presenceAt 1 ≠ .active ∧ clause.presenceAt 2 = .active
      else clause.presenceAt 2 = clause.presenceAt 1 := by
  obtain ⟨derivation, built⟩ : ∃ derivation, ofEvents pruningOnly searchRun = .ok derivation :=
    ⟨_, rfl⟩
  have smaller : ∀ event ∈ searchRun, ∀ parent ∈ event.parents, parent < event.id := by
    simp [searchRun]
  obtain ⟨table, raw, _, read⟩ := of_events_whole built
  have acyclic : Acyclic (assemble table).table :=
    acyclic_assemble (reading_acyclic read fun event mem =>
      smaller event (List.mem_of_mem_take mem))
  have short : searchRun.length < UInt64.size := by decide
  have last : derivation.lastStep = 2 := (built_follows rfl built raw acyclic short).last
  obtain ⟨id, _, here, changes⟩ :=
    (replay_timeline pruningOnly searchRun derivation _ rfl built raw acyclic short).1 1 (by omega)
  obtain rfl : 3 = id := Option.some.inj here
  exact ⟨derivation, _, built, raw, acyclic, last, changes⟩

end Derivation
end DerivationReplay
