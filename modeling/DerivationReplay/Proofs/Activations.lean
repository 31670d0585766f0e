import DerivationReplay.Proofs.Coherence
import DerivationReplay.Proofs.Survival
import Mathlib.Data.List.Perm.Subperm

/-!
Activations of a run and of the derivation that is left of it: each activating event activates one
clause, pruning keeps all of them, and contraction keeps those of the surviving clauses.
-/
namespace DerivationReplay
open Relation Chronicle

theorem ids_nodup {table : Table} (keyed : Keyed table) : (table.values.map Clause.id).Nodup := by
  have ids : table.values.map Clause.id = table.keys := by
    rw [values_of_list, List.map_map, ← Std.ExtTreeMap.map_fst_toList_eq_keys]
    refine List.map_congr_left fun entry mem => ?_
    exact keyed entry.1 entry.2 (Std.ExtTreeMap.mem_toList_iff_getElem?_eq_some.mp mem)
  rw [ids]
  exact Std.ExtTreeMap.nodup_keys

namespace Derivation

def activeTime? (derivation : Derivation) (id : ClauseId) : Option Time :=
  (derivation.get? id).bind (·.life.active)

def activeIds (derivation : Derivation) : List ClauseId := derivation.activated.map Clause.id

theorem active_ids_length (derivation : Derivation) :
    derivation.activeIds.length = derivation.lastStep := List.length_map _

section Counting
variable {derivation : Derivation} (coherent : derivation.Coherent)
include coherent

theorem mem_active_ids (id : ClauseId) :
    id ∈ derivation.activeIds ↔ (derivation.activeTime? id).isSome := by
  simp only [activeIds, activated, clauses, List.mem_map, List.mem_filter, mem_values, activeTime?]
  constructor
  · rintro ⟨clause, ⟨⟨key, found⟩, active⟩, rfl⟩
    obtain rfl := coherent.keyed key clause found
    have here : derivation.get? clause.id = some clause := found
    rwa [here]
  · intro active
    cases found : derivation.get? id with
    | none => simp [found] at active
    | some clause =>
      rw [found] at active
      exact ⟨clause, ⟨⟨id, found⟩, active⟩, coherent.keyed id clause found⟩

theorem active_ids_nodup : derivation.activeIds.Nodup :=
  (ids_nodup coherent.keyed).sublist (List.filter_sublist.map Clause.id)

theorem last_step_eq_iff {part : Derivation} (part_coherent : part.Coherent)
    (kept : ∀ id step, part.activeTime? id = some step → derivation.activeTime? id = some step) :
    part.lastStep = derivation.lastStep ↔
      ∀ id step, derivation.activeTime? id = some step → part.activeTime? id = some step := by
  have inside : part.activeIds ⊆ derivation.activeIds := by
    intro id mem
    obtain ⟨step, active⟩ := Option.isSome_iff_exists.mp ((mem_active_ids part_coherent id).mp mem)
    exact (mem_active_ids coherent id).mpr (by rw [kept id step active]; rfl)
  -- What is active in the part is active in the whole, so that comparing the lengths decides.
  have few := List.subperm_of_subset (active_ids_nodup part_coherent) inside
  rw [← active_ids_length, ← active_ids_length]
  constructor
  · intro same id step active
    have all := few.perm_of_length_le (Nat.le_of_eq same.symm)
    have mem : id ∈ part.activeIds :=
      all.mem_iff.mpr ((mem_active_ids coherent id).mpr (by rw [active]; rfl))
    obtain ⟨own, found⟩ := Option.isSome_iff_exists.mp ((mem_active_ids part_coherent id).mp mem)
    rw [found, ← kept id own found, active]
  · intro all
    have whole : derivation.activeIds ⊆ part.activeIds := by
      intro id mem
      obtain ⟨step, active⟩ := Option.isSome_iff_exists.mp ((mem_active_ids coherent id).mp mem)
      exact (mem_active_ids part_coherent id).mpr (by rw [all id step active]; rfl)
    have many := List.subperm_of_subset (active_ids_nodup coherent) whole
    exact Nat.le_antisymm few.length_le many.length_le

end Counting
end Derivation

namespace Chronicle
variable (emptyClause : String)

theorem span_unrefuted (events : List Event) :
    ∀ event ∈ (span emptyClause events).dropLast, event.refutes emptyClause = false := by
  -- The span ends with its first refutation: whatever comes before was passed over.
  induction events with
  | nil => simp [span_nil]
  | cons first events ih =>
    rw [span_cons]
    cases ends : first.refutes emptyClause
    · simp only [Bool.false_eq_true, if_false]
      cases rest : span emptyClause events with
      | nil => simp
      | cons second rest =>
        rw [List.dropLast_cons_of_ne_nil (by simp), ← rest]
        intro event mem
        rcases List.mem_cons.mp mem with rfl | mem
        · exact ends
        · exact ih event mem
    · simp

theorem activating_kind {event : Event} (hit : event.activates emptyClause = true) :
    event.kind = .active ∨ event.kind = .new := by
  simp only [Event.activates, Event.refutes, Bool.or_eq_true, Bool.and_eq_true,
    decide_eq_true_eq] at hit
  exact hit.imp_right And.left

theorem activated_first {told : List Event} (lawful : Lawful told) {event : Event}
    (admissible : Admissible told event) (hit : event.activates emptyClause = true) :
    ∀ other ∈ ofClause event.id told, other.kind ≠ .active := by
  have ordered := lawful.ordered event.id
  rcases activating_kind emptyClause hit with kind | kind
  · rw [Admissible, if_neg (by simp [kind, EventKind.details])] at admissible
    exact (admissible.active kind).2
  · rw [Admissible, if_neg (by simp [kind, EventKind.details])] at admissible
    have passive := preceded_none ordered.new_before_passive (admissible.new kind)
    exact preceded_none ordered.passive_before_active passive

theorem activating_nodup {told : List Event} (lawful : Lawful told)
    (unrefuted : ∀ event ∈ told.dropLast, event.refutes emptyClause = false) :
    ((told.filter (·.activates emptyClause)).map Event.id).Nodup := by
  induction told using List.reverseRecOn with
  | nil => exact List.nodup_nil
  | append_singleton told event ih =>
    obtain ⟨lawful, admissible⟩ := (lawful_snoc told event).mp lawful
    rw [List.dropLast_concat] at unrefuted
    have earlier := ih lawful fun event mem => unrefuted event (List.dropLast_subset told mem)
    rw [List.filter_append, List.map_append]
    cases hit : event.activates emptyClause
    · simpa [hit] using earlier
    · -- Before the refutation only `active` events activate, and a clause has one at most.
      have fresh : event.id ∉ (told.filter (·.activates emptyClause)).map Event.id := by
        intro mem
        obtain ⟨other, mem, same⟩ := List.mem_map.mp mem
        obtain ⟨mem, active⟩ := List.mem_filter.mp mem
        have kind : other.kind = .active := by
          simpa [Event.activates, unrefuted other mem] using active
        have own : other ∈ ofClause event.id told := (mem_of_clause event.id other).mpr
          ⟨mem, by simp [kind, EventKind.details], same⟩
        exact activated_first emptyClause lawful admissible hit other own kind
      have more := List.Nodup.concat fresh earlier
      simpa [hit] using more

theorem reading_active (told : List Event) (id : ClauseId) :
    (clause? emptyClause told id).bind (·.life.active) = step? emptyClause told id := by
  cases found : declaration? told id with
  | none =>
    have placeholder : ((clause? emptyClause told id).bind (·.life.active)) = none := by
      rw [clause?, written?, found]
      by_cases listed : told.any (·.lists id) = true <;> simp [listed, Clause.placeholder]
    -- Whatever activates a clause declares it, so an undeclared one is never activated.
    have undeclared : ∀ event ∈ told, ¬ event.declares id = true := List.find?_eq_none.mp found
    rw [placeholder, eq_comm, step?, Option.map_eq_none_iff, List.findIdx?_eq_none_iff]
    intro event mem
    by_contra some
    obtain ⟨hit, same⟩ := Bool.and_eq_true_iff.mp (Bool.of_not_eq_false some)
    refine undeclared event mem ?_
    rcases activating_kind emptyClause hit with kind | kind <;>
      simpa [Event.declares, EventKind.declares, kind] using same
  | some first =>
    have written : clause? emptyClause told id = some (declared emptyClause told first) := by
      simp [clause?, written?, found]
    rw [written, Option.bind_some, declared, declaration_id told id first found, life]

theorem activating_iff_active (told : List Event) (id : ClauseId) :
    id ∈ (told.filter (·.activates emptyClause)).map Event.id ↔
      ((clause? emptyClause told id).bind (·.life.active)).isSome := by
  rw [reading_active]
  simp [step?, and_assoc]

end Chronicle

namespace Derivation

theorem active_time_bare (derivation : Derivation) (id : ClauseId) :
    derivation.activeTime? id = (derivation.bare? id).bind (·.life.active) := by
  rw [activeTime?, bare?]
  cases derivation.get? id <;> rfl

theorem active_time_assemble (table : Table) (id : ClauseId) :
    (assemble table).activeTime? id = table[id]?.bind (·.life.active) := by
  rw [activeTime?, get_assemble]
  cases table[id]? <;> rfl

section Pruning
variable {whole : Derivation} (coherent : whole.Coherent) (acyclic : Acyclic whole.table)
include coherent acyclic

theorem activated_part_acyclic : Acyclic whole.activatedPart.table := by
  exact ancestor_closure_acyclic coherent (acyclic_traversable acyclic) _

theorem activated_part_times (id : ClauseId) :
    whole.activatedPart.activeTime? id = whole.activeTime? id := by
  refine Option.ext fun step => ?_
  simp only [active_time_bare, Option.bind_eq_some_iff, activatedPart,
    ancestor_closure_bare_iff coherent acyclic]
  constructor
  · intro active
    obtain ⟨shown, ⟨here, _⟩, stamped⟩ := active
    exact ⟨shown, here, stamped⟩
  · intro active
    obtain ⟨shown, here, stamped⟩ := active
    have seed : id ∈ whole.activeIds := by
      rw [mem_active_ids coherent, active_time_bare, here, Option.bind_some, stamped]
      rfl
    exact ⟨shown, ⟨here, id, (mem_of_list _ id).mpr seed, ReflTransGen.refl⟩, stamped⟩

variable (options : Options)

theorem pruned_acyclic : Acyclic (whole.pruned options).table := by
  unfold pruned
  split
  · exact activated_part_acyclic coherent acyclic
  · exact acyclic

theorem pruned_times (id : ClauseId) :
    (whole.pruned options).activeTime? id = whole.activeTime? id := by
  unfold pruned
  split
  · exact activated_part_times coherent acyclic id
  · rfl

theorem clean_up_times (id : ClauseId) (step : Time) :
    (whole.cleanUp options).activeTime? id = some step ↔ whole.activeTime? id = some step ∧
      (options.mergePreprocessing = false ∨
        Survives (whole.pruned options) options.choiceAxiomRule id) := by
  have part := pruned_coherent coherent options fun _ => acyclic_traversable acyclic
  have part_acyclic := pruned_acyclic coherent acyclic options
  rw [cleanUp, ← pruned_times coherent acyclic options]
  split
  · rename_i merge
    have lives := contraction_keeps_iff options.choiceAxiomRule part part_acyclic id
    have read : ∀ derivation : Derivation, derivation.activeTime? id = some step ↔
        ∃ life, (derivation.get? id).map Clause.life = some life ∧ life.active = some step := by
      intro derivation
      simp [activeTime?, Option.bind_eq_some_iff]
    rw [read, read]
    simp only [lives, merge, Bool.true_eq_false, false_or]
    constructor
    · intro here
      obtain ⟨life, ⟨known, survives⟩, active⟩ := here
      exact ⟨⟨life, known, active⟩, survives⟩
    · intro here
      obtain ⟨⟨life, known, active⟩, survives⟩ := here
      exact ⟨life, ⟨known, survives⟩, active⟩
  · rename_i apart
    simp [apart]

end Pruning

theorem activations_counted {options : Options} {events : List Event} {final : Reconstruction}
    (recorded : Reconstruction.recordAll { options } 0 events = .ok final) :
    (assemble final.table).lastStep = final.activations := by
  obtain ⟨reflects, lawful⟩ := Reconstruction.run_recorded recorded
  have coherent := reading_coherent (recorded_table recorded)
  have distinct := activating_nodup options.emptyClause lawful (span_unrefuted _ events)
  have same : (assemble final.table).activeIds.Perm (((span options.emptyClause events).filter
      (·.activates options.emptyClause)).map Event.id) := by
    refine (List.perm_ext_iff_of_nodup (active_ids_nodup coherent) distinct).mpr fun id => ?_
    rw [mem_active_ids coherent, activating_iff_active, active_time_assemble,
      recorded_table recorded]
  rw [← active_ids_length, same.length_eq, List.length_map, reflects.activations, reflects.options,
    List.countP_eq_length_filter]

/-- An activated clause is lost to the clean-up exactly if it does not survive the contraction, and
the last step of the replay is the number of activations exactly if none is lost. -/
theorem activations_after_clean_up (options : Options) (events : List Event)
    (final : Reconstruction)
    (recorded : Reconstruction.recordAll { options } 0 events = .ok final)
    (acyclic : Acyclic final.table) :
    (∀ id step, (assemble final.table).activeTime? id = some step →
      (final.finish.activeTime? id = some step ↔ options.mergePreprocessing = false ∨
        Survives ((assemble final.table).pruned options) options.choiceAxiomRule id)) ∧
    (final.finish.lastStep = final.activations ↔ options.mergePreprocessing = false ∨
      ∀ id step, (assemble final.table).activeTime? id = some step →
        Survives ((assemble final.table).pruned options) options.choiceAxiomRule id) := by
  have coherent := reading_coherent (recorded_table recorded)
  have whole_acyclic := acyclic_assemble acyclic
  have times := clean_up_times coherent whole_acyclic options
  have cleaned : ((assemble final.table).cleanUp options).Coherent :=
    clean_up_coherent coherent options fun _ => acyclic_traversable whole_acyclic
  rw [recorded_finish recorded, ← activations_counted recorded,
    last_step_eq_iff coherent cleaned fun id step active => ((times id step).mp active).1]
  constructor
  · intro id step active
    rw [times, and_iff_right active]
  · constructor
    · intro all
      cases merge : options.mergePreprocessing with
      | false => exact .inl rfl
      | true =>
        refine .inr fun id step active => ?_
        simpa [merge] using ((times id step).mp (all id step active)).2
    · intro survive id step active
      exact (times id step).mpr ⟨active, survive.imp_right fun all => all id step active⟩

def lostRun : List Event :=
  [⟨.preprocessing, 1, "p", "input", [], ∅⟩, ⟨.preprocessing, 2, "q", "cnf", [1], ∅⟩,
    ⟨.preprocessing, 3, "r", "cnf", [2], ∅⟩, ⟨.new, 2, "q", "cnf", [1], ∅⟩,
    ⟨.passive, 2, "q", "cnf", [1], ∅⟩, ⟨.active, 2, "q", "cnf", [1], ∅⟩,
    ⟨.new, 3, "r", "cnf", [2], ∅⟩, ⟨.passive, 3, "r", "cnf", [2], ∅⟩,
    ⟨.active, 3, "r", "cnf", [2], ∅⟩, ⟨.new, 4, "$false", "resolution", [3], ∅⟩]

theorem lost_run_recorded : ∃ final,
    Reconstruction.recordAll { options := {} } 0 lostRun = .ok final ∧
    (assemble final.table).activeTime? 2 = some 1 ∧ final.finish.activeTime? 2 = none ∧
    final.finish.lastStep = 2 ∧ final.activations = 3 := by
  refine ⟨_, rfl, ?_, ?_, ?_, ?_⟩ <;> cbv

theorem lost_run_acyclic {final : Reconstruction}
    (recorded : Reconstruction.recordAll { options := {} } 0 lostRun = .ok final) :
    Acyclic final.table := by
  have smaller : ∀ event ∈ lostRun, ∀ parent ∈ event.parents, parent < event.id := by
    simp [lostRun]
  exact reading_acyclic (recorded_table recorded) fun event mem =>
    smaller event (List.mem_of_mem_take mem)

/-- The clean-up drops the first activated clause: the refutation, activated at step 3, is never
shown, since the replay ends at step 2. -/
theorem clean_up_loses_activation : ¬ ∀ (options : Options) (events : List Event)
    (final : Reconstruction), Reconstruction.recordAll { options } 0 events = .ok final →
      Acyclic final.table →
      (∀ id step, (assemble final.table).activeTime? id = some step →
        final.finish.activeTime? id = some step) ∧
      final.finish.lastStep = final.activations := by
  intro claim
  obtain ⟨final, recorded, _, _, last, activations⟩ := lost_run_recorded
  have equal := (claim {} lostRun final recorded (lost_run_acyclic recorded)).2
  rw [last, activations] at equal
  cases equal

theorem lost_run_not_surviving : ∃ final,
    Reconstruction.recordAll { options := {} } 0 lostRun = .ok final ∧
      ¬ Survives ((assemble final.table).pruned {}) "choice axiom" 2 := by
  obtain ⟨final, recorded, active, lost, _⟩ := lost_run_recorded
  refine ⟨final, recorded, fun survives => ?_⟩
  have kept := ((activations_after_clean_up {} lostRun final recorded
    (lost_run_acyclic recorded)).1 2 1 active).mpr (.inr survives)
  rw [lost] at kept
  cases kept

end Derivation
end DerivationReplay
