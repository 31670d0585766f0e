import DerivationReplay.Proofs.Timeline

/-!
The replay of a view. A view keeps the steps at which its clauses were activated in the whole run,
but counts only its own activations. So the last step of a view shows all of its activated clauses
exactly if the view leaves out no activation that comes before one of its own.
-/
namespace DerivationReplay
open Chronicle

theorem first_places_iff {order ids : List ClauseId} (distinct : order.Nodup)
    (own_distinct : ids.Nodup) (part : ids ⊆ order) :
    (∀ (place : Nat) (id : ClauseId), order[place]? = some id → id ∈ ids → place < ids.length) ↔
      ∀ (place : Nat) (id : ClauseId), order[place]? = some id → id ∈ ids →
        ∀ (before : Nat) (other : ClauseId), before ≤ place → order[before]? = some other →
          other ∈ ids := by
  constructor
  · -- All of `ids` stand among as many first places, so they fill these.
    intro first place id here mem before other earlier there
    have inside : ids ⊆ order.take ids.length := by
      intro id mem
      obtain ⟨place, here⟩ := List.mem_iff_getElem?.mp (part mem)
      refine List.mem_iff_getElem?.mpr ⟨place, ?_⟩
      rw [List.getElem?_take_of_lt (first place id here mem), here]
    have few := List.subperm_of_subset own_distinct inside
    have all := few.perm_of_length_le (List.length_take_le ids.length order)
    refine all.mem_iff.mpr (List.mem_iff_getElem?.mpr ⟨before, ?_⟩)
    rw [List.getElem?_take_of_lt (Nat.lt_of_le_of_lt earlier (first place id here mem)), there]
  · -- Everything up to the place is in `ids`, which are therefore more than the place.
    intro gapless place id here mem
    have inside : order.take (place + 1) ⊆ ids := by
      intro other taken
      obtain ⟨before, there⟩ := List.mem_iff_getElem?.mp taken
      rw [List.getElem?_take] at there
      split at there
      · exact gapless place id here mem before other (Nat.le_of_lt_succ ‹_›) there
      · cases there
    have many := List.subperm_of_subset (distinct.sublist (List.take_sublist _ _)) inside
    have length : (order.take (place + 1)).length = place + 1 := by
      rw [List.length_take]
      exact Nat.min_eq_left (List.getElem?_eq_some_iff.mp here).1
    rw [← Nat.succ_le_iff, Nat.succ_eq_add_one, ← length]
    exact many.length_le

theorem Clause.presence_active_iff (clause : Clause) (step : Nat) :
    clause.presenceAt step = .active ↔ clause.isActiveAt step = true := by
  unfold presenceAt
  cases clause.isActiveAt step <;> cases clause.fromPreprocessing <;> decide

namespace Derivation

section Times
variable {derivation : Derivation} (coherent : derivation.Coherent)
  (acyclic : Acyclic derivation.table) (given : ClauseIds) {id : ClauseId}
include coherent acyclic

theorem ancestor_closure_times (mem : id ∈ derivation.ancestorClosure given) :
    (derivation.ancestorClosure given).activeTime? id = derivation.activeTime? id := by
  obtain ⟨shown, here⟩ := (mem_iff_bare _ id).mp mem
  obtain ⟨known, _⟩ := (ancestor_closure_bare_iff coherent acyclic given id shown).mp here
  rw [active_time_bare, active_time_bare, here, known]

theorem descendant_closure_times (mem : id ∈ derivation.descendantClosure given) :
    (derivation.descendantClosure given).activeTime? id = derivation.activeTime? id := by
  obtain ⟨shown, here⟩ := (mem_iff_bare _ id).mp mem
  obtain ⟨clause, known, stands⟩ :=
    (descendant_closure_bare_iff coherent acyclic given id shown).mp here
  rw [active_time_bare, active_time_bare, here, known]
  rcases stands with ⟨_, rfl⟩ | ⟨_, rfl⟩ <;> rfl

end Times

/-- The derivation itself and the views taken of it one after the other. -/
inductive ViewOf (whole : Derivation) : Derivation → Prop
  | whole : ViewOf whole whole
  | ancestors {source view : Derivation} (taken : ViewOf whole source) (ids : List ClauseId)
      (answer : source.ancestorView ids = .ok view) : ViewOf whole view
  | descendants {source view : Derivation} (taken : ViewOf whole source) (ids : List ClauseId)
      (answer : source.descendantView ids = .ok view) : ViewOf whole view
  | activated {source : Derivation} (taken : ViewOf whole source) :
      ViewOf whole source.activatedPart

structure TimedPart (whole part : Derivation) : Prop where
  coherent : part.Coherent
  acyclic : Acyclic part.table
  times : ∀ id ∈ part, part.activeTime? id = whole.activeTime? id

theorem timed_ancestors {whole source : Derivation} (part : TimedPart whole source)
    (given : ClauseIds) : TimedPart whole (source.ancestorClosure given) where
  coherent := ancestor_closure_coherent part.coherent (acyclic_traversable part.acyclic) given
  acyclic := ancestor_closure_acyclic part.coherent (acyclic_traversable part.acyclic) given
  times id mem := by
    have inside := ((mem_ancestor_closure part.coherent part.acyclic given id).mp mem).1
    rw [ancestor_closure_times part.coherent part.acyclic given mem, part.times id inside]

theorem timed_descendants {whole source : Derivation} (part : TimedPart whole source)
    (given : ClauseIds) : TimedPart whole (source.descendantClosure given) where
  coherent := descendant_closure_coherent part.coherent (acyclic_traversable part.acyclic) given
  acyclic := descendant_closure_acyclic part.coherent part.acyclic given
  times id mem := by
    have inside := ((mem_descendant_closure part.coherent part.acyclic given id).mp mem).1
    rw [descendant_closure_times part.coherent part.acyclic given mem, part.times id inside]

theorem view_timed {whole view : Derivation} (coherent : whole.Coherent)
    (acyclic : Acyclic whole.table) (taken : ViewOf whole view) : TimedPart whole view := by
  induction taken with
  | whole => exact ⟨coherent, acyclic, fun _ _ => rfl⟩
  | ancestors _ ids answer part =>
    obtain ⟨_, rfl⟩ := (request_ok_iff _ ids _ _).mp answer
    exact timed_ancestors part _
  | descendants _ ids answer part =>
    obtain ⟨_, rfl⟩ := (request_ok_iff _ ids _ _).mp answer
    exact timed_descendants part _
  | activated _ part => exact timed_ancestors part _

section Follows
variable {whole : Derivation} {order : List ClauseId} (follows : whole.Follows order)
include follows

theorem place_of_time {id : ClauseId} {place : Nat} {time : Time}
    (here : order[place]? = some id) (stamped : whole.activeTime? id = some time) :
    time.toNat = place + 1 := by
  have own := (follows.times id _).mpr ⟨place, here, rfl⟩
  rw [← Option.some.inj (own.symm.trans stamped)]
  exact (step_of_place follows here).2

theorem order_nodup : order.Nodup := by
  rw [List.nodup_iff_getElem?_ne_getElem?]
  intro first second before inside same
  have here := List.getElem?_eq_getElem inside
  have stamped := (follows.times _ _).mpr ⟨second, here, rfl⟩
  have early := place_of_time follows (same.trans here) stamped
  have late := place_of_time follows here stamped
  omega

variable {view : Derivation} (part : TimedPart whole view)
include part

theorem view_active_iff (id : ClauseId) : id ∈ view.activeIds ↔ id ∈ view ∧ id ∈ order := by
  rw [mem_active_ids part.coherent]
  constructor
  · intro active
    have mem : id ∈ view := by
      obtain ⟨time, stamped⟩ := Option.isSome_iff_exists.mp active
      obtain ⟨clause, found, _⟩ := Option.bind_eq_some_iff.mp stamped
      exact (mem_table_iff view.table id).mpr ⟨clause, found⟩
    rw [part.times id mem] at active
    obtain ⟨time, stamped⟩ := Option.isSome_iff_exists.mp active
    obtain ⟨place, here, _⟩ := (follows.times id time).mp stamped
    exact ⟨mem, List.mem_of_getElem? here⟩
  · intro known
    obtain ⟨mem, listed⟩ := known
    obtain ⟨place, here⟩ := List.mem_iff_getElem?.mp listed
    rw [part.times id mem, (follows.times id _).mpr ⟨place, here, rfl⟩]
    rfl

theorem shown_at_place {place : Nat} {id : ClauseId} {clause : Clause}
    (here : order[place]? = some id) (found : view.get? id = some clause) (step : Nat) :
    clause.presenceAt step = .active ↔ place < step := by
  have mem : id ∈ view := (mem_table_iff view.table id).mpr ⟨clause, found⟩
  have stamped : clause.life.active = some (.ofNat (place + 1)) := by
    rw [← active_time_found found, part.times id mem, follows.times]
    exact ⟨place, here, rfl⟩
  rw [Clause.presence_active_iff, Clause.isActiveAt, stamped, Option.any_some, decide_eq_true_eq,
    (step_of_place follows here).2, Nat.succ_le_iff]

theorem view_shown_iff (step : Nat) : (∀ id clause, view.get? id = some clause →
      clause.isActivated = true → clause.presenceAt step = .active) ↔
    ∀ (place : Nat) (id : ClauseId), order[place]? = some id → id ∈ view.activeIds →
      place < step := by
  constructor
  · intro shown place id here active
    obtain ⟨clause, found⟩ :=
      (mem_table_iff view.table id).mp ((view_active_iff follows part id).mp active).1
    have activated : clause.isActivated = true := by
      rw [mem_active_ids part.coherent, active_time_found found] at active
      exact active
    exact (shown_at_place follows part here found step).mp (shown id clause found activated)
  · intro short id clause found activated
    have active : id ∈ view.activeIds := by
      rw [mem_active_ids part.coherent, active_time_found found]
      exact activated
    obtain ⟨place, here⟩ :=
      List.mem_iff_getElem?.mp ((view_active_iff follows part id).mp active).2
    exact (shown_at_place follows part here found step).mpr (short place id here active)

theorem view_gapless_iff : (∀ (place : Nat) (id : ClauseId), order[place]? = some id →
      id ∈ view.activeIds → ∀ (before : Nat) (other : ClauseId), before ≤ place →
        order[before]? = some other → other ∈ view.activeIds) ↔
    ∀ id ∈ view, ∀ time, whole.activeTime? id = some time → ∀ other earlier,
      whole.activeTime? other = some earlier → earlier ≤ time → other ∈ view := by
  constructor
  · intro gapless id mem time stamped other earlier other_stamped before
    obtain ⟨place, here, rfl⟩ := (follows.times id time).mp stamped
    obtain ⟨first, there, rfl⟩ := (follows.times other earlier).mp other_stamped
    have active := (view_active_iff follows part id).mpr ⟨mem, List.mem_of_getElem? here⟩
    -- Steps are places counted from one, so their order is that of the places.
    rw [UInt64.le_iff_toNat_le, (step_of_place follows here).2, (step_of_place follows there).2,
      Nat.add_le_add_iff_right] at before
    exact ((view_active_iff follows part other).mp
      (gapless place id here active first other before there)).1
  · intro gapless place id here active before other early there
    refine (view_active_iff follows part other).mpr ⟨?_, List.mem_of_getElem? there⟩
    refine gapless id ((view_active_iff follows part id).mp active).1 _
      ((follows.times id _).mpr ⟨place, here, rfl⟩) other _
      ((follows.times other _).mpr ⟨before, there, rfl⟩) ?_
    rw [UInt64.le_iff_toNat_le, (step_of_place follows here).2, (step_of_place follows there).2]
    exact Nat.succ_le_succ early

end Follows

/-- The last step of the whole run shows every activated clause of a view. The last step of the
view itself does so exactly if the view holds whatever was activated before one of its clauses. -/
theorem last_step_covers_iff (options : Options) (events : List Event) (whole view : Derivation)
    (built : ofEvents options.withoutCleanUp events = .ok whole) (acyclic : Acyclic whole.table)
    (short : events.length < UInt64.size) (taken : ViewOf whole view) :
    (∀ id clause, view.get? id = some clause → clause.isActivated = true →
      clause.presenceAt whole.lastStep = .active) ∧
    ((∀ id clause, view.get? id = some clause → clause.isActivated = true →
      clause.presenceAt view.lastStep = .active) ↔
      ∀ id ∈ view, ∀ time, whole.activeTime? id = some time → ∀ other earlier,
        whole.activeTime? other = some earlier → earlier ≤ time → other ∈ view) := by
  have follows := built_follows rfl built built acyclic short
  have coherent : whole.Coherent := events_coherent built (by rintro (on | on) <;> cases on)
  have part := view_timed coherent acyclic taken
  have inside : view.activeIds ⊆ _ := fun id active =>
    ((view_active_iff follows part id).mp active).2
  constructor
  · rw [view_shown_iff follows part]
    intro place id here _
    exact (step_of_place follows here).1
  · rw [view_shown_iff follows part, ← active_ids_length, ← view_gapless_iff follows part]
    exact first_places_iff (order_nodup follows) (active_ids_nodup part.coherent) inside

def independentRun : List Event :=
  [⟨.new, 1, "p", "input", [], ∅⟩, ⟨.passive, 1, "p", "input", [], ∅⟩,
    ⟨.active, 1, "p", "input", [], ∅⟩, ⟨.new, 2, "q", "input", [], ∅⟩,
    ⟨.passive, 2, "q", "input", [], ∅⟩, ⟨.active, 2, "q", "input", [], ∅⟩]

theorem independent_run_view : ∃ whole view clause,
    ofEvents Options.raw.withoutCleanUp independentRun = .ok whole ∧
    whole.ancestorView [2] = .ok view ∧ view.get? 2 = some clause ∧ view.get? 1 = none ∧
    clause.isActivated = true ∧ whole.activeTime? 1 = some 1 ∧ whole.activeTime? 2 = some 2 ∧
    clause.presenceAt view.lastStep = .hidden := by
  refine ⟨_, _, _, rfl, rfl, rfl, ?_, ?_, ?_, ?_, ?_⟩ <;> cbv

theorem independent_run_acyclic {whole : Derivation}
    (built : ofEvents Options.raw.withoutCleanUp independentRun = .ok whole) :
    Acyclic whole.table := by
  obtain ⟨table, _, rfl, read⟩ := of_events_whole built
  have smaller : ∀ event ∈ independentRun, ∀ parent ∈ event.parents, parent < event.id := by
    simp [independentRun]
  exact acyclic_assemble (reading_acyclic read fun event mem =>
    smaller event (List.mem_of_mem_take mem))

/-- The view of the second clause counts one activation, so that its last step is 1; but the clause
becomes active at step 2, and it is never shown. -/
theorem view_hides_activation : ¬ ∀ (options : Options) (events : List Event)
    (whole view : Derivation), ofEvents options.withoutCleanUp events = .ok whole →
      Acyclic whole.table → ViewOf whole view → ∀ id clause, view.get? id = some clause →
        clause.isActivated = true → clause.presenceAt view.lastStep = .active := by
  intro claim
  obtain ⟨whole, view, clause, built, answer, found, _, activated, _, _, hidden⟩ :=
    independent_run_view
  have active := claim .raw independentRun whole view built (independent_run_acyclic built)
    (.ancestors .whole [2] answer) 2 clause found activated
  rw [hidden] at active
  cases active

theorem independent_run_shown : ∃ whole view clause,
    ofEvents Options.raw.withoutCleanUp independentRun = .ok whole ∧ ViewOf whole view ∧
    view.get? 2 = some clause ∧ clause.presenceAt whole.lastStep = .active ∧
    ¬ ∀ id clause, view.get? id = some clause → clause.isActivated = true →
      clause.presenceAt view.lastStep = .active := by
  obtain ⟨whole, view, clause, built, answer, found, missing, activated, first, second, _⟩ :=
    independent_run_view
  have taken : ViewOf whole view := .ancestors .whole [2] answer
  obtain ⟨shown, covers⟩ := last_step_covers_iff .raw independentRun whole view built
    (independent_run_acyclic built) (by decide) taken
  refine ⟨whole, view, clause, built, taken, found, shown 2 clause found activated, fun all => ?_⟩
  have inside : 2 ∈ view := (mem_table_iff view.table 2).mpr ⟨clause, found⟩
  obtain ⟨other, here⟩ := (mem_table_iff view.table 1).mp
    (covers.mp all 2 inside 2 second 1 1 first (by decide))
  cases missing.symm.trans here

end Derivation
end DerivationReplay
