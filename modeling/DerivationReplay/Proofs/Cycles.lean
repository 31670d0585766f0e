import DerivationReplay.Proofs.Coherence

/-!
Cycles. A walk that empties its stack has come to every seed, and the order of its trail leaves no
room for a cycle under one: the walk over a derivation ends exactly if no leaf derives from a cycle.
Nothing keeps a run from declaring a clause as its own ancestor. Without clean-up such a cycle stays
in the derivation; a clean-up either never comes to an end or leaves no cycle.
-/
namespace DerivationReplay
open Relation

theorem finished_grounded {table : Table} {trail : List Clause} (finished : Finished table trail) :
    ∀ id ∈ trail.map Clause.id, Grounded table id := by
  induction finished with
  | nil => simp
  | @cons clause trail found _ after _ ih =>
    intro id mem
    rcases List.mem_cons.mp mem with rfl | mem
    · refine Acc.intro clause.id fun parent edge => ?_
      by_cases known : parent ∈ table
      · obtain ⟨other, here, listed⟩ := edge
        obtain rfl := Option.some.inj (found.symm.trans here)
        exact ih parent (after parent listed known)
      · exact Acc.intro parent fun _ above => absurd (child_in_table above) known
    · exact ih id mem

namespace Walk
variable {table : Table} {seeds : List ClauseId}

/-- What each step keeps: the visited clauses are those of a trail in order, and no seed is lost. -/
structure Underway (table : Table) (seeds : List ClauseId) (walk : Walk) : Prop where
  same : ∀ id, id ∈ walk.visited ↔ id ∈ walk.trail.map Clause.id
  finished : Finished table walk.trail
  seeds : ∀ seed ∈ seeds, seed ∈ table → seed ∈ walk.pending ∨ seed ∈ walk.visited

theorem start_underway (seeds : List ClauseId) :
    Underway table seeds { pending := seeds.reverse } where
  same := by simp
  finished := .nil
  seeds seed given _ := .inl (List.mem_reverse.mpr given)

theorem visit_underway (keyed : Keyed table) {id : ClauseId} {rest : List ClauseId}
    {visited : ClauseIds} {trail : List Clause} {clause : Clause} (fresh : id ∉ visited)
    (found : table[id]? = some clause) (none : waitingParents table visited clause = [])
    (underway : Underway table seeds ⟨id :: rest, visited, trail⟩) :
    Underway table seeds ⟨rest, visited.insert id, clause :: trail⟩ := by
  obtain ⟨same, finished, kept⟩ := underway
  obtain rfl : clause.id = id := keyed id clause found
  constructor
  · intro other
    rw [mem_visited_insert, List.map_cons, List.mem_cons, same, eq_comm]
  · refine .cons found (fun mem => fresh ((same _).mpr mem)) (fun parent listed known => ?_)
      finished
    -- A parent in the table that had not been visited would be waiting.
    by_contra unseen
    have waiting := (mem_waiting_parents clause parent).mpr
      ⟨listed, mt (same parent).mp unseen, known⟩
    simp [none] at waiting
  · intro seed given known
    rw [mem_visited_insert]
    rcases kept seed given known with waits | mem
    · rcases List.mem_cons.mp waits with rfl | waits
      · exact .inr (.inl rfl)
      · exact .inl waits
    · exact .inr (.inr mem)

theorem step_underway (keyed : Keyed table) {walk : Walk} (underway : Underway table seeds walk) :
    Underway table seeds (step table walk) := by
  obtain ⟨pending, visited, trail⟩ := walk
  cases pending with
  | nil => exact underway
  | cons id rest =>
    by_cases known : id ∈ visited ∨ id ∉ table
    · rw [step_known rest trail known]
      refine ⟨underway.same, underway.finished, fun seed given inTable => ?_⟩
      rcases underway.seeds seed given inTable with waits | mem
      · rcases List.mem_cons.mp waits with rfl | waits
        · exact .inr (known.resolve_right fun out => out inTable)
        · exact .inl waits
      · exact .inr mem
    · rw [not_or, not_not] at known
      obtain ⟨fresh, inTable⟩ := known
      obtain ⟨clause, found⟩ := (mem_table_iff table id).mp inTable
      rw [step_found rest trail fresh found]
      split
      · rename_i none
        exact visit_underway keyed fresh found none underway
      · refine ⟨underway.same, underway.finished, fun seed given inTable => ?_⟩
        exact (underway.seeds seed given inTable).imp_left (List.mem_append_right _)

theorem run_underway (keyed : Keyed table) (steps : Nat) {walk : Walk}
    (underway : Underway table seeds walk) : Underway table seeds (run table steps walk) := by
  induction steps generalizing walk with
  | zero => exact underway
  | succ steps ih =>
    rw [run]
    split
    · exact underway
    · exact ih (step_underway keyed underway)

/-- A walk ends, however many steps it is allowed, only if every climb from its seeds does. -/
theorem walk_ends_iff (keyed : Keyed table) :
    (∃ steps, (run table steps { pending := seeds.reverse }).pending = []) ↔
      ∀ seed ∈ seeds, Grounded table seed := by
  constructor
  · intro ended
    obtain ⟨steps, ended⟩ := ended
    obtain ⟨same, finished, kept⟩ := run_underway keyed steps (start_underway seeds)
    intro seed given
    by_cases known : seed ∈ table
    · rw [ended] at kept
      have mem := (kept seed given known).resolve_left List.not_mem_nil
      exact finished_grounded finished seed ((same seed).mp mem)
    · exact Acc.intro seed fun _ above => absurd (child_in_table above) known
  · intro grounded
    obtain ⟨visited, trail, _, ended⟩ := Derivation.walk_ends grounded
    exact ⟨_, by rw [ended]⟩

end Walk

namespace Derivation
open Chronicle

def Ends (derivation : Derivation) : Prop :=
  ∃ steps, (Walk.run derivation.table steps
    { pending := derivation.leaves.toList.reverse }).pending = []

theorem ends_iff_traversable {derivation : Derivation} (coherent : derivation.Coherent) :
    derivation.Ends ↔ derivation.Traversable := by
  rw [Ends, Walk.walk_ends_iff (coherent_keyed coherent), Traversable]
  simp only [Std.ExtTreeSet.mem_toList, no_cycle_under_iff]

/-- A clean-up starts with a walk over the whole derivation. It has a result only if the walk has
an end. -/
def CleanUpEnds (options : Options) (events : List Event) : Prop :=
  options.pruneInactive ∨ options.mergePreprocessing →
    ∀ whole, ofEvents options.withoutCleanUp events = .ok whole → whole.Ends

section Built
variable {options : Options} {events : List Event} {derivation : Derivation}
  (built : ofEvents options events = .ok derivation)
include built

theorem clean_up_ends_of_no_cycle (none : TellsNoCycle (span options.emptyClause events)) :
    CleanUpEnds options events := by
  intro _ whole raw
  obtain ⟨table, again, _, read⟩ := of_events_whole built
  obtain rfl := Except.ok.inj (again.symm.trans raw)
  have acyclic := acyclic_assemble ((reading_acyclic_iff read).mpr none)
  exact (ends_iff_traversable (reading_coherent read)).mpr (acyclic_traversable acyclic)

theorem built_acyclic_iff (ends : CleanUpEnds options events) : Acyclic derivation.table ↔
    options.pruneInactive ∨ options.mergePreprocessing ∨
      TellsNoCycle (span options.emptyClause events) := by
  obtain ⟨table, raw, rfl, read⟩ := of_events_whole built
  have coherent := reading_coherent read
  rw [← or_assoc]
  by_cases cleaned : options.pruneInactive ∨ options.mergePreprocessing
  · have clear := (ends_iff_traversable coherent).mp (ends cleaned _ raw)
    exact iff_of_true (clean_up_acyclic coherent options clear cleaned) (.inl cleaned)
  · have whole : (assemble table).cleanUp options = assemble table := by
      rw [not_or] at cleaned
      rw [cleanUp, if_neg cleaned.2, pruned, if_neg cleaned.1]
    rw [whole, or_iff_right cleaned, ← reading_acyclic_iff read, Acyclic, IsAncestor,
      is_parent_assemble_eq]
    rfl

theorem built_coherent (ends : CleanUpEnds options events) : derivation.Coherent := by
  refine events_coherent built fun cleaned whole raw => ?_
  obtain ⟨table, again, _, read⟩ := of_events_whole built
  obtain rfl := Except.ok.inj (again.symm.trans raw)
  exact (ends_iff_traversable (reading_coherent read)).mp (ends cleaned _ raw)

/-- With a clean-up, a derivation that is had at all has no cycle; without one, it has the cycles
that the declarations make. In a derivation without a cycle the walk comes to every clause, once
and after its parents. -/
theorem cycles_of_built :
    (TellsNoCycle (span options.emptyClause events) → CleanUpEnds options events) ∧
    (CleanUpEnds options events →
      (Acyclic derivation.table ↔ options.pruneInactive ∨ options.mergePreprocessing ∨
        TellsNoCycle (span options.emptyClause events)) ∧
      (Acyclic derivation.table →
        derivation.Ends ∧ Finished derivation.table derivation.parentsFirst.reverse ∧
          ∀ id, id ∈ derivation.parentsFirst.map Clause.id ↔ id ∈ derivation)) := by
  constructor
  · exact clean_up_ends_of_no_cycle built
  · intro ends
    have coherent := built_coherent built ends
    refine ⟨built_acyclic_iff built ends, fun acyclic => ?_⟩
    have clear := acyclic_traversable acyclic
    refine ⟨(ends_iff_traversable coherent).mpr clear, children_first_finished coherent clear, ?_⟩
    intro id
    rw [← acyclic_children_first coherent acyclic, childrenFirst, List.map_reverse,
      List.mem_reverse]

end Built

def childFirstRun : List Event :=
  [⟨.preprocessing, 2, "q", "cnf", [1], ∅⟩, ⟨.preprocessing, 1, "p", "input", [], ∅⟩]

theorem child_first_run_walked : ∃ derivation, ofEvents .raw childFirstRun = .ok derivation ∧
    Acyclic derivation.table ∧ derivation.Ends := by
  obtain ⟨derivation, built⟩ : ∃ derivation, ofEvents .raw childFirstRun = .ok derivation :=
    ⟨_, rfl⟩
  have smaller : ∀ event ∈ childFirstRun, ∀ parent ∈ event.parents, parent < event.id := by
    simp [childFirstRun]
  have none : TellsNoCycle (span Options.raw.emptyClause childFirstRun) :=
    tells_no_cycle fun event mem => smaller event (List.mem_of_mem_take mem)
  obtain ⟨ends, cycles⟩ := cycles_of_built built
  obtain ⟨acyclic, walked⟩ := cycles (ends none)
  have clear := acyclic.mpr (.inr (.inr none))
  exact ⟨derivation, built, clear, (walked clear).1⟩

def selfParentRun : List Event := [⟨.preprocessing, 1, "p", "input", [1], ∅⟩]

/-- The only clause is its own parent: no leaf is left for a walk to start from. -/
theorem self_parent_unseen : ∃ derivation, ofEvents .raw selfParentRun = .ok derivation ∧
    IsParent derivation.table 1 1 ∧ derivation.parentsFirst = [] := by
  refine ⟨_, rfl, ⟨_, rfl, ?_⟩, ?_⟩
  · decide
  · cbv

theorem built_not_acyclic : ¬ ∀ (options : Options) (events : List Event) (derivation : Derivation),
    ofEvents options events = .ok derivation → Acyclic derivation.table := by
  intro claim
  obtain ⟨derivation, built, edge, _⟩ := self_parent_unseen
  exact claim .raw selfParentRun derivation built 1 (parent_is_ancestor edge)

end Derivation
end DerivationReplay
