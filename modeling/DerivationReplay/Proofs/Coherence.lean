import DerivationReplay.Derivation.Record
import DerivationReplay.Proofs.Contraction
import DerivationReplay.Proofs.Descent
import DerivationReplay.Proofs.Reconstruction

/-!
All derivations are coherent: those that are given as clauses, read from a record or reconstructed
from events, and every view and contraction of them. A clean-up that can go through the derivation
leaves no cycle in it.
-/
namespace DerivationReplay
open Relation

namespace Chronicle
variable (emptyClause : String) (told : List Event)

theorem reading_id (id : ClauseId) (clause : Clause)
    (read : clause? emptyClause told id = some clause) : clause.id = id := by
  rw [clause?, Option.or_eq_some_iff] at read
  rcases read with written | ⟨_, placeholder⟩
  · exact written_id emptyClause told id clause written
  · split at placeholder <;> cases placeholder
    rfl

theorem reading_closed (id : ClauseId) (clause : Clause)
    (read : clause? emptyClause told id = some clause) :
    ∀ parent ∈ clause.parents, (clause? emptyClause told parent).isSome := by
  intro parent mem
  rw [clause?, Option.or_eq_some_iff] at read
  rcases read with written | ⟨_, placeholder⟩
  · obtain ⟨first, declaration, rfl⟩ := Option.map_eq_some_iff.mp written
    have declares := List.find?_some declaration
    exact (Derivation.mem_reading_iff emptyClause told parent).mpr
      ⟨first, List.mem_of_find?_eq_some declaration,
        (Bool.and_eq_true_iff.mp declares).1, .inr mem⟩
  · split at placeholder <;> cases placeholder
    cases mem

def DeclaredFrom (told : List Event) (parent child : ClauseId) : Prop :=
  ∃ first, declaration? told child = some first ∧ parent ∈ first.parents

def TellsNoCycle (told : List Event) : Prop := ∀ id, ¬ TransGen (DeclaredFrom told) id id

theorem tells_no_cycle {told : List Event}
    (smaller : ∀ event ∈ told, ∀ parent ∈ event.parents, parent < event.id) :
    TellsNoCycle told := by
  refine no_loop_of_smaller fun parent child edge => ?_
  obtain ⟨first, declaration, listed⟩ := edge
  rw [← declaration_id told child first declaration]
  exact smaller first (List.mem_of_find?_eq_some declaration) parent listed

end Chronicle

namespace Derivation

theorem dangling_none_iff (table : Table) : danglingParent? table = none ↔ Closed table := by
  simp only [danglingParent?, List.findSome?_eq_none_iff, Option.map_eq_none_iff, missingParent?,
    List.find?_eq_none]
  constructor
  · rintro complete parent child ⟨clause, found, listed⟩
    have entry := Std.ExtTreeMap.mem_toList_iff_getElem?_eq_some.mpr found
    simpa using complete (child, clause) entry parent listed
  · rintro closed ⟨child, clause⟩ entry parent listed
    have found := Std.ExtTreeMap.mem_toList_iff_getElem?_eq_some.mp entry
    simpa using closed parent child ⟨clause, found, listed⟩

theorem mismatch_none_iff (table : Table) : keyMismatch? table = none ↔ Keyed table := by
  simp only [keyMismatch?, List.findSome?_eq_none_iff]
  constructor
  · intro matching id clause found
    have entry := matching (id, clause) (Std.ExtTreeMap.mem_toList_iff_getElem?_eq_some.mpr found)
    by_contra other
    simp [Ne.symm other] at entry
  · rintro keyed ⟨id, clause⟩ entry
    simp [keyed id clause (Std.ExtTreeMap.mem_toList_iff_getElem?_eq_some.mp entry)]

theorem tabulate_found {clauses : List Clause} {table : Table}
    (tabulated : tabulate clauses = .ok table) (id : ClauseId) (clause : Clause)
    (found : table[id]? = some clause) : clause ∈ clauses ∧ clause.id = id := by
  -- For the induction the clauses are added to any table, not just to the empty one.
  suffices grown : (∅ : Table)[id]? = some clause ∨ clause ∈ clauses ∧ clause.id = id by
    simpa using grown
  unfold tabulate at tabulated
  generalize (∅ : Table) = before at tabulated ⊢
  induction clauses generalizing before with
  | nil =>
    cases tabulated
    exact .inl found
  | cons given rest ih =>
    rw [List.foldlM_cons] at tabulated
    split at tabulated
    · cases tabulated
    · rcases ih _ tabulated with here | ⟨mem, same⟩
      · rw [get_insert] at here
        split at here
        · rename_i same
          cases here
          exact .inr ⟨List.mem_cons_self, same⟩
        · exact .inl here
      · exact .inr ⟨List.mem_cons_of_mem given mem, same⟩

theorem tabulate_keyed {clauses : List Clause} {table : Table}
    (tabulated : tabulate clauses = .ok table) : Keyed table :=
  fun id clause found => (tabulate_found tabulated id clause found).2

theorem closed_table_coherent {table : Table} {derivation : Derivation} (keyed : Keyed table)
    (checked : ofClosedTable table = .ok derivation) : derivation.Coherent := by
  unfold ofClosedTable at checked
  split at checked
  · cases checked
  · rename_i complete
    cases checked
    exact assemble_coherent keyed ((dangling_none_iff table).mp complete)

theorem clauses_coherent {clauses : List Clause} {derivation : Derivation}
    (given : ofClauses clauses = .ok derivation) : derivation.Coherent := by
  obtain ⟨table, tabulated, checked⟩ := (bind_ok_iff _ _ _).mp given
  exact closed_table_coherent (tabulate_keyed tabulated) checked

theorem clauses_acyclic {clauses : List Clause} {derivation : Derivation}
    (given : ofClauses clauses = .ok derivation)
    (smaller : ∀ clause ∈ clauses, ∀ parent ∈ clause.parents, parent < clause.id) :
    Acyclic derivation.table := by
  obtain ⟨table, tabulated, checked⟩ := (bind_ok_iff _ _ _).mp given
  unfold ofClosedTable at checked
  split at checked
  · cases checked
  · cases checked
    refine acyclic_of_smaller_parents fun parent child edge => ?_
    obtain ⟨clause, found, listed⟩ := (is_parent_assemble table parent child).mp edge
    obtain ⟨mem, rfl⟩ := tabulate_found tabulated child clause found
    exact smaller clause mem parent listed

theorem table_coherent {table : Table} {derivation : Derivation}
    (given : ofTable table = .ok derivation) : derivation.Coherent := by
  unfold ofTable at given
  split at given
  · cases given
  · rename_i matching
    exact closed_table_coherent ((mismatch_none_iff table).mp matching) given

theorem json_coherent {value : Json} {derivation : Derivation}
    (read : ofJson value = .ok derivation) : derivation.Coherent := by
  unfold ofJson at read
  split at read
  · cases read
  · rename_i table _
    cases given : ofTable table with
    | error flaw =>
      rw [given] at read
      cases read
    | ok source =>
      rw [given] at read
      cases read
      exact table_coherent given

theorem text_coherent {text : String} {derivation : Derivation}
    (read : ofText text = .ok derivation) : derivation.Coherent := by
  obtain ⟨⟨value, rest⟩, _, parsed⟩ := (bind_ok_iff _ _ _).mp read
  obtain ⟨source, given, kept⟩ := (bind_ok_iff _ _ _).mp parsed
  split at kept
  · cases kept
    exact json_coherent given
  · cases kept

theorem ancestor_closure_traversable {derivation : Derivation} (coherent : derivation.Coherent)
    (clear : derivation.Traversable) (ids : ClauseIds) :
    (derivation.ancestorClosure ids).Traversable :=
  acyclic_traversable (ancestor_closure_acyclic coherent clear ids)

theorem pruned_coherent {whole : Derivation} (coherent : whole.Coherent) (options : Options)
    (clear : options.pruneInactive → whole.Traversable) : (whole.pruned options).Coherent := by
  unfold pruned
  split
  · rename_i prune
    exact activated_part_coherent coherent (clear prune)
  · exact coherent

theorem pruned_traversable {whole : Derivation} (coherent : whole.Coherent) (options : Options)
    (clear : whole.Traversable) : (whole.pruned options).Traversable := by
  unfold pruned
  split
  · exact ancestor_closure_traversable coherent clear _
  · exact clear

theorem clean_up_coherent {whole : Derivation} (coherent : whole.Coherent) (options : Options)
    (clear : options.pruneInactive ∨ options.mergePreprocessing → whole.Traversable) :
    (whole.cleanUp options).Coherent := by
  have part := pruned_coherent coherent options fun prune => clear (.inl prune)
  unfold cleanUp
  split
  · rename_i merge
    exact contract_coherent _ part (pruned_traversable coherent options (clear (.inr merge)))
  · exact part

theorem clean_up_acyclic {whole : Derivation} (coherent : whole.Coherent) (options : Options)
    (clear : whole.Traversable) (cleaned : options.pruneInactive ∨ options.mergePreprocessing) :
    Acyclic (whole.cleanUp options).table := by
  unfold cleanUp
  split
  · exact contract_acyclic _ (pruned_coherent coherent options fun _ => clear)
      (pruned_traversable coherent options clear)
  · rename_i apart
    rw [pruned, if_pos (cleaned.resolve_right apart)]
    exact ancestor_closure_acyclic coherent clear _

theorem reading_coherent {emptyClause : String} {told : List Event} {table : Table}
    (read : ∀ id : ClauseId, table[id]? = Chronicle.clause? emptyClause told id) :
    (assemble table).Coherent := by
  refine assemble_coherent (fun id clause found => ?_) ?_
  · exact Chronicle.reading_id _ _ id clause (read id ▸ found)
  · intro parent child edge
    obtain ⟨clause, found, listed⟩ := edge
    rw [Std.ExtTreeMap.mem_iff_isSome_getElem?, read]
    exact Chronicle.reading_closed _ _ child clause (read child ▸ found) parent listed

theorem is_parent_reading_eq {emptyClause : String} {told : List Event} {table : Table}
    (read : ∀ id : ClauseId, table[id]? = Chronicle.clause? emptyClause told id) :
    IsParent table = Chronicle.DeclaredFrom told := by
  funext parent child
  rw [IsParent, read, Chronicle.DeclaredFrom, Chronicle.clause?, Chronicle.written?]
  cases Chronicle.declaration? told child with
  | some first => simp [Chronicle.declared]
  | none =>
    by_cases listed : told.any (·.lists child) = true <;> simp [listed, Clause.placeholder]

theorem reading_acyclic_iff {emptyClause : String} {told : List Event} {table : Table}
    (read : ∀ id : ClauseId, table[id]? = Chronicle.clause? emptyClause told id) :
    Acyclic table ↔ Chronicle.TellsNoCycle told := by
  rw [Acyclic, IsAncestor, is_parent_reading_eq read]
  rfl

theorem reading_acyclic {emptyClause : String} {told : List Event} {table : Table}
    (read : ∀ id : ClauseId, table[id]? = Chronicle.clause? emptyClause told id)
    (smaller : ∀ event ∈ told, ∀ parent ∈ event.parents, parent < event.id) : Acyclic table :=
  (reading_acyclic_iff read).mpr (Chronicle.tells_no_cycle smaller)

theorem events_coherent {options : Options} {events : List Event} {derivation : Derivation}
    (built : ofEvents options events = .ok derivation)
    (clear : options.pruneInactive ∨ options.mergePreprocessing →
      ∀ whole, ofEvents options.withoutCleanUp events = .ok whole → whole.Traversable) :
    derivation.Coherent := by
  obtain ⟨table, raw, rfl, read⟩ := of_events_whole built
  exact clean_up_coherent (reading_coherent read) options fun cleaned => clear cleaned _ raw

/-- The derivations that can be had: the given, the recorded and the reconstructed ones, and what
views and contractions make of them. No traversal enters a cycle. -/
inductive Obtained : Derivation → Prop
  | clauses (clauses : List Clause) (derivation : Derivation)
      (given : ofClauses clauses = .ok derivation) : Obtained derivation
  | table (table : Table) (derivation : Derivation) (given : ofTable table = .ok derivation) :
      Obtained derivation
  | json (value : Json) (derivation : Derivation) (read : ofJson value = .ok derivation) :
      Obtained derivation
  | text (text : String) (derivation : Derivation) (read : ofText text = .ok derivation) :
      Obtained derivation
  | events (options : Options) (events : List Event) (derivation : Derivation)
      (built : ofEvents options events = .ok derivation)
      (clear : options.pruneInactive ∨ options.mergePreprocessing →
        ∀ whole, ofEvents options.withoutCleanUp events = .ok whole → whole.Traversable) :
      Obtained derivation
  | ancestors (source derivation : Derivation) (obtained : Obtained source)
      (clear : source.Traversable) (ids : List ClauseId)
      (view : source.ancestorView ids = .ok derivation) : Obtained derivation
  | descendants (source derivation : Derivation) (obtained : Obtained source)
      (clear : source.Traversable) (ids : List ClauseId)
      (view : source.descendantView ids = .ok derivation) : Obtained derivation
  | activated (source : Derivation) (obtained : Obtained source) (clear : source.Traversable) :
      Obtained source.activatedPart
  | contracted (source : Derivation) (obtained : Obtained source) (clear : source.Traversable)
      (rule : String) : Obtained (source.contractPreprocessing rule)

theorem obtained_coherent {derivation : Derivation} (obtained : Obtained derivation) :
    derivation.Coherent := by
  induction obtained with
  | clauses _ _ given => exact clauses_coherent given
  | table _ _ given => exact table_coherent given
  | json _ _ read => exact json_coherent read
  | text _ _ read => exact text_coherent read
  | events _ _ _ built clear => exact events_coherent built clear
  | ancestors source _ _ clear ids view ih =>
    obtain ⟨_, _, taken⟩ := (bind_ok_iff _ _ _).mp view
    obtain rfl := (pure_ok_iff _ _).mp taken
    exact ancestor_closure_coherent ih clear _
  | descendants source _ _ clear ids view ih =>
    obtain ⟨_, _, taken⟩ := (bind_ok_iff _ _ _).mp view
    obtain rfl := (pure_ok_iff _ _).mp taken
    exact descendant_closure_coherent ih clear _
  | activated source _ clear ih => exact activated_part_coherent ih clear
  | contracted source _ clear rule ih => exact contract_coherent rule ih clear

def givenChain : List Clause :=
  [{ id := 1, text := "p", rule := "input", fromPreprocessing := true },
    { id := 2, text := "q", rule := "cnf", parents := [1], fromPreprocessing := true },
    { id := 3, text := "r", rule := "resolution", parents := [2, 2], life := { active := some 1 } }]

theorem given_chain_coherent : ∃ derivation, ofClauses givenChain = .ok derivation ∧
    (derivation.activatedPart.contractPreprocessing "choice axiom").Coherent := by
  obtain ⟨derivation, given⟩ : ∃ derivation, ofClauses givenChain = .ok derivation := ⟨_, rfl⟩
  have clear := acyclic_traversable (clauses_acyclic given (by simp [givenChain]))
  have again := ancestor_closure_traversable (clauses_coherent given) clear
  exact ⟨derivation, given,
    obtained_coherent (.contracted _ (.activated _ (.clauses _ _ given) clear) (again _) _)⟩

end Derivation
end DerivationReplay
