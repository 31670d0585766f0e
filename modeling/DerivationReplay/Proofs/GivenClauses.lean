import DerivationReplay.Proofs.RoundTrip

/-!
Derivations from a list of clauses. The list is accepted if its numbers are distinct and every
parent is among them. Otherwise the first number that repeats is reported, or, where none does, the
first missing parent of the least clause that lacks one. The order of the clauses and the children
that they bring along make no difference.
-/
namespace DerivationReplay.Derivation
open Json

def numbers (clauses : List Clause) : List ClauseId := clauses.map Clause.id

def byNumber (clauses : List Clause) : Table :=
  .ofList (clauses.map fun clause => (clause.id, clause))

def RepeatsFirst (clauses : List Clause) (id : ClauseId) : Prop :=
  ∃ before clause after, clauses = before ++ clause :: after ∧ clause.id = id ∧
    (numbers before).Nodup ∧ id ∈ numbers before

/-- The clause has the least number of all that lack a parent, and lists this one first of those
that it lacks. -/
structure DanglesFirst (clauses : List Clause) (id parent : ClauseId) : Prop where
  listed : ∃ clause ∈ clauses, clause.id = id ∧ ∃ before after,
    clause.parents = before ++ parent :: after ∧ ∀ earlier ∈ before, earlier ∈ numbers clauses
  missing : parent ∉ numbers clauses
  least : ∀ clause ∈ clauses, ∀ other ∈ clause.parents, other ∉ numbers clauses → id ≤ clause.id

/-- What keeps the clauses from being a derivation. A number that repeats comes before a parent that
is missing. -/
inductive Flawed (clauses : List Clause) : Flaw → Prop
  | repeated (id : ClauseId) (first : RepeatsFirst clauses id) : Flawed clauses (.duplicate id)
  | dangling (id parent : ClauseId) (distinct : (numbers clauses).Nodup)
      (first : DanglesFirst clauses id parent) : Flawed clauses (.danglingParent id parent)

section Table

theorem by_number_snoc (clauses : List Clause) (clause : Clause) :
    byNumber (clauses ++ [clause]) = (byNumber clauses).insert clause.id clause := by
  simp [byNumber, Std.ExtTreeMap.ofList_eq_foldl]

theorem mem_by_number (clauses : List Clause) (id : ClauseId) :
    id ∈ byNumber clauses ↔ id ∈ numbers clauses := by
  simp [byNumber, numbers, Std.ExtTreeMap.mem_ofList]

theorem distinct_snoc (clauses : List Clause) (clause : Clause) :
    (numbers (clauses ++ [clause])).Nodup ↔
      clause.id ∉ numbers clauses ∧ (numbers clauses).Nodup := by
  rw [numbers, List.map_append, List.map_singleton, ← List.concat_eq_append, List.nodup_concat]
  rfl

theorem tabulate_snoc (clauses : List Clause) (clause : Clause) :
    tabulate (clauses ++ [clause]) = tabulate clauses >>= fun table =>
      if clause.id ∈ table then .error (.duplicate clause.id)
      else .ok (table.insert clause.id clause) := by
  simp [tabulate, List.foldlM_append]

theorem tabulate_distinct {clauses : List Clause} (distinct : (numbers clauses).Nodup) :
    tabulate clauses = .ok (byNumber clauses) := by
  induction clauses using List.reverseRecOn with
  | nil => rfl
  | append_singleton clauses clause ih =>
    obtain ⟨fresh, before⟩ := (distinct_snoc clauses clause).mp distinct
    have absent : clause.id ∉ byNumber clauses := fun known =>
      fresh ((mem_by_number clauses clause.id).mp known)
    rw [tabulate_snoc, ih before, by_number_snoc]
    exact if_neg absent

theorem tabulate_repeated {clauses : List Clause} {id : ClauseId}
    (first : RepeatsFirst clauses id) : tabulate clauses = .error (.duplicate id) := by
  obtain ⟨before, clause, after, rfl, rfl, distinct, again⟩ := first
  have known : clause.id ∈ byNumber before := (mem_by_number before clause.id).mpr again
  have stops : tabulate (before ++ [clause]) = .error (.duplicate clause.id) := by
    rw [tabulate_snoc, tabulate_distinct distinct]
    exact if_pos known
  rw [← List.singleton_append, ← List.append_assoc, tabulate, List.foldlM_append]
  change tabulate (before ++ [clause]) >>= _ = _
  rw [stops]
  rfl

theorem of_repeated {clauses : List Clause} {id : ClauseId} (first : RepeatsFirst clauses id) :
    ofClauses clauses = .error (.duplicate id) := by
  rw [ofClauses, tabulate_repeated first]
  rfl

theorem exists_repeated {clauses : List Clause} (repeats : ¬ (numbers clauses).Nodup) :
    ∃ id, RepeatsFirst clauses id := by
  induction clauses using List.reverseRecOn with
  | nil => exact absurd List.nodup_nil repeats
  | append_singleton clauses clause ih =>
    by_cases distinct : (numbers clauses).Nodup
    · have again : clause.id ∈ numbers clauses := by
        by_contra fresh
        exact repeats ((distinct_snoc clauses clause).mpr ⟨fresh, distinct⟩)
      exact ⟨clause.id, clauses, clause, [], rfl, rfl, distinct, again⟩
    · obtain ⟨id, before, repeated, after, rfl, first⟩ := ih distinct
      exact ⟨id, before, repeated, after ++ [clause], by simp, first⟩

end Table

section Distinct
variable {clauses : List Clause} (distinct : (numbers clauses).Nodup)
include distinct

theorem get_by_number (id : ClauseId) (clause : Clause) :
    (byNumber clauses)[id]? = some clause ↔ clause ∈ clauses ∧ clause.id = id := by
  have found := tabulate_found (tabulate_distinct distinct)
  refine ⟨found id clause, ?_⟩
  rintro ⟨given, rfl⟩
  have known := (mem_by_number clauses clause.id).mpr (List.mem_map_of_mem given)
  obtain ⟨other, here⟩ := (mem_table_iff (byNumber clauses) clause.id).mp known
  obtain ⟨listed, same⟩ := found clause.id other here
  obtain rfl := List.inj_on_of_nodup_map distinct listed given same
  exact here

theorem of_distinct : ofClauses clauses = ofClosedTable (byNumber clauses) := by
  rw [ofClauses, tabulate_distinct distinct]
  rfl

theorem closed_by_number_iff : Closed (byNumber clauses) ↔
    ∀ clause ∈ clauses, ∀ parent ∈ clause.parents, parent ∈ numbers clauses := by
  constructor
  · intro closed clause given parent listed
    have here := (get_by_number distinct clause.id clause).mpr ⟨given, rfl⟩
    exact (mem_by_number clauses parent).mp (closed parent clause.id ⟨clause, here, listed⟩)
  · rintro complete parent child ⟨clause, found, listed⟩
    obtain ⟨given, _⟩ := (get_by_number distinct child clause).mp found
    exact (mem_by_number clauses parent).mpr (complete clause given parent listed)

end Distinct

section Missing
variable {clauses : List Clause} (distinct : (numbers clauses).Nodup)

theorem missing_parent_iff (clauses : List Clause) (clause : Clause) (parent : ClauseId) :
    missingParent? (byNumber clauses) clause = some parent ↔
      parent ∉ numbers clauses ∧ ∃ before after, clause.parents = before ++ parent :: after ∧
        ∀ earlier ∈ before, earlier ∈ numbers clauses := by
  simp [missingParent?, List.find?_eq_some_iff_append, ← mem_by_number,
    ← Std.ExtTreeMap.contains_iff_mem]

theorem no_missing_parent_iff (clauses : List Clause) (clause : Clause) :
    missingParent? (byNumber clauses) clause = none ↔
      ∀ parent ∈ clause.parents, parent ∈ numbers clauses := by
  simp [missingParent?, List.find?_eq_none, ← mem_by_number]

theorem entries_around {table : Table} {before after : List (ClauseId × Clause)}
    {entry : ClauseId × Clause} (entries : table.toList = before ++ entry :: after) :
    (∀ other ∈ before, other.1 < entry.1) ∧ ∀ other ∈ after, entry.1 < other.1 := by
  have ascending := Std.ExtTreeMap.ordered_keys_toList (t := table)
  rw [entries, List.pairwise_append, List.pairwise_cons] at ascending
  obtain ⟨_, ⟨above, _⟩, below⟩ := ascending
  constructor
  · intro other earlier
    exact Std.compare_eq_lt.mp (below other earlier entry List.mem_cons_self)
  · intro other later
    exact Std.compare_eq_lt.mp (above other later)

include distinct

theorem mem_entries_iff (id : ClauseId) (clause : Clause) :
    (id, clause) ∈ (byNumber clauses).toList ↔ clause ∈ clauses ∧ clause.id = id := by
  rw [Std.ExtTreeMap.mem_toList_iff_getElem?_eq_some, get_by_number distinct]

theorem dangles_first {flaw : Flaw} (first : danglingParent? (byNumber clauses) = some flaw) :
    ∃ id parent, flaw = .danglingParent id parent ∧ DanglesFirst clauses id parent := by
  obtain ⟨before, ⟨key, clause⟩, after, entries, found, passed⟩ :=
    List.findSome?_eq_some_iff.mp first
  obtain ⟨parent, lacks, rfl⟩ := Option.map_eq_some_iff.mp found
  have here : (key, clause) ∈ (byNumber clauses).toList := by simp [entries]
  obtain ⟨given, rfl⟩ := (mem_entries_iff distinct key clause).mp here
  obtain ⟨missing, listed⟩ := (missing_parent_iff clauses clause parent).mp lacks
  refine ⟨clause.id, parent, rfl, ⟨clause, given, rfl, listed⟩, missing, ?_⟩
  intro other other_given lost mem absent
  have other_here := (mem_entries_iff distinct other.id other).mpr ⟨other_given, rfl⟩
  rw [entries, List.mem_append, List.mem_cons] at other_here
  -- Entries before this one lack nothing, and those after it have greater numbers.
  rcases other_here with earlier | same | later
  · have complete := passed (other.id, other) earlier
    rw [Option.map_eq_none_iff, no_missing_parent_iff] at complete
    exact absurd (complete lost mem) absent
  · exact UInt64.le_of_eq (congrArg Prod.fst same).symm
  · exact UInt64.le_of_lt ((entries_around entries).2 _ later)

theorem dangling_of_first {id parent : ClauseId} (first : DanglesFirst clauses id parent) :
    danglingParent? (byNumber clauses) = some (.danglingParent id parent) := by
  obtain ⟨⟨clause, given, rfl, listed⟩, missing, least⟩ := first
  have here := (mem_entries_iff distinct clause.id clause).mpr ⟨given, rfl⟩
  have lacks := (missing_parent_iff clauses clause parent).mpr ⟨missing, listed⟩
  obtain ⟨before, after, entries⟩ := List.append_of_mem here
  refine List.findSome?_eq_some_iff.mpr ⟨before, _, after, entries, by simp [lacks], ?_⟩
  rintro ⟨key, other⟩ earlier
  have other_here : (key, other) ∈ (byNumber clauses).toList := by simp [entries, earlier]
  obtain ⟨other_given, rfl⟩ := (mem_entries_iff distinct key other).mp other_here
  rw [Option.map_eq_none_iff, no_missing_parent_iff]
  intro lost mem
  by_contra absent
  have smaller := (entries_around entries).1 _ earlier
  exact absurd (least other other_given lost mem absent) (UInt64.not_le.mpr smaller)

end Missing

section Outcome
variable {clauses : List Clause}

theorem accepted_iff {derivation : Derivation} : ofClauses clauses = .ok derivation ↔
    (numbers clauses).Nodup ∧
      (∀ clause ∈ clauses, ∀ parent ∈ clause.parents, parent ∈ numbers clauses) ∧
      assemble (byNumber clauses) = derivation := by
  by_cases distinct : (numbers clauses).Nodup
  · rw [of_distinct distinct, ← closed_by_number_iff distinct, ← dangling_none_iff, ofClosedTable]
    cases danglingParent? (byNumber clauses) <;> simp [distinct]
  · obtain ⟨id, first⟩ := exists_repeated distinct
    simp [of_repeated first, distinct]

theorem refused_iff {flaw : Flaw} : ofClauses clauses = .error flaw ↔ Flawed clauses flaw := by
  constructor
  · intro refused
    by_cases distinct : (numbers clauses).Nodup
    · rw [of_distinct distinct, ofClosedTable] at refused
      split at refused
      · rename_i first
        cases refused
        obtain ⟨id, parent, rfl, dangles⟩ := dangles_first distinct first
        exact .dangling id parent distinct dangles
      · cases refused
    · obtain ⟨id, first⟩ := exists_repeated distinct
      rw [of_repeated first] at refused
      cases refused
      exact .repeated id first
  · intro flawed
    cases flawed with
    | repeated id first => exact of_repeated first
    | dangling id parent distinct first =>
      rw [of_distinct distinct, ofClosedTable, dangling_of_first distinct first]

end Outcome

section Irrelevant
variable {clauses other : List Clause}

theorem of_permuted (same : other.Perm clauses) (distinct : (numbers clauses).Nodup) :
    ofClauses other = ofClauses clauses := by
  have other_distinct : (numbers other).Nodup := (same.map Clause.id).nodup_iff.mpr distinct
  have table : byNumber other = byNumber clauses := by
    refine Std.ExtTreeMap.ext_getElem? fun id => Option.ext fun clause => ?_
    rw [get_by_number distinct, get_by_number other_distinct, same.mem_iff]
  rw [of_distinct other_distinct, of_distinct distinct, table]

theorem tabulate_bare (clauses : List Clause) :
    tabulate (clauses.map Clause.bare) = bareTable <$> tabulate clauses := by
  induction clauses using List.reverseRecOn with
  | nil => exact congrArg Except.ok (bare_of_list []).symm
  | append_singleton clauses clause ih =>
    rw [List.map_append, List.map_singleton, tabulate_snoc, tabulate_snoc, ih]
    cases tabulate clauses with
    | error flaw => rfl
    | ok table =>
      have known : clause.bare.id ∈ bareTable table ↔ clause.id ∈ table :=
        Std.ExtTreeMap.mem_map
      change (if clause.bare.id ∈ bareTable table then _ else _) =
        bareTable <$> if clause.id ∈ table then _ else _
      simp only [known]
      split
      · rfl
      · exact congrArg Except.ok (bare_insert table clause.id clause).symm

theorem of_bare (clauses : List Clause) :
    ofClauses (clauses.map Clause.bare) = ofClauses clauses := by
  rw [ofClauses, ofClauses, tabulate_bare]
  cases tabulate clauses with
  | error flaw => rfl
  | ok table =>
    change ofClosedTable (bareTable table) = ofClosedTable table
    rw [ofClosedTable, ofClosedTable, dangling_bare, assemble_bare]

theorem of_table_by_number (distinct : (numbers clauses).Nodup) :
    ofTable (byNumber clauses) = ofClauses clauses := by
  have keyed := tabulate_keyed (tabulate_distinct distinct)
  rw [ofTable, (mismatch_none_iff _).mpr keyed, of_distinct distinct]

def clausesNodes (clauses : List Clause) : Json :=
  record (clauses.map fun clause => (toString clause.id, clause.toJson))

def clausesJson (clauses : List Clause) : Json := record [("nodes", clausesNodes clauses)]

theorem table_of_clauses (clauses : List Clause) :
    table? (clausesNodes clauses) = some (byNumber clauses) := by
  rw [byNumber, ← table_of_written, List.map_map]
  rfl

theorem of_clauses_json (distinct : (numbers clauses).Nodup) :
    ofJson (clausesJson clauses) = (ofClauses clauses).mapError .flawed := by
  have members : members? ["nodes"] false (clausesJson clauses) =
      some [some (clausesNodes clauses)] := members_record (by simp)
  rw [ofJson, members]
  change decoded (table? (clausesNodes clauses)) = (ofClauses clauses).mapError .flawed
  rw [table_of_clauses, decoded, of_table_by_number distinct]

end Irrelevant

/-- Clauses are accepted just if their numbers are distinct and their parents are among them; if
not, the flaw is the first number that repeats or else the first missing parent of the least clause
that lacks one. The children that the clauses bring along never count. While no number repeats, the
order does not count either, nor whether clauses are given as a list, as a table or as a record. -/
theorem given_clauses_checked (clauses : List Clause) :
    ((∃ derivation, ofClauses clauses = .ok derivation) ↔ (numbers clauses).Nodup ∧
      ∀ clause ∈ clauses, ∀ parent ∈ clause.parents, parent ∈ numbers clauses) ∧
    (∀ flaw, ofClauses clauses = .error flaw ↔ Flawed clauses flaw) ∧
    (∀ other, other.map Clause.bare = clauses.map Clause.bare →
      ofClauses other = ofClauses clauses) ∧
    ((numbers clauses).Nodup →
      (∀ other, other.Perm clauses → ofClauses other = ofClauses clauses) ∧
      ofTable (byNumber clauses) = ofClauses clauses ∧
      ofJson (clausesJson clauses) = (ofClauses clauses).mapError .flawed) := by
  refine ⟨?_, fun flaw => refused_iff, fun other same => ?_, fun distinct => ⟨?_, ?_, ?_⟩⟩
  · simp only [accepted_iff, exists_and_left, exists_eq', and_true]
  · rw [← of_bare other, same, of_bare]
  · exact fun other same => of_permuted same distinct
  · exact of_table_by_number distinct
  · exact of_clauses_json distinct

def scattered : List Clause :=
  [{ id := 3, text := "r", rule := "resolution", parents := [2, 1, 2],
      children := .ofList [(3 : ClauseId), 7] },
    { id := 1, text := "p", rule := "input" },
    { id := 2, text := "q", rule := "cnf", parents := [1] }]

def untaken : Clause := { id := 2, text := "s", rule := "input", parents := [9] }

def orphaned : List Clause :=
  [{ id := 8, text := "s", rule := "cnf", parents := [5] },
    { id := 4, text := "t", rule := "cnf", parents := [3, 7, 6] }]

theorem scattered_clauses_checked :
    (∃ derivation, ofClauses scattered = .ok derivation ∧ derivation.ids = [1, 2, 3] ∧
      derivation.leaves.toList = [3] ∧
      (derivation.table.values.map fun clause => clause.children.toList) = [[2, 3], [3], []] ∧
      ofClauses scattered.reverse = .ok derivation ∧
      ofClauses (scattered.map Clause.bare) = .ok derivation ∧
      ofTable (byNumber scattered) = .ok derivation ∧
      ofJson (clausesJson scattered) = .ok derivation) ∧
    ofClauses (scattered ++ [untaken, untaken]) = .error (.duplicate 2) ∧
    ofClauses (orphaned ++ scattered) = .error (.danglingParent 4 7) := by
  have distinct : (numbers scattered).Nodup := by decide
  obtain ⟨accepted, _, unmarked, same⟩ := given_clauses_checked scattered
  obtain ⟨derivation, given⟩ := accepted.mpr ⟨distinct, by simp [numbers, scattered]⟩
  obtain ⟨permuted, table, json⟩ := same distinct
  have bare : (scattered.map Clause.bare).map Clause.bare = scattered.map Clause.bare := by
    rw [List.map_map]
    rfl
  have held : (ofClauses scattered).map ids = .ok [1, 2, 3] := rfl
  have tips : (ofClauses scattered).map (·.leaves.toList) = .ok [3] := rfl
  have below : (ofClauses scattered).map (·.table.values.map fun clause => clause.children.toList) =
      .ok [[2, 3], [3], []] := rfl
  rw [given] at held tips below
  refine ⟨⟨derivation, given, Except.ok.inj held, Except.ok.inj tips, Except.ok.inj below,
    ?_, ?_, ?_, ?_⟩, ?_, ?_⟩
  · rw [permuted _ scattered.reverse_perm, given]
  · rw [unmarked _ bare, given]
  · rw [table, given]
  · rw [json, given]
    rfl
  · refine ((given_clauses_checked _).2.1 _).mpr (.repeated 2 ?_)
    exact ⟨scattered, untaken, [untaken], rfl, rfl, distinct, by decide⟩
  · refine ((given_clauses_checked _).2.1 _).mpr (.dangling 4 7 (by decide) ?_)
    refine ⟨⟨_, .tail _ (.head _), rfl, [3], [6], rfl, by simp [numbers, scattered]⟩, by decide,
      by simp [numbers, scattered, orphaned]⟩

end DerivationReplay.Derivation
