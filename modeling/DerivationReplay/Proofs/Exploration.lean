import DerivationReplay.Derivation.Order
import DerivationReplay.Proofs.Ancestry

/-!
The walk with a stack visits what a search by recursion would. `Explores` is that search: it goes
through a list of clauses and, at each one not visited before, first through its waiting parents.
Without a cycle under the seeds the search ends, the steps allowed to the walk are enough for it,
and its trail holds each clause under a seed once, after its parents.
-/
namespace DerivationReplay

/-- A trail, the latest first, in which every clause comes after its parents. -/
inductive Finished (table : Table) : List Clause → Prop where
  | nil : Finished table []
  | cons {clause : Clause} {trail : List Clause} (found : table[clause.id]? = some clause)
      (fresh : clause.id ∉ trail.map Clause.id)
      (after : ∀ parent ∈ clause.parents, parent ∈ table → parent ∈ trail.map Clause.id)
      (earlier : Finished table trail) : Finished table (clause :: trail)

theorem finished_found {table : Table} {trail : List Clause} (finished : Finished table trail) :
    ∀ clause ∈ trail, table[clause.id]? = some clause := by
  induction finished with
  | nil => simp
  | cons found _ _ _ ih =>
    intro clause mem
    rcases List.mem_cons.mp mem with rfl | mem
    · exact found
    · exact ih clause mem

theorem finished_nodup {table : Table} {trail : List Clause} (finished : Finished table trail) :
    (trail.map Clause.id).Nodup := by
  induction finished with
  | nil => simp
  | cons _ fresh _ _ ih => exact List.nodup_cons.mpr ⟨fresh, ih⟩

theorem finished_in_table {table : Table} {trail : List Clause} (finished : Finished table trail)
    {id : ClauseId} (mem : id ∈ trail.map Clause.id) : id ∈ table := by
  obtain ⟨clause, listed, rfl⟩ := List.mem_map.mp mem
  exact (mem_table_iff table clause.id).mpr ⟨clause, finished_found finished clause listed⟩

theorem finished_parent {table : Table} {trail : List Clause} (finished : Finished table trail)
    {parent child : ClauseId} (mem : child ∈ trail.map Clause.id)
    (edge : IsParent table parent child) (known : parent ∈ table) :
    parent ∈ trail.map Clause.id := by
  obtain ⟨other, here, listed⟩ := edge
  induction finished with
  | nil => simp at mem
  | @cons clause trail found fresh after earlier ih =>
    rw [List.map_cons, List.mem_cons] at mem ⊢
    rcases mem with rfl | mem
    · obtain rfl : clause = other := Option.some.inj (found.symm.trans here)
      exact .inr (after parent listed known)
    · exact .inr (ih mem)

theorem finished_underlies {table : Table} {trail : List Clause} (finished : Finished table trail)
    {lower id : ClauseId} (under : Underlies table lower id) (known : lower ∈ table)
    (mem : id ∈ trail.map Clause.id) : lower ∈ trail.map Clause.id := by
  induction under with
  | refl => exact mem
  | tail under edge ih => exact ih (finished_parent finished mem edge (upper_in_table known under))

namespace Walk

inductive Explores (table : Table) :
    List ClauseId → ClauseIds → List Clause → ClauseIds → List Clause → Prop where
  | done (visited : ClauseIds) (trail : List Clause) : Explores table [] visited trail visited trail
  | skip {id : ClauseId} {ids : List ClauseId} {visited after : ClauseIds}
      {trail extended : List Clause} (known : id ∈ visited ∨ id ∉ table)
      (rest : Explores table ids visited trail after extended) :
      Explores table (id :: ids) visited trail after extended
  | visit {id : ClauseId} {ids : List ClauseId} {visited reached after : ClauseIds}
      {trail grown extended : List Clause} {clause : Clause} (found : table[id]? = some clause)
      (above : Explores table (waitingParents table visited clause).reverse visited trail
        reached grown)
      (fresh : id ∉ reached)
      (rest : Explores table ids (reached.insert id) (clause :: grown) after extended) :
      Explores table (id :: ids) visited trail after extended

section Explores
variable {table : Table} {ids : List ClauseId} {visited after : ClauseIds}
  {trail extended : List Clause}

theorem mem_waiting_parents (clause : Clause) (parent : ClauseId) :
    parent ∈ waitingParents table visited clause ↔
      parent ∈ clause.parents ∧ parent ∉ visited ∧ parent ∈ table := by
  simp [waitingParents, ← Bool.not_eq_true, Std.ExtTreeSet.contains_iff_mem]

theorem mem_visited_insert (reached : ClauseIds) (id other : ClauseId) :
    other ∈ reached.insert id ↔ id = other ∨ other ∈ reached := by
  simp

theorem explores_grows (explored : Explores table ids visited trail after extended) :
    ∀ id ∈ visited, id ∈ after := by
  induction explored with
  | done => exact fun _ mem => mem
  | skip _ _ ih => exact ih
  | visit _ _ _ _ above rest =>
    exact fun id mem => rest id ((mem_visited_insert _ _ _).mpr (.inr (above id mem)))

theorem explores_covers (explored : Explores table ids visited trail after extended) :
    ∀ id ∈ ids, id ∈ table → id ∈ after := by
  induction explored with
  | done => simp
  | skip known rest ih =>
    intro other mem inTable
    rcases List.mem_cons.mp mem with rfl | mem
    · exact explores_grows rest other (known.resolve_right fun out => out inTable)
    · exact ih other mem inTable
  | visit _ _ _ rest _ ih =>
    intro other mem inTable
    rcases List.mem_cons.mp mem with rfl | mem
    · exact explores_grows rest other ((mem_visited_insert _ _ _).mpr (.inl rfl))
    · exact ih other mem inTable

theorem explores_sources (explored : Explores table ids visited trail after extended) :
    ∀ id ∈ after, id ∈ visited ∨ ∃ seed ∈ ids, Underlies table id seed := by
  induction explored with
  | done => exact fun _ mem => .inl mem
  | skip _ _ ih =>
    intro other mem
    rcases ih other mem with old | ⟨seed, listed, under⟩
    · exact .inl old
    · exact .inr ⟨seed, List.mem_cons_of_mem _ listed, under⟩
  | @visit id ids visited reached after trail grown extended clause found _ _ _ above rest =>
    intro other mem
    rcases rest other mem with middle | ⟨seed, listed, under⟩
    · rcases (mem_visited_insert _ _ _).mp middle with rfl | middle
      · exact .inr ⟨id, List.mem_cons_self, Relation.ReflTransGen.refl⟩
      · rcases above other middle with old | ⟨parent, waiting, under⟩
        · exact .inl old
        · have listed := ((mem_waiting_parents clause parent).mp (List.mem_reverse.mp waiting)).1
          exact .inr ⟨id, List.mem_cons_self, underlies_of_parent under ⟨clause, found, listed⟩⟩
    · exact .inr ⟨seed, List.mem_cons_of_mem _ listed, under⟩

theorem explores_finished (keyed : Keyed table)
    (explored : Explores table ids visited trail after extended)
    (same : ∀ id, id ∈ visited ↔ id ∈ trail.map Clause.id) (finished : Finished table trail) :
    (∀ id, id ∈ after ↔ id ∈ extended.map Clause.id) ∧ Finished table extended := by
  induction explored with
  | done => exact ⟨same, finished⟩
  | skip _ _ ih => exact ih same finished
  | @visit id ids visited reached after trail grown extended clause found walked fresh _ above
      rest =>
    obtain ⟨same', finished'⟩ := above same finished
    have number : clause.id = id := keyed id clause found
    subst number
    apply rest
    · intro other
      rw [mem_visited_insert, List.map_cons, List.mem_cons, same', eq_comm]
    · refine .cons found (fun mem => fresh ((same' _).mpr mem)) (fun parent listed inTable => ?_)
        finished'
      rw [← same']
      -- A parent was visited before or waits, and the search through the waiting ones covers it.
      by_cases old : parent ∈ visited
      · exact explores_grows walked parent old
      · have waiting := (mem_waiting_parents clause parent).mpr ⟨listed, old, inTable⟩
        exact explores_covers walked parent (List.mem_reverse.mpr waiting) inTable

theorem explores_cons {id : ClauseId} {reached : ClauseIds} {grown : List Clause}
    (first : Explores table [id] visited trail reached grown)
    (rest : Explores table ids reached grown after extended) :
    Explores table (id :: ids) visited trail after extended := by
  cases first with
  | skip known last =>
    cases last
    exact .skip known rest
  | visit found above fresh last =>
    cases last
    exact .visit found above fresh rest

theorem explores_all (ids : List ClauseId)
    (each : ∀ id ∈ ids, ∀ visited trail, ∃ after extended,
      Explores table [id] visited trail after extended) (visited : ClauseIds)
    (trail : List Clause) : ∃ after extended, Explores table ids visited trail after extended := by
  induction ids generalizing visited trail with
  | nil => exact ⟨visited, trail, .done visited trail⟩
  | cons id ids ih =>
    obtain ⟨reached, grown, first⟩ := each id List.mem_cons_self visited trail
    obtain ⟨after, extended, rest⟩ :=
      ih (fun other mem => each other (List.mem_cons_of_mem _ mem)) reached grown
    exact ⟨after, extended, explores_cons first rest⟩

theorem explores_parents_fresh {id : ClauseId} (grounded : Grounded table id)
    (unseen : id ∉ visited) (edges : ∀ parent ∈ ids, IsParent table parent id)
    (explored : Explores table ids visited trail after extended) : id ∉ after := by
  intro mem
  rcases explores_sources explored id mem with old | ⟨parent, listed, under⟩
  · exact unseen old
  · exact not_own_ancestor grounded (Relation.TransGen.tail' under (edges parent listed))

theorem explores_grounded {id : ClauseId} (grounded : Grounded table id) :
    ∀ visited trail, ∃ after extended, Explores table [id] visited trail after extended := by
  induction grounded with
  | intro id above ih =>
    intro visited trail
    by_cases known : id ∈ visited ∨ id ∉ table
    · exact ⟨visited, trail, .skip known (.done visited trail)⟩
    · rw [not_or, not_not] at known
      obtain ⟨unseen, inTable⟩ := known
      obtain ⟨clause, found⟩ := (mem_table_iff table id).mp inTable
      have edge : ∀ parent ∈ (waitingParents table visited clause).reverse,
          IsParent table parent id := fun parent waiting =>
        ⟨clause, found, ((mem_waiting_parents clause parent).mp (List.mem_reverse.mp waiting)).1⟩
      -- The search through the parents cannot come back to a clause whose climbs end.
      obtain ⟨reached, grown, walked⟩ :=
        explores_all _ (fun parent waiting => ih parent (edge parent waiting)) visited trail
      have fresh := explores_parents_fresh (Acc.intro id above) unseen edge walked
      exact ⟨reached.insert id, clause :: grown, .visit found walked fresh (.done _ _)⟩

end Explores

section Steps
variable {table : Table}

/-- What a table entry adds to the bound on the steps while it is not visited. -/
def entryWork (visited : ClauseIds) (entry : ClauseId × Clause) : Nat :=
  if entry.1 ∈ visited then 0 else 1 + entry.2.parents.length

def work (table : Table) (visited : ClauseIds) : Nat :=
  (table.toList.map (entryWork visited)).foldr (· + ·) 0

theorem entry_work_insert (visited : ClauseIds) {id : ClauseId} {entry : ClauseId × Clause}
    (other : id ≠ entry.1) : entryWork (visited.insert id) entry = entryWork visited entry := by
  simp [entryWork, other]

theorem entries_work_insert (visited : ClauseIds) {id : ClauseId} {clause : Clause}
    (fresh : id ∉ visited) (entries : List (ClauseId × Clause))
    (distinct : (entries.map Prod.fst).Nodup) (mem : (id, clause) ∈ entries) :
    (entries.map (entryWork (visited.insert id))).foldr (· + ·) 0 + (1 + clause.parents.length) =
      (entries.map (entryWork visited)).foldr (· + ·) 0 := by
  induction entries with
  | nil => simp at mem
  | cons entry entries ih =>
    rw [List.map_cons, List.nodup_cons] at distinct
    simp only [List.map_cons, List.foldr_cons]
    rcases List.mem_cons.mp mem with rfl | mem
    · -- The entry of the visited clause no longer counts, and no other entry is concerned.
      have rest :
          entries.map (entryWork (visited.insert id)) = entries.map (entryWork visited) := by
        refine List.map_congr_left fun entry listed => entry_work_insert visited ?_
        rintro rfl
        exact distinct.1 (List.mem_map.mpr ⟨entry, listed, rfl⟩)
      have before : entryWork visited (id, clause) = 1 + clause.parents.length := if_neg fresh
      have after : entryWork (visited.insert id) (id, clause) = 0 := by simp [entryWork]
      rw [rest, before, after]
      omega
    · have other : id ≠ entry.1 := by
        rintro rfl
        exact distinct.1 (List.mem_map.mpr ⟨_, mem, rfl⟩)
      rw [entry_work_insert visited other, ← ih distinct.2 mem]
      omega

theorem work_insert (visited : ClauseIds) {id : ClauseId} {clause : Clause}
    (fresh : id ∉ visited) (found : table[id]? = some clause) :
    work table (visited.insert id) + (1 + clause.parents.length) = work table visited := by
  refine entries_work_insert visited fresh table.toList ?_
    (Std.ExtTreeMap.mem_toList_iff_getElem?_eq_some.mpr found)
  rw [Std.ExtTreeMap.map_fst_toList_eq_keys]
  exact Std.ExtTreeMap.nodup_keys

theorem step_bound_eq (seeds : List ClauseId) :
    stepBound table seeds = seeds.length + work table ∅ := by
  have entry : ∀ entry : ClauseId × Clause, entryWork ∅ entry = 1 + entry.2.parents.length := by
    intro entry
    simp [entryWork]
  rw [stepBound, work, values_of_list, List.map_map]
  exact congrArg (seeds.length + ·.foldr (· + ·) 0)
    (List.map_congr_left fun item _ => (entry item).symm)

theorem run_step (steps : Nat) (id : ClauseId) (rest : List ClauseId) (visited : ClauseIds)
    (trail : List Clause) :
    run table (steps + 1) ⟨id :: rest, visited, trail⟩ =
      run table steps (step table ⟨id :: rest, visited, trail⟩) := rfl

theorem step_known {id : ClauseId} (rest : List ClauseId) {visited : ClauseIds}
    (trail : List Clause) (known : id ∈ visited ∨ id ∉ table) :
    step table ⟨id :: rest, visited, trail⟩ = ⟨rest, visited, trail⟩ := by
  simp only [step]
  split
  · rfl
  · rename_i unseen
    have missing : table[id]? = none :=
      Std.ExtTreeMap.getElem?_eq_none (known.resolve_left unseen)
    rw [missing]

theorem step_found {id : ClauseId} (rest : List ClauseId) {visited : ClauseIds}
    (trail : List Clause) {clause : Clause} (fresh : id ∉ visited)
    (found : table[id]? = some clause) :
    step table ⟨id :: rest, visited, trail⟩ =
      if waitingParents table visited clause = [] then ⟨rest, visited.insert id, clause :: trail⟩
      else ⟨(waitingParents table visited clause).reverse ++ id :: rest, visited, trail⟩ := by
  simp only [step, if_neg fresh, found]
  split
  · rename_i none
    rw [if_pos none]
  · rename_i some
    rw [if_neg some]

theorem explores_waiting_none {visited reached : ClauseIds} {trail grown : List Clause}
    {clause : Clause}
    (explored : Explores table (waitingParents table visited clause).reverse visited trail
      reached grown) : waitingParents table reached clause = [] := by
  refine List.eq_nil_iff_forall_not_mem.mpr fun parent mem => ?_
  obtain ⟨listed, unseen, inTable⟩ := (mem_waiting_parents clause parent).mp mem
  by_cases old : parent ∈ visited
  · exact unseen (explores_grows explored parent old)
  · have waiting := (mem_waiting_parents clause parent).mpr ⟨listed, old, inTable⟩
    exact unseen (explores_covers explored parent (List.mem_reverse.mpr waiting) inTable)

theorem waiting_parents_length (table : Table) (visited : ClauseIds) (clause : Clause) :
    (waitingParents table visited clause).length ≤ clause.parents.length :=
  List.length_filter_le _ _

/-- The walk follows the search. It pops each entry of its stack once and puts the parents of a
clause on it at most once, before the clause is visited. -/
theorem run_explores {ids : List ClauseId} {visited after : ClauseIds}
    {trail extended : List Clause} (explored : Explores table ids visited trail after extended) :
    ∃ steps, steps + work table after ≤ ids.length + work table visited ∧
      ∀ more rest, run table (steps + more) ⟨ids ++ rest, visited, trail⟩ =
        run table more ⟨rest, after, extended⟩ := by
  induction explored with
  | done visited trail => exact ⟨0, by simp, fun more rest => by simp⟩
  | @skip id ids visited after trail extended known _ ih =>
    obtain ⟨steps, bound, runs⟩ := ih
    refine ⟨steps + 1, by simp only [List.length_cons]; omega, fun more rest => ?_⟩
    rw [Nat.add_right_comm, List.cons_append, run_step, step_known _ _ known, runs]
  | @visit id ids visited reached after trail grown extended clause found walked fresh _ above
      rest =>
    obtain ⟨climb, climbBound, climbs⟩ := above
    obtain ⟨steps, bound, runs⟩ := rest
    have unseen : id ∉ visited := fun old => fresh (explores_grows walked id old)
    have saved := work_insert reached fresh found
    have pushed := waiting_parents_length table visited clause
    rw [List.length_reverse] at climbBound
    by_cases none : waitingParents table visited clause = []
    · -- Nothing waits: the clause is visited at once.
      rw [none] at walked
      cases walked
      refine ⟨steps + 1, by simp only [List.length_cons]; omega, fun more others => ?_⟩
      rw [Nat.add_right_comm, List.cons_append, run_step, step_found _ _ unseen found, if_pos none,
        runs]
    · -- The clause stays below its waiting parents and is visited when they are done.
      refine ⟨climb + (steps + 1) + 1, ?_, fun more others => ?_⟩
      · rw [List.length_cons]
        omega
      · rw [Nat.add_right_comm, List.cons_append, run_step, step_found _ _ unseen found,
          if_neg none, Nat.add_assoc, climbs, Nat.add_right_comm, run_step,
          step_found _ _ fresh found, if_pos (explores_waiting_none walked), runs]

end Steps
end Walk

namespace Derivation
variable {table : Table} {seeds : List ClauseId}

theorem walk_of_explores {visited : ClauseIds} {trail : List Clause}
    (explored : Walk.Explores table seeds.reverse ∅ [] visited trail) :
    Walk.run table (Walk.stepBound table seeds) { pending := seeds.reverse } =
      ⟨[], visited, trail⟩ := by
  obtain ⟨steps, bound, runs⟩ := Walk.run_explores explored
  obtain ⟨more, enough⟩ : ∃ more, Walk.stepBound table seeds = steps + more := by
    rw [List.length_reverse] at bound
    refine ⟨Walk.stepBound table seeds - steps, ?_⟩
    rw [Walk.step_bound_eq]
    omega
  have finished := runs more []
  rw [List.append_nil, Walk.run_done] at finished
  rw [enough, finished]

theorem walk_ends (grounded : ∀ seed ∈ seeds, Grounded table seed) :
    ∃ visited trail, Walk.Explores table seeds.reverse ∅ [] visited trail ∧
      Walk.run table (Walk.stepBound table seeds) { pending := seeds.reverse } =
        ⟨[], visited, trail⟩ := by
  obtain ⟨visited, trail, explored⟩ := Walk.explores_all seeds.reverse
    (fun seed mem => Walk.explores_grounded (grounded seed (List.mem_reverse.mp mem))) ∅ []
  exact ⟨visited, trail, explored, walk_of_explores explored⟩

theorem parents_first_explored (grounded : ∀ seed ∈ seeds, Grounded table seed) :
    ∃ visited trail, Walk.Explores table seeds.reverse ∅ [] visited trail ∧
      parentsFirstFrom table seeds = trail.reverse := by
  obtain ⟨visited, trail, explored, ended⟩ := walk_ends grounded
  exact ⟨visited, trail, explored, by rw [parentsFirstFrom, ended]⟩

theorem parents_first_finished (keyed : Keyed table)
    (grounded : ∀ seed ∈ seeds, Grounded table seed) :
    Finished table (parentsFirstFrom table seeds).reverse := by
  obtain ⟨visited, trail, explored, listed⟩ := parents_first_explored grounded
  rw [listed, List.reverse_reverse]
  exact (Walk.explores_finished keyed explored (by simp) .nil).2

theorem mem_parents_first (keyed : Keyed table) (grounded : ∀ seed ∈ seeds, Grounded table seed)
    (id : ClauseId) :
    id ∈ (parentsFirstFrom table seeds).map Clause.id ↔
      id ∈ table ∧ ∃ seed ∈ seeds, Underlies table id seed := by
  obtain ⟨visited, trail, explored, listed⟩ := parents_first_explored grounded
  obtain ⟨same, finished⟩ := Walk.explores_finished keyed explored (by simp) .nil
  rw [listed, List.map_reverse, List.mem_reverse]
  constructor
  · intro mem
    refine ⟨finished_in_table finished mem, ?_⟩
    rcases Walk.explores_sources explored id ((same id).mpr mem) with none | ⟨seed, given, under⟩
    · simp at none
    · exact ⟨seed, List.mem_reverse.mp given, under⟩
  · intro wanted
    obtain ⟨inTable, seed, given, under⟩ := wanted
    refine finished_underlies finished under inTable ((same seed).mp ?_)
    exact Walk.explores_covers explored seed (List.mem_reverse.mpr given)
      (upper_in_table inTable under)

end Derivation
end DerivationReplay
