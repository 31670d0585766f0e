import DerivationReplay.Proofs.Enumeration

/-!
The walk against plain recursion. `visit` searches depth first without a stack: at a clause not
visited before, it visits each parent, from the last one to the first, and then lists the clause.
It recurs along parents, so it is there for every clause from which all climbs end. The stack holds
parents that a longer way visits before their turn comes; skipping them, the walk lists what the
recursion lists, in the same order.
-/
namespace DerivationReplay
namespace Walk

structure Listing where
  visited : ClauseIds := ∅
  order : List Clause := []

def visit (table : Table) (id : ClauseId) (grounded : Grounded table id) (listing : Listing) :
    Listing :=
  if id ∈ listing.visited then listing
  else match found : table[id]? with
    | none => listing
    | some clause =>
      let above := clause.parents.reverse.attach.foldl
        (fun listing ⟨parent, listed⟩ =>
          visit table parent (grounded.inv ⟨clause, found, List.mem_reverse.mp listed⟩) listing)
        listing
      { visited := above.visited.insert id, order := above.order ++ [clause] }
termination_by (⟨id, grounded⟩ : { id // Acc (IsParent table) id })
decreasing_by exact ⟨clause, found, List.mem_reverse.mp listed⟩

def visitAll (table : Table) (ids : List ClauseId) (grounded : ∀ id ∈ ids, Grounded table id)
    (listing : Listing) : Listing :=
  ids.attach.foldl (fun listing ⟨id, listed⟩ => visit table id (grounded id listed) listing) listing

section Visit
variable {table : Table} {id : ClauseId}

theorem visit_all_cons {ids : List ClauseId} (grounded : ∀ other ∈ id :: ids, Grounded table other)
    (listing : Listing) :
    visitAll table (id :: ids) grounded listing =
      visitAll table ids (fun other listed => grounded other (.tail _ listed))
        (visit table id (grounded id (.head _)) listing) := by
  rw [visitAll, List.attach_cons, List.foldl_cons, List.foldl_map]
  rfl

theorem visit_known (grounded : Grounded table id) {listing : Listing}
    (known : id ∈ listing.visited ∨ id ∉ table) : visit table id grounded listing = listing := by
  rw [visit]
  split
  · rfl
  · rename_i unseen
    split
    · rfl
    · rename_i clause found
      exact absurd ((mem_table_iff table id).mpr ⟨clause, found⟩) (known.resolve_left unseen)

theorem visit_fresh (grounded : Grounded table id) {listing : Listing} {clause : Clause}
    (fresh : id ∉ listing.visited) (found : table[id]? = some clause)
    (above : ∀ parent ∈ clause.parents.reverse, Grounded table parent) :
    visit table id grounded listing =
      { visited := (visitAll table clause.parents.reverse above listing).visited.insert id
        order := (visitAll table clause.parents.reverse above listing).order ++ [clause] } := by
  rw [visit, if_neg fresh]
  split
  · simp_all
  · rename_i other here
    obtain rfl := Option.some.inj (here.symm.trans found)
    rfl

end Visit

def Leads (table : Table) (ids : List ClauseId) (before after : Listing) : Prop :=
  Explores table ids before.visited before.order.reverse after.visited after.order.reverse

section Explores
variable {table : Table} {ids : List ClauseId} {visited after : ClauseIds}
  {trail extended : List Clause}

/-- What is visited already or unknown may be left out beforehand: it would be skipped. -/
theorem explores_filter (explored : Explores table ids visited trail after extended)
    (keep : ClauseId → Bool) (known : ∀ id, keep id = false → id ∈ visited ∨ id ∉ table) :
    Explores table (ids.filter keep) visited trail after extended := by
  induction explored with
  | done => exact .done _ _
  | @skip id ids visited after trail extended skipped _ ih =>
    cases kept : keep id with
    | true =>
      rw [List.filter_cons_of_pos kept]
      exact .skip skipped (ih known)
    | false =>
      rw [List.filter_cons_of_neg (by simp [kept])]
      exact ih known
  | @visit id ids visited reached after trail grown extended clause found above fresh _ _ ih =>
    have grows := explores_grows above
    cases kept : keep id with
    | true =>
      rw [List.filter_cons_of_pos kept]
      refine .visit found above fresh (ih fun other dropped => (known other dropped).imp_left ?_)
      exact fun mem => (mem_visited_insert _ _ _).mpr (.inr (grows other mem))
    | false =>
      -- A clause that is visited now is none of those left out.
      rcases known id kept with mem | out
      · exact absurd (grows id mem) fresh
      · exact absurd ((mem_table_iff table id).mpr ⟨clause, found⟩) out

theorem visit_all_leads (grounded : ∀ id ∈ ids, Grounded table id)
    (each : ∀ id (listed : id ∈ ids) (listing : Listing),
      Leads table [id] listing (visit table id (grounded id listed) listing)) (listing : Listing) :
    Leads table ids listing (visitAll table ids grounded listing) := by
  induction ids generalizing listing with
  | nil => exact .done _ _
  | cons id ids ih =>
    rw [visit_all_cons]
    exact explores_cons (each id (.head _) listing)
      (ih _ (fun other listed => each other (.tail _ listed)) _)

theorem visit_leads {id : ClauseId} (grounded : Grounded table id) (listing : Listing) :
    Leads table [id] listing (visit table id grounded listing) := by
  induction grounded generalizing listing with
  | intro id above ih =>
    have grounded : Grounded table id := Acc.intro id above
    by_cases known : id ∈ listing.visited ∨ id ∉ table
    · rw [visit_known grounded known]
      exact .skip known (.done _ _)
    · rw [not_or, not_not] at known
      obtain ⟨unseen, inTable⟩ := known
      obtain ⟨clause, found⟩ := (mem_table_iff table id).mp inTable
      have edges : ∀ parent ∈ clause.parents.reverse, IsParent table parent id :=
        fun parent listed => ⟨clause, found, List.mem_reverse.mp listed⟩
      have climbs : ∀ parent ∈ clause.parents.reverse, Grounded table parent :=
        fun parent listed => above parent (edges parent listed)
      have parents : Leads table clause.parents.reverse listing _ :=
        visit_all_leads climbs (fun parent listed => ih parent (edges parent listed)) listing
      have fresh := explores_parents_fresh grounded unseen edges parents
      -- The walk only pushes the parents that are waiting when it comes to the clause.
      have waiting := explores_filter parents
        (fun parent => !listing.visited.contains parent && table.contains parent)
        fun parent dropped => by
          simpa [or_iff_not_imp_left, ← Bool.not_eq_true, Std.ExtTreeSet.contains_iff_mem,
            Std.ExtTreeMap.contains_iff_mem] using dropped
      rw [List.filter_reverse] at waiting
      rw [visit_fresh grounded unseen found climbs, Leads, List.reverse_concat]
      exact .visit found waiting fresh (.done _ _)

end Explores
end Walk

namespace Derivation
variable {derivation : Derivation}

/-- The clauses as the recursion lists them when it is started at each leaf, the greatest first. -/
def recursiveOrder (derivation : Derivation) (clear : derivation.Traversable) : List Clause :=
  (Walk.visitAll derivation.table derivation.leaves.toList.reverse
    (fun _ listed =>
      leaf_grounded clear (Std.ExtTreeSet.mem_toList.mp (List.mem_reverse.mp listed))) {}).order

/-- The walk ends, and lists the clauses in the order of the recursion. -/
theorem walk_follows_recursion (clear : derivation.Traversable) :
    derivation.parentsFirst = derivation.recursiveOrder clear ∧
    ∀ steps, Walk.stepBound derivation.table derivation.leaves.toList ≤ steps → ∃ visited,
      Walk.run derivation.table steps { pending := derivation.leaves.toList.reverse } =
        ⟨[], visited, (derivation.recursiveOrder clear).reverse⟩ := by
  have grounded : ∀ leaf ∈ derivation.leaves.toList.reverse, Grounded derivation.table leaf :=
    fun _ listed =>
      leaf_grounded clear (Std.ExtTreeSet.mem_toList.mp (List.mem_reverse.mp listed))
  have explored := Walk.visit_all_leads grounded
    (fun leaf listed => Walk.visit_leads (grounded leaf listed)) {}
  have same : derivation.parentsFirst = derivation.recursiveOrder clear := by
    rw [parentsFirst, parentsFirstFrom, walk_of_explores explored, List.reverse_reverse]
    rfl
  refine ⟨same, fun steps enough => ?_⟩
  rw [← same]
  exact walk_over clear steps enough

def sharedParents : List Clause :=
  [{ id := 1, text := "p", rule := "input" },
    { id := 2, text := "q", rule := "factoring", parents := [1, 1] },
    { id := 3, text := "r", rule := "resolution", parents := [1, 2] },
    { id := 4, text := "s", rule := "input" },
    { id := 5, text := "t", rule := "resolution", parents := [4, 3] },
    { id := 6, text := "u", rule := "resolution", parents := [1, 2, 3, 2] },
    { id := 9, text := "v", rule := "resolution", parents := [3, 5] }]

theorem shared_parents_listed : ∃ derivation, ofClauses (sharedParents ++ detachedCycle) =
    .ok derivation ∧ ¬ Acyclic derivation.table ∧ ∃ clear : derivation.Traversable,
      derivation.parentsFirst = derivation.recursiveOrder clear ∧
      (derivation.recursiveOrder clear).map Clause.id = [1, 2, 3, 4, 5, 9, 6] := by
  obtain ⟨derivation, given, order, ends, first, second⟩ : ∃ derivation,
      ofClauses (sharedParents ++ detachedCycle) = .ok derivation ∧
      derivation.parentsFirst.map Clause.id = [1, 2, 3, 4, 5, 9, 6] ∧ derivation.Ends ∧
      IsParent derivation.table 7 8 ∧ IsParent derivation.table 8 7 :=
    ⟨_, rfl, rfl, ⟨30, rfl⟩, ⟨_, rfl, by decide⟩, ⟨_, rfl, by decide⟩⟩
  have clear := (ends_iff_traversable (clauses_coherent given)).mp ends
  have cyclic : ¬ Acyclic derivation.table := fun acyclic =>
    acyclic 7 (Relation.TransGen.tail (parent_is_ancestor first) second)
  obtain ⟨same, _⟩ := walk_follows_recursion clear
  exact ⟨derivation, given, cyclic, clear, same, same ▸ order⟩

end Derivation
end DerivationReplay
