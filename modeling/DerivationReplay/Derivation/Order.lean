import DerivationReplay.Derivation

/-!
The order in which every clause comes after its parents: depth first from the leaves, with an
explicit stack. The greatest leaf is visited first, and of several parents the last one.
-/
namespace DerivationReplay

structure Walk where
  /-- The clauses still to visit, the next one first. -/
  pending : List ClauseId
  visited : ClauseIds := ∅
  /-- The visited clauses, the latest first. -/
  trail : List Clause := []

namespace Walk

def waitingParents (table : Table) (visited : ClauseIds) (clause : Clause) : List ClauseId :=
  clause.parents.filter fun parent => !visited.contains parent && table.contains parent

/-- A clause is visited as soon as none of its parents is waiting; until then it stays on the
stack below them. -/
def step (table : Table) (walk : Walk) : Walk :=
  match walk.pending with
  | [] => walk
  | id :: rest =>
    if id ∈ walk.visited then { walk with pending := rest }
    else match table[id]? with
      | none => { walk with pending := rest }
      | some clause =>
        match waitingParents table walk.visited clause with
        | [] =>
          { pending := rest, visited := walk.visited.insert id, trail := clause :: walk.trail }
        | waiting => { walk with pending := waiting.reverse ++ walk.pending }

def run (table : Table) : Nat → Walk → Walk
  | 0, walk => walk
  | steps + 1, walk => if walk.pending.isEmpty then walk else run table steps (step table walk)

/-- Without a cycle, each clause puts its parents on the stack at most once, and each entry of the
stack is removed once. -/
def stepBound (table : Table) (seeds : List ClauseId) : Nat :=
  seeds.length + (table.values.map fun clause => 1 + clause.parents.length).foldr (· + ·) 0

theorem run_done (table : Table) (steps : Nat) (visited : ClauseIds) (trail : List Clause) :
    run table steps ⟨[], visited, trail⟩ = ⟨[], visited, trail⟩ := by
  cases steps <;> rfl

end Walk

namespace Derivation

def parentsFirstFrom (table : Table) (seeds : List ClauseId) : List Clause :=
  (Walk.run table (Walk.stepBound table seeds) { pending := seeds.reverse }).trail.reverse

def parentsFirst (derivation : Derivation) : List Clause :=
  parentsFirstFrom derivation.table derivation.leaves.toList

def childrenFirst (derivation : Derivation) : List Clause := derivation.parentsFirst.reverse

end Derivation
end DerivationReplay
