import DerivationReplay.Derivation.Order

/-!
Contraction of preprocessing: an input formula takes several forms before the search; only the edge
from the first form to the last one is kept, and what no leaf needs any more is dropped.
-/
namespace DerivationReplay.Derivation

/-- What takes the place of a parent: a clause of preprocessing gives way to its own parents. If
it has none it stays, unless it is an instance of the axiom of choice. -/
def replaceParent (table : Table) (choiceRule : String) (parent : ClauseId) : List ClauseId :=
  match table[parent]? with
  | some clause =>
    if !clause.fromPreprocessing then [parent]
    else if !clause.parents.isEmpty then clause.parents
    else if clause.rule = choiceRule then []
    else [parent]
  | none => [parent]

def contractedParents (table : Table) (choiceRule : String) (clause : Clause) : List ClauseId :=
  (clause.parents.flatMap (replaceParent table choiceRule)).eraseDups

def contractAt (choiceRule : String) (table : Table) (id : ClauseId) : Table :=
  match table[id]? with
  | some clause =>
    if clause.fromPreprocessing then
      table.insert id { clause with parents := contractedParents table choiceRule clause }
    else table
  | none => table

/-- Parents are contracted before their children, so that chains of any length collapse. -/
def contractTable (derivation : Derivation) (choiceRule : String) : Table :=
  (derivation.parentsFirst.map Clause.id).foldl (contractAt choiceRule) derivation.table

def contractPreprocessing (derivation : Derivation) (choiceRule : String) : Derivation :=
  let reached := parentsFirstFrom (derivation.contractTable choiceRule) derivation.leaves.toList
  assemble (.ofList (reached.map fun clause => (clause.id, clause)))

end DerivationReplay.Derivation
