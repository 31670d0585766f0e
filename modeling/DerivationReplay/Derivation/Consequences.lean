import DerivationReplay.Derivation.Selection

/-! The common consequences of given clauses: those whose derivation uses all of them. -/
namespace DerivationReplay

structure ConsequenceSearch where
  /-- For each clause seen, the given clauses in its derivation. -/
  support : Std.ExtTreeMap ClauseId ClauseIds compare := ∅
  /-- The latest first. -/
  found : List ClauseId := []

namespace ConsequenceSearch

def supportOf (given : ClauseIds) (search : ConsequenceSearch) (clause : Clause) : ClauseIds :=
  clause.parents.foldl (fun support parent => support ∪ search.support.getD parent ∅)
    (if clause.id ∈ given then {clause.id} else ∅)

/-- A support consists of given clauses, so one of full size holds them all. -/
def visit (given : ClauseIds) (search : ConsequenceSearch) (clause : Clause) :
    ConsequenceSearch :=
  let support := search.supportOf given clause
  { support := search.support.insert clause.id support
    found := if support.size = given.size then clause.id :: search.found else search.found }

end ConsequenceSearch

def Derivation.commonConsequences (derivation : Derivation) (ids : List ClauseId) :
    Except UnknownClause (List ClauseId) := do
  let given := .ofList ids
  derivation.requireKnown given
  return (derivation.parentsFirst.foldl (ConsequenceSearch.visit given) {}).found.reverse

end DerivationReplay
