import DerivationReplay.Derivation.Order

/-! Views of a derivation: what given clauses are derived from, and what is derived from them. -/
namespace DerivationReplay

structure UnknownClause where
  id : ClauseId
deriving DecidableEq, Repr

def UnknownClause.message (unknown : UnknownClause) : String :=
  "unknown node id: " ++ toString unknown.id

structure Selection where
  wanted : ClauseIds
  kept : Table := ∅

namespace Selection

def takeAncestor (selection : Selection) (clause : Clause) : Selection :=
  if clause.id ∈ selection.wanted then
    { wanted := clause.parents.foldl (·.insert ·) selection.wanted
      kept := selection.kept.insert clause.id clause }
  else selection

def addOutsideParents (source : Table) (wanted : ClauseIds) (clause : Clause) (kept : Table) :
    Table :=
  clause.parents.foldl
    (fun kept parent =>
      if parent ∈ wanted then kept
      else match source[parent]? with
        | some outside => kept.insert parent outside.boundary
        | none => kept) kept

/-- A clause with a wanted parent is kept, with the other parents at the boundary; a wanted clause
without one is at the boundary itself. -/
def takeDescendant (source : Table) (selection : Selection) (clause : Clause) : Selection :=
  let derived := clause.parents.any fun parent => selection.wanted.contains parent
  if derived then
    let wanted := selection.wanted.insert clause.id
    { wanted
      kept := (addOutsideParents source wanted clause selection.kept).insert clause.id clause }
  else if clause.id ∈ selection.wanted then
    { selection with kept := selection.kept.insert clause.id clause.boundary }
  else selection

end Selection

namespace Derivation

def firstUnknown? (derivation : Derivation) (ids : ClauseIds) : Option UnknownClause :=
  (ids.toList.find? fun id => !derivation.table.contains id).map .mk

def requireKnown (derivation : Derivation) (ids : ClauseIds) : Except UnknownClause Unit :=
  match derivation.firstUnknown? ids with
  | some unknown => .error unknown
  | none => .ok ()

/-- Children are swept before their parents, so that each clause is wanted before its turn. -/
def ancestorClosure (derivation : Derivation) (ids : ClauseIds) : Derivation :=
  assemble (derivation.childrenFirst.foldl Selection.takeAncestor { wanted := ids }).kept

def descendantClosure (derivation : Derivation) (ids : ClauseIds) : Derivation :=
  assemble
    (derivation.parentsFirst.foldl (Selection.takeDescendant derivation.table)
      { wanted := ids }).kept

def ancestorView (derivation : Derivation) (ids : List ClauseId) :
    Except UnknownClause Derivation := do
  derivation.requireKnown (.ofList ids)
  return derivation.ancestorClosure (.ofList ids)

def descendantView (derivation : Derivation) (ids : List ClauseId) :
    Except UnknownClause Derivation := do
  derivation.requireKnown (.ofList ids)
  return derivation.descendantClosure (.ofList ids)

/-- What the activated clauses are derived from; all else is no part of the replay. -/
def activatedPart (derivation : Derivation) : Derivation :=
  derivation.ancestorClosure (.ofList (derivation.activated.map Clause.id))

end Derivation
end DerivationReplay
