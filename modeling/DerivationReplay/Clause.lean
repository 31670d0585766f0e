import DerivationReplay.Clause.Lifecycle

/-! Clauses of a derivation, with their lifecycle and the edges to their parents and children. -/
namespace DerivationReplay

structure Clause where
  id : ClauseId
  text : String
  rule : String
  /-- In the order of the inference; a parent may occur more than once. -/
  parents : List ClauseId := []
  children : ClauseIds := ∅
  statistics : Statistics := ∅
  fromPreprocessing : Bool := false
  life : Lifecycle := {}
deriving DecidableEq, Repr

inductive Presence
  | active
  | preprocessing
  | hidden
deriving DecidableEq, Repr

def Presence.name : Presence → String
  | active => "active"
  | preprocessing => "preprocessing"
  | hidden => "hidden"

namespace Clause

/-- The rule of a clause whose derivation continues outside the view. -/
def boundaryRule : String := "Boundary"

def placeholderLabel : String := "Preproc"

/-- Stands for a parent that has not been declared. -/
def placeholder (id : ClauseId) : Clause where
  id := id
  text := placeholderLabel
  rule := placeholderLabel
  fromPreprocessing := true

def boundary (clause : Clause) : Clause :=
  { clause with rule := boundaryRule, parents := [], children := ∅ }

def isBoundary (clause : Clause) : Bool := clause.rule = boundaryRule

def isActivated (clause : Clause) : Bool := clause.life.active.isSome

def isActiveAt (clause : Clause) (step : Nat) : Bool :=
  clause.life.active.any (·.toNat ≤ step)

def isVisibleAt (clause : Clause) (step : Nat) : Bool :=
  clause.fromPreprocessing || clause.isActiveAt step

def presenceAt (clause : Clause) (step : Nat) : Presence :=
  if clause.isActiveAt step then .active
  else if clause.fromPreprocessing then .preprocessing
  else .hidden

def line (clause : Clause) : String :=
  let parents := if clause.parents.isEmpty then "" else " " ++ showIds clause.parents
  toString clause.id ++ ". " ++ clause.text ++ " [" ++ clause.rule ++ parents ++ "]"

theorem visible_iff_not_hidden (clause : Clause) (step : Nat) :
    clause.isVisibleAt step ↔ clause.presenceAt step ≠ .hidden := by
  unfold isVisibleAt presenceAt
  cases clause.isActiveAt step <;> cases clause.fromPreprocessing <;> decide

end Clause
end DerivationReplay
