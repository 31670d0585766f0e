import DerivationReplay.Clause.Numbering

/-!
The lifecycle of a clause: it is new, then passive, then active, and it can be deleted once it is
new. Each stamp is set at most once.
-/
namespace DerivationReplay

inductive Stamp
  | new
  | passive
  | active
  | deletion
deriving DecidableEq, Repr

def Stamp.name : Stamp → String
  | new => "new"
  | passive => "passive"
  | active => "active"
  | deletion => "deletion"

structure Lifecycle where
  new : Option Time := none
  passive : Option Time := none
  active : Option Time := none
  deletion : Option Time := none
  /-- The clauses that replaced this one or were used to delete it. -/
  deletionParents : List ClauseId := []
deriving DecidableEq, Repr

namespace Lifecycle

inductive Violation
  | alreadySet (stamp : Stamp)
  | missingPrerequisite (stamp requires : Stamp)
  | afterLaterStamp (stamp later : Stamp)
  | notDeleted
deriving DecidableEq, Repr

def Violation.message : Violation → String
  | alreadySet stamp => stamp.name ++ " time is already set"
  | missingPrerequisite stamp requires =>
    stamp.name ++ " time requires " ++ requires.name ++ " time to be set first"
  | afterLaterStamp stamp later =>
    stamp.name ++ " time cannot be set after " ++ later.name ++ " time"
  | notDeleted => "deletion parents require a deletion time"

def setNew (life : Lifecycle) (time : Time) : Except Violation Lifecycle :=
  if life.new.isSome then .error (.alreadySet .new)
  else if life.passive.isSome then .error (.afterLaterStamp .new .passive)
  else if life.active.isSome then .error (.afterLaterStamp .new .active)
  else .ok { life with new := some time }

def setPassive (life : Lifecycle) (time : Time) : Except Violation Lifecycle :=
  if life.new.isNone then .error (.missingPrerequisite .passive .new)
  else if life.passive.isSome then .error (.alreadySet .passive)
  else if life.active.isSome then .error (.afterLaterStamp .passive .active)
  else .ok { life with passive := some time }

def setActive (life : Lifecycle) (step : Time) : Except Violation Lifecycle :=
  if life.new.isNone then .error (.missingPrerequisite .active .new)
  else if life.passive.isNone then .error (.missingPrerequisite .active .passive)
  else if life.active.isSome then .error (.alreadySet .active)
  else .ok { life with active := some step }

/-- Deletion parents recorded before the deletion are forgotten. -/
def setDeletion (life : Lifecycle) (time : Time) : Except Violation Lifecycle :=
  if life.new.isNone then .error (.missingPrerequisite .deletion .new)
  else if life.deletion.isSome then .error (.alreadySet .deletion)
  else .ok { life with deletion := some time, deletionParents := [] }

def addDeletionParent (life : Lifecycle) (parent : ClauseId) : Except Violation Lifecycle :=
  if life.deletion.isNone then .error .notDeleted
  else .ok { life with deletionParents := life.deletionParents ++ [parent] }

theorem set_new_ok_iff (life after : Lifecycle) (time : Time) :
    life.setNew time = .ok after ↔ life.new = none ∧ life.passive = none ∧ life.active = none ∧
      after = { life with new := some time } := by
  simp only [setNew]
  cases life.new <;> cases life.passive <;> cases life.active <;> simp [eq_comm]

theorem set_passive_ok_iff (life after : Lifecycle) (time : Time) :
    life.setPassive time = .ok after ↔ life.new.isSome ∧ life.passive = none ∧
      life.active = none ∧ after = { life with passive := some time } := by
  simp only [setPassive]
  cases life.new <;> cases life.passive <;> cases life.active <;> simp [eq_comm]

theorem set_active_ok_iff (life after : Lifecycle) (step : Time) :
    life.setActive step = .ok after ↔ life.new.isSome ∧ life.passive.isSome ∧
      life.active = none ∧ after = { life with active := some step } := by
  simp only [setActive]
  cases life.new <;> cases life.passive <;> cases life.active <;> simp [eq_comm]

theorem set_deletion_ok_iff (life after : Lifecycle) (time : Time) :
    life.setDeletion time = .ok after ↔ life.new.isSome ∧ life.deletion = none ∧
      after = { life with deletion := some time, deletionParents := [] } := by
  simp only [setDeletion]
  cases life.new <;> cases life.deletion <;> simp [eq_comm]

theorem add_deletion_parent_ok_iff (life after : Lifecycle) (parent : ClauseId) :
    life.addDeletionParent parent = .ok after ↔ life.deletion.isSome ∧
      after = { life with deletionParents := life.deletionParents ++ [parent] } := by
  simp only [addDeletionParent]
  cases life.deletion <;> simp [eq_comm]

end Lifecycle
end DerivationReplay
