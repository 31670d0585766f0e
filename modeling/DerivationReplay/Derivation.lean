import DerivationReplay.Clause

/-!
Derivations: clauses by number, each naming its parents. Children and leaves follow from the
parents; `assemble` computes them, and every derivation is built by it.
-/
namespace DerivationReplay

abbrev Table := Std.ExtTreeMap ClauseId Clause compare

structure Derivation where
  table : Table
  /-- The clauses that are no parent. -/
  leaves : ClauseIds
deriving DecidableEq

namespace Derivation

inductive Flaw
  | duplicate (id : ClauseId)
  | danglingParent (id parent : ClauseId)
  | keyMismatch (key id : ClauseId)
deriving DecidableEq, Repr

def Flaw.message : Flaw → String
  | duplicate id => "duplicate node id: " ++ toString id
  | danglingParent id parent =>
    "node " ++ toString id ++ " references missing parent " ++ toString parent
  | keyMismatch key id => "node table key " ++ toString key ++ " holds node " ++ toString id

def addChild (children : Std.ExtTreeMap ClauseId ClauseIds compare) (parent child : ClauseId) :
    Std.ExtTreeMap ClauseId ClauseIds compare :=
  children.insert parent ((children.getD parent ∅).insert child)

def childrenByParent (table : Table) : Std.ExtTreeMap ClauseId ClauseIds compare :=
  table.foldl
    (fun children _ clause => clause.parents.foldl (addChild · · clause.id) children) ∅

def assemble (table : Table) : Derivation :=
  let children := childrenByParent table
  { table := table.map fun id clause => { clause with children := children.getD id ∅ }
    leaves := .ofList (table.keys.filter fun id => !children.contains id) }

def missingParent? (table : Table) (clause : Clause) : Option ClauseId :=
  clause.parents.find? fun parent => !table.contains parent

def danglingParent? (table : Table) : Option Flaw :=
  table.toList.findSome? fun (_, clause) =>
    (missingParent? table clause).map (.danglingParent clause.id)

def keyMismatch? (table : Table) : Option Flaw :=
  table.toList.findSome? fun (key, clause) =>
    if key = clause.id then none else some (.keyMismatch key clause.id)

/-- The clauses by number; the first that repeats a number is refused. -/
def tabulate (clauses : List Clause) : Except Flaw Table :=
  clauses.foldlM
    (fun table clause =>
      if clause.id ∈ table then .error (.duplicate clause.id)
      else .ok (table.insert clause.id clause)) ∅

def ofClosedTable (table : Table) : Except Flaw Derivation :=
  match danglingParent? table with
  | some flaw => .error flaw
  | none => .ok (assemble table)

def ofClauses (clauses : List Clause) : Except Flaw Derivation :=
  tabulate clauses >>= ofClosedTable

/-- Keys are compared with the numbers of their clauses before any parent is looked up. -/
def ofTable (table : Table) : Except Flaw Derivation :=
  match keyMismatch? table with
  | some flaw => .error flaw
  | none => ofClosedTable table

def clauses (derivation : Derivation) : List Clause := derivation.table.values

def ids (derivation : Derivation) : List ClauseId := derivation.table.keys

def get? (derivation : Derivation) (id : ClauseId) : Option Clause := derivation.table[id]?

instance : Membership ClauseId Derivation where
  mem derivation id := id ∈ derivation.table

instance (id : ClauseId) (derivation : Derivation) : Decidable (id ∈ derivation) :=
  inferInstanceAs (Decidable (id ∈ derivation.table))

def activated (derivation : Derivation) : List Clause :=
  derivation.clauses.filter Clause.isActivated

/-- The number of activations, which is the last step of the replay. -/
def lastStep (derivation : Derivation) : Nat := derivation.activated.length

def visibleAt (derivation : Derivation) (step : Nat) : List Clause :=
  derivation.clauses.filter (·.isVisibleAt step)

theorem mem_assemble (table : Table) (id : ClauseId) : id ∈ assemble table ↔ id ∈ table :=
  Std.ExtTreeMap.mem_map

theorem get_assemble (table : Table) (id : ClauseId) :
    (assemble table).get? id = table[id]?.map fun clause =>
      { clause with children := (childrenByParent table).getD id ∅ } :=
  Std.ExtTreeMap.getElem?_map

end Derivation
end DerivationReplay
