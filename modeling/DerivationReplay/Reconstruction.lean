import DerivationReplay.Derivation.Contraction
import DerivationReplay.Derivation.Selection
import DerivationReplay.Event
import DerivationReplay.Options

/-!
Reconstruction of a derivation from the events of a run, one event at a time. Clauses are stamped
with the places of their events; activations are numbered, and their numbers are the replay steps.
-/
namespace DerivationReplay

structure Reconstruction where
  options : Options
  table : Table := ∅
  /-- Parents that have not been declared yet. -/
  placeholders : ClauseIds := ∅
  /-- Not a word of 64 bits, which would be used up after 2^64 activations. -/
  activations : Nat := 0
  /-- The clause reduced last. -/
  reduced : Option ClauseId := none
  /-- Whether the empty clause has been derived; later events are ignored. -/
  saturated : Bool := false
deriving DecidableEq

namespace Reconstruction

inductive Fault
  | outOfOrder (id : ClauseId) (kind : EventKind)
  | ruleRestated (id : ClauseId) (expected found : String)
  | parentsRestated (id : ClauseId) (expected found : List ClauseId)
  | declaredTwice (id : ClauseId)
  | noReduction (id : ClauseId) (kind : EventKind)
  | lifecycle (id : ClauseId) (violation : Lifecycle.Violation)
deriving DecidableEq, Repr

structure Rejection where
  index : Nat
  fault : Fault
deriving DecidableEq, Repr

def bracketed (ids : List ClauseId) : String := "[" ++ ", ".intercalate (ids.map toString) ++ "]"

def restated (id : ClauseId) (field expected found : String) : String :=
  "clause " ++ toString id ++ " restated with " ++ field ++ " `" ++ found ++ "`, expected `" ++
    expected ++ "`"

def Fault.message : Fault → String
  | outOfOrder id kind =>
    kind.phrase ++ " event for clause " ++ toString id ++ " is out of lifecycle order"
  | ruleRestated id expected found => restated id "inference rule" expected found
  | parentsRestated id expected found =>
    restated id "parents" (bracketed expected) (bracketed found)
  | declaredTwice id => "clause " ++ toString id ++ " is declared twice"
  | noReduction id kind =>
    "`" ++ kind.phrase ++ "` for clause " ++ toString id ++ " without a preceding reduction"
  | lifecycle id violation => "clause " ++ toString id ++ ": " ++ violation.message

def Rejection.message (rejection : Rejection) : String :=
  "parsed line " ++ toString rejection.index ++ ": " ++ rejection.fault.message

def declared? (state : Reconstruction) (id : ClauseId) : Option Clause :=
  if id ∈ state.placeholders then none else state.table[id]?

def requireDeclared (state : Reconstruction) (event : Event) : Except Fault Clause :=
  match state.declared? event.id with
  | some clause => .ok clause
  | none => .error (.outOfOrder event.id event.kind)

def checkRestatement (clause : Clause) (event : Event) : Except Fault Unit :=
  if clause.rule ≠ event.rule then .error (.ruleRestated event.id clause.rule event.rule)
  else if clause.parents ≠ event.parents then
    .error (.parentsRestated event.id clause.parents event.parents)
  else .ok ()

def stamped (id : ClauseId) (life : Except Lifecycle.Violation Lifecycle) :
    Except Fault Lifecycle :=
  life.mapError (.lifecycle id)

def declaration (event : Event) (fromPreprocessing : Bool) : Clause where
  id := event.id
  text := event.clause
  rule := event.rule
  parents := event.parents
  statistics := event.statistics
  fromPreprocessing := fromPreprocessing

def store (state : Reconstruction) (clause : Clause) : Reconstruction :=
  { state with
    table := state.table.insert clause.id clause
    placeholders := state.placeholders.erase clause.id }

def declarePreprocessing (state : Reconstruction) (event : Event) :
    Except Fault Reconstruction :=
  match state.declared? event.id with
  | some _ => .error (.declaredTwice event.id)
  | none => .ok (state.store (declaration event true))

/-- The empty clause is passive and active at once, and ends the search. -/
def saturate (state : Reconstruction) (time : Time) (clause : Clause) :
    Except Fault Reconstruction := do
  let step := state.activations + 1
  let life ← stamped clause.id (clause.life.setPassive time)
  let life ← stamped clause.id (life.setActive (.ofNat step))
  return { state.store { clause with life } with activations := step, saturated := true }

/-- A clause of preprocessing becomes new when the search takes it up; any other clause is
declared by being new. -/
def newClause (state : Reconstruction) (time : Time) (event : Event) : Except Fault Clause :=
  match state.declared? event.id with
  | some clause => do
    checkRestatement clause event
    let life ← stamped event.id (clause.life.setNew time)
    return { clause with life }
  | none => .ok { declaration event false with life := { new := some time } }

def declareNew (state : Reconstruction) (time : Time) (event : Event) :
    Except Fault Reconstruction := do
  let clause ← state.newClause time event
  if event.clause = state.options.emptyClause then state.saturate time clause
  else return state.store clause

def makePassive (state : Reconstruction) (time : Time) (event : Event) :
    Except Fault Reconstruction := do
  let clause ← state.requireDeclared event
  checkRestatement clause event
  let life ← stamped event.id (clause.life.setPassive time)
  return state.store { clause with life }

def requirePassive (state : Reconstruction) (event : Event) : Except Fault Clause := do
  let clause ← state.requireDeclared event
  if clause.life.passive.isNone then .error (.outOfOrder event.id event.kind)
  else
    checkRestatement clause event
    return clause

/-- The clause shows the text and the statistics that it was activated with. -/
def makeActive (state : Reconstruction) (event : Event) (clause : Clause) :
    Except Fault Reconstruction := do
  let life ← stamped event.id (clause.life.setActive (.ofNat state.activations))
  return state.store { clause with text := event.clause, statistics := event.statistics, life }

def reduce (state : Reconstruction) (time : Time) (event : Event) :
    Except Fault Reconstruction := do
  let clause ← state.requireDeclared event
  let life ← stamped event.id (clause.life.setDeletion time)
  return { state.store { clause with life } with reduced := some event.id }

def addReductionParent (state : Reconstruction) (event : Event) : Except Fault Reconstruction :=
  match state.reduced with
  | none => .error (.noReduction event.id event.kind)
  | some id => do
    let clause := (state.table[id]?).getD (.placeholder id)
    let life ← stamped id (clause.life.addDeletionParent event.id)
    return state.store { clause with life }

def settle (state : Reconstruction) : Except Fault Reconstruction → Reconstruction × Option Fault
  | .ok next => (next, none)
  | .error fault => (state, some fault)

/-- The activation of a passive clause is counted before the clause is stamped, so an attempt to
activate a clause twice uses up a number. -/
def activate (state : Reconstruction) (event : Event) : Reconstruction × Option Fault :=
  match state.requirePassive event with
  | .error fault => (state, some fault)
  | .ok clause =>
    let counted := { state with activations := state.activations + 1 }
    counted.settle (counted.makeActive event clause)

def apply (state : Reconstruction) (time : Time) (event : Event) :
    Reconstruction × Option Fault :=
  match event.kind with
  | .preprocessing => state.settle (state.declarePreprocessing event)
  | .new => state.settle (state.declareNew time event)
  | .passive => state.settle (state.makePassive time event)
  | .active => state.activate event
  | .forwardReduction | .backwardReduction => state.settle (state.reduce time event)
  | .replacement | .premise => state.settle (state.addReductionParent event)

def addPlaceholder (state : Reconstruction) (id : ClauseId) : Reconstruction :=
  if id ∈ state.table then state
  else { state with
    table := state.table.insert id (.placeholder id)
    placeholders := state.placeholders.insert id }

def record (state : Reconstruction) (index : Nat) (event : Event) :
    Reconstruction × Option Rejection :=
  if state.saturated then (state, none)
  else match state.apply (.ofNat index) event with
    | (next, some fault) => (next, some ⟨index, fault⟩)
    | (next, none) =>
      (if event.kind.declares then event.parents.foldl addPlaceholder next else next, none)

def recordAll (state : Reconstruction) (index : Nat) :
    List Event → Except Rejection Reconstruction
  | [] => .ok state
  | event :: events =>
    match state.record index event with
    | (_, some rejection) => .error rejection
    | (next, none) => if next.saturated then .ok next else next.recordAll (index + 1) events

def finish (state : Reconstruction) : Derivation :=
  let whole := Derivation.assemble state.table
  let pruned := if state.options.pruneInactive then whole.activatedPart else whole
  if state.options.mergePreprocessing then
    pruned.contractPreprocessing state.options.choiceAxiomRule
  else pruned

theorem settle_keeps (state next : Reconstruction) (fault : Fault)
    (change : Except Fault Reconstruction) (failed : state.settle change = (next, some fault)) :
    next = state := by
  cases change with
  | ok _ => simp [settle] at failed
  | error _ =>
    simp only [settle, Prod.mk.injEq] at failed
    exact failed.1.symm

end Reconstruction

def Derivation.ofEvents (options : Options) (events : List Event) :
    Except Reconstruction.Rejection Derivation :=
  Reconstruction.finish <$> Reconstruction.recordAll { options } 0 events

end DerivationReplay
