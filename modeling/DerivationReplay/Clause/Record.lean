import DerivationReplay.Clause
import DerivationReplay.Event.Record

/-! Clauses as JSON records. -/
namespace DerivationReplay.Clause
open Json

def timeField (name : String) (time : Option Time) : List (String × Json) :=
  (time.map fun time => (name, ofWord time)).toList

def toJson (clause : Clause) : Json :=
  record ([
    ("number", ofWord clause.id),
    ("clause", ofText clause.text),
    ("inference_rule", ofText clause.rule),
    ("parents", ofWords clause.parents),
    ("children", ofWords clause.children.toList)] ++
    (if clause.statistics.isEmpty then [] else [("statistics", clause.statistics.toJson)]) ++
    [("is_from_preprocessing", .bool clause.fromPreprocessing)] ++
    timeField "new_time" clause.life.new ++
    timeField "passive_time" clause.life.passive ++
    timeField "active_time" clause.life.active ++
    timeField "deletion_time" clause.life.deletion ++
    (if clause.life.deletionParents.isEmpty then []
      else [("deletion_parents", ofWords clause.life.deletionParents)]))

def fieldNames : List String := [
  "number", "clause", "inference_rule", "parents", "children", "statistics",
  "is_from_preprocessing", "new_time", "passive_time", "active_time", "deletion_time",
  "deletion_parents"]

def ids? : Option Json → Option (List ClauseId) := defaulting [] (list? word?)

def time? : Option Json → Option (Option Time) := defaulting none (nullable? word?)

def ofJson? (value : Json) : Option Clause := do
  let [clauseId, text, rule, parents, children, statistics, fromPreprocessing, new, passive, active,
    deletion, deletionParents] ← members? fieldNames false value | none
  some {
    id := ← required word? clauseId
    text := ← required text? text
    rule := ← required text? rule
    parents := ← ids? parents
    children := .ofList (← ids? children)
    statistics := ← defaulting ∅ Statistics.ofJson? statistics
    fromPreprocessing := ← defaulting false bool? fromPreprocessing
    life := {
      new := ← time? new
      passive := ← time? passive
      active := ← time? active
      deletion := ← time? deletion
      deletionParents := ← ids? deletionParents } }

end DerivationReplay.Clause
