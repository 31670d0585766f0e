import DerivationReplay.Event
import DerivationReplay.Json.Record

/-! Events and statistics as JSON records. -/
namespace DerivationReplay
open Json

def Statistics.toJson (statistics : Statistics) : Json :=
  record (statistics.toList.map fun (name, value) => (name, ofWord value))

/-- Of repeated names the last one counts. -/
def Statistics.ofJson? : Json → Option Statistics
  | .object fields => do
    let named ← named? fields
    let entries ← named.mapM fun (name, value) => value.word?.map (name, ·)
    some (.ofList entries)
  | _ => none

/-- A tag, or an object whose only field is the tag, with nothing in it. -/
def EventKind.ofJson? : Json → Option EventKind
  | .string tag => tag.text.bind ofTag?
  | .object [(tag, .null)] => tag.text.bind ofTag?
  | _ => none

namespace Event

def toJson (event : Event) : Json :=
  record [
    ("kind", ofText event.kind.tag),
    ("id", ofWord event.id),
    ("clause", ofText event.clause),
    ("inference_rule", ofText event.rule),
    ("parents", ofWords event.parents),
    ("statistics", event.statistics.toJson)]

def fieldNames : List String :=
  ["kind", "id", "clause", "inference_rule", "parents", "statistics"]

def ofJson? (value : Json) : Option Event := do
  let [kind, id, clause, rule, parents, statistics] ← members? fieldNames false value | none
  some {
    kind := ← required EventKind.ofJson? kind
    id := ← required word? id
    clause := ← required text? clause
    rule := ← required text? rule
    parents := ← required (list? word?) parents
    statistics := ← required Statistics.ofJson? statistics }

end Event
end DerivationReplay
