import DerivationReplay.Command.Arguments
import DerivationReplay.Derivation.Consequences
import DerivationReplay.Derivation.Record
import DerivationReplay.Derivation.Snapshot
import DerivationReplay.Json.Printer

/-! What the commands print: lines of text, or one JSON record. -/
namespace DerivationReplay.Command

def unlines (lines : List String) : String := String.join (lines.map (· ++ "\n"))

def listed (ids : List ClauseId) : String := if ids.isEmpty then "(none)" else showIds ids

def title (verb : Verb) (transcript : String) : List String :=
  ["proofviz " ++ verb.name, "  Transcript: " ++ transcript]

def clauseLine (clause : Clause) : String := "  " ++ clause.line

def viewLines (verb : Verb) (transcript : String) (view : Derivation) : List String :=
  title verb transcript ++ [
    "  Nodes: " ++ toString view.clauses.length,
    "  Leaves: " ++ listed view.leaves.toList,
    "  History length: " ++ toString view.lastStep] ++
    view.clauses.map clauseLine

def snapshotLine (view : Derivation) : String := "  Snapshot: " ++ view.snapshot

def boundariesLine (view : Derivation) : String :=
  "  Boundaries: " ++ listed ((view.clauses.filter Clause.isBoundary).map Clause.id)

def consequenceLines (transcript : String) (ids : List ClauseId) (found : List Clause) :
    List String :=
  title .consequences transcript ++ [
    "  Of: " ++ listed ids,
    "  Found: " ++ toString found.length] ++
    found.map clauseLine

def replayLines (transcript : String) (step lastStep : Nat) (visible : List Clause) :
    List String :=
  title .replay transcript ++ [
    "  Step: " ++ toString step ++ " of " ++ toString lastStep,
    "  Visible: " ++ toString visible.length] ++
    visible.map fun clause => "  [" ++ (clause.presenceAt step).name ++ "] " ++ clause.line

def eventLine (index : Nat) (event : Event) : String :=
  "  #" ++ toString index ++ " " ++ event.kind.phrase ++ ": " ++ toString event.id ++ ". " ++
    event.clause ++ " [" ++ event.rule ++ " " ++ showIds event.parents ++ "]"

def eventLines (transcript : String) (events : List Event) : List String :=
  title .lines transcript ++ ["  Recognized: " ++ toString events.length] ++
    events.mapIdx eventLine

def payload (verb : Verb) (transcript : String) (fields : List (String × Json)) : Json :=
  .record ([
    ("schema", .natural 1),
    ("kind", .ofText ("proofviz." ++ verb.name ++ ".v1")),
    ("transcript", .ofText transcript)] ++ fields)

def viewPayload (verb : Verb) (transcript : String) (ids : List ClauseId) (view : Derivation) :
    Json :=
  payload verb transcript [
    ("ids", .ofWords ids),
    ("snapshotRef", .ofText view.snapshot),
    ("historyLength", .natural view.lastStep),
    ("dag", view.toJson)]

def summary (clause : Clause) : List (String × Json) := [
  ("id", .ofWord clause.id),
  ("clause", .ofText clause.text),
  ("rule", .ofText clause.rule)]

def consequencePayload (transcript : String) (ids : List ClauseId) (found : List Clause) : Json :=
  payload .consequences transcript [
    ("ids", .ofWords ids),
    ("consequences", .ofWords (found.map Clause.id)),
    ("clauses", .array (found.map fun clause => .record (summary clause)))]

def replayPayload (transcript : String) (step lastStep : Nat) (visible : List Clause) : Json :=
  payload .replay transcript [
    ("step", .natural step),
    ("lastStep", .natural lastStep),
    ("visible", .array (visible.map fun clause => .record (summary clause ++ [
      ("parents", .ofWords clause.parents),
      ("state", .ofText (clause.presenceAt step).name),
      ("activeTime", .ofOption .ofWord clause.life.active)])))]

def eventPayload (transcript : String) (events : List Event) : Json :=
  payload .lines transcript [
    ("count", .natural events.length),
    ("lines", .array (events.map Event.toJson))]

end DerivationReplay.Command
