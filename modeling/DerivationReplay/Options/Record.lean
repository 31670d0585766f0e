import DerivationReplay.Json.Record
import DerivationReplay.Options

/-! Options as JSON records. Every field may be missing, and no other fields are allowed. -/
namespace DerivationReplay.Options
open Json

def toJson (options : Options) : Json :=
  record [
    ("prune-inactive", .bool options.pruneInactive),
    ("merge-preprocessing", .bool options.mergePreprocessing),
    ("empty-clause", ofText options.emptyClause),
    ("refutation-marker", ofText options.refutationMarker),
    ("choice-axiom-rule", ofText options.choiceAxiomRule)]

def fieldNames : List String :=
  ["prune-inactive", "merge-preprocessing", "empty-clause", "refutation-marker",
    "choice-axiom-rule"]

def ofJson? (value : Json) : Option Options := do
  let [pruneInactive, mergePreprocessing, emptyClause, refutationMarker, choiceAxiomRule] ←
    members? fieldNames true value | none
  let standard : Options := {}
  some {
    pruneInactive := ← defaulting standard.pruneInactive bool? pruneInactive
    mergePreprocessing := ← defaulting standard.mergePreprocessing bool? mergePreprocessing
    emptyClause := ← defaulting standard.emptyClause text? emptyClause
    refutationMarker := ← defaulting standard.refutationMarker text? refutationMarker
    choiceAxiomRule := ← defaulting standard.choiceAxiomRule text? choiceAxiomRule }

end DerivationReplay.Options
