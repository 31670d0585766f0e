/-! What a reconstruction takes for granted about a transcript, and which clean-up it does. -/
namespace DerivationReplay

structure Options where
  /-- Keep only what activated clauses are derived from. -/
  pruneInactive : Bool := true
  /-- Contract chains of preprocessing steps. -/
  mergePreprocessing : Bool := true
  emptyClause : String := "$false"
  refutationMarker : String := "% Refutation found. Thanks to"
  /-- The rule of background theory that is never shown. -/
  choiceAxiomRule : String := "choice axiom"
deriving DecidableEq, Repr

def Options.raw : Options := { pruneInactive := false, mergePreprocessing := false }

end DerivationReplay
