import DerivationReplay.Derivation.ViewStack
import DerivationReplay.Main
import DerivationReplay.Proofs.Activations
import DerivationReplay.Proofs.Cycles
import DerivationReplay.Proofs.DrillDown
import DerivationReplay.Proofs.Origins
import DerivationReplay.Proofs.Timeline
import DerivationReplay.Proofs.Tolerance
import DerivationReplay.Proofs.Grammar
import DerivationReplay.Proofs.CleanUp
import DerivationReplay.Proofs.ViewTimeline
import DerivationReplay.Proofs.RoundTrip
import DerivationReplay.Proofs.SnapshotBytes
import DerivationReplay.Proofs.Enumeration
import DerivationReplay.Proofs.ViewContents
import DerivationReplay.Proofs.Antecedents
import DerivationReplay.Proofs.Recursion
import DerivationReplay.Proofs.Findings
import DerivationReplay.Proofs.NormalForm
import DerivationReplay.Proofs.GivenClauses
import DerivationReplay.Proofs.Transcripts
import DerivationReplay.Proofs.Navigation
import DerivationReplay.Proofs.CounterSearch
