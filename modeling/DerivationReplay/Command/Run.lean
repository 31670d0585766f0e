import DerivationReplay.Command.Report
import DerivationReplay.Source

/-! Running a command: from arguments and files to output, exit code and error. -/
namespace DerivationReplay.Command

structure Outcome where
  exit : Nat
  output : String := ""
  error : Option String := none
deriving DecidableEq, Repr

def Outcome.printed (output : String) : Outcome := { exit := 0, output }

def Outcome.failed (reason : String) : Outcome := { exit := 1, error := some ("error: " ++ reason) }

def Outcome.misuse : Outcome := { exit := 2 }

def Outcome.ofResult : Except String String → Outcome
  | .ok output => .printed output
  | .error reason => .failed reason

def versionText : String := "proofviz 0.1.0\n"

def helpText : String := unlines [
  "Usage: proofviz <COMMAND> <TRANSCRIPT> [OPTIONS]",
  "",
  "Commands:",
  "  build         Build the derivation and summarize it",
  "  ancestors     Keep the given clauses and everything they are derived from",
  "  descendants   Keep the given clauses and everything derived from them",
  "  consequences  List clauses whose derivation uses all of the given clauses",
  "  replay        Show the clauses visible at one replay step",
  "  lines         Print the recognized transcript lines",
  "",
  "Options:",
  "  --id <ID>          Clause ids, separated by commas",
  "  --step <STEP>      Replay step, the last activation by default",
  "  --config <CONFIG>  Build options in TOML",
  "  --json             Output as JSON",
  "  -h, --help         Print help",
  "  -V, --version      Print version"]

def Request.paths (request : Request) : List String := request.transcript :: request.config.toList

def Request.options (request : Request) (read : FileReader) : Except String Options :=
  match request.config with
  | none => .ok {}
  | some path => (readOptions read path).mapError OptionsError.message

def Request.derivation (request : Request) (read : FileReader) : Except String Derivation := do
  let options ← request.options read
  (loadDerivation read request.transcript options).mapError fun error =>
    "failed to build " ++ request.transcript ++ ": " ++ error.message

def Request.events (request : Request) (read : FileReader) : Except String (List Event) := do
  let options ← request.options read
  let transcript ← (readTranscript read request.transcript).mapError fun error =>
    "failed to read " ++ request.transcript ++ ": " ++ error.message
  return Event.ofText options.refutationMarker transcript

def Request.renderView (request : Request) (view : Derivation) (extra : List String) : String :=
  if request.json then
    (viewPayload request.verb request.transcript request.ids view).indented ++ "\n"
  else unlines (viewLines request.verb request.transcript view ++ extra)

def Request.render (request : Request) (payload : Json) (lines : List String) : String :=
  if request.json then payload.indented ++ "\n" else unlines lines

def Request.consequences (request : Request) (derivation : Derivation) :
    Except String String := do
  let ids ← (derivation.commonConsequences request.ids).mapError UnknownClause.message
  let found := ids.filterMap derivation.get?
  return request.render (consequencePayload request.transcript request.ids found)
    (consequenceLines request.transcript request.ids found)

def Request.replay (request : Request) (derivation : Derivation) : Except String String :=
  let last := derivation.lastStep
  let step := (request.step.map UInt64.toNat).getD last
  if last < step then
    .error ("step " ++ toString step ++ " is past the last step " ++ toString last)
  else
    let visible := derivation.visibleAt step
    .ok (request.render (replayPayload request.transcript step last visible)
      (replayLines request.transcript step last visible))

def Request.output (request : Request) (read : FileReader) : Except String String :=
  match request.verb with
  | .build => do
    let derivation ← request.derivation read
    return request.renderView derivation [snapshotLine derivation]
  | .ancestors => do
    let derivation ← request.derivation read
    let view ← (derivation.ancestorView request.ids).mapError UnknownClause.message
    return request.renderView view []
  | .descendants => do
    let derivation ← request.derivation read
    let view ← (derivation.descendantView request.ids).mapError UnknownClause.message
    return request.renderView view [boundariesLine view]
  | .consequences => request.derivation read >>= request.consequences
  | .replay => request.derivation read >>= request.replay
  | .lines => do
    let events ← request.events read
    return request.render (eventPayload request.transcript events)
      (eventLines request.transcript events)

def Invocation.outcome (read : FileReader) : Invocation → Outcome
  | .run request => .ofResult (request.output read)
  | .version => .printed versionText
  | .help => .printed helpText
  | .misuse => .misuse

def run (read : FileReader) (arguments : List String) : Outcome :=
  (Invocation.ofArguments arguments).outcome read

end DerivationReplay.Command
