import DerivationReplay.Clause.Numbering
import DerivationReplay.Text.Decimal

/-! The command line: what is asked for, and the arguments that ask for it. -/
namespace DerivationReplay.Command

inductive Verb
  | build
  | ancestors
  | descendants
  | consequences
  | replay
  | lines
deriving DecidableEq, Repr

def Verb.name : Verb → String
  | build => "build"
  | ancestors => "ancestors"
  | descendants => "descendants"
  | consequences => "consequences"
  | replay => "replay"
  | lines => "lines"

def Verb.all : List Verb := [build, ancestors, descendants, consequences, replay, lines]

def Verb.ofName? (name : String) : Option Verb := all.find? (·.name = name)

def Verb.takesIds : Verb → Bool
  | ancestors | descendants | consequences => true
  | build | replay | lines => false

def Verb.requiresIds : Verb → Bool
  | ancestors | descendants => true
  | build | consequences | replay | lines => false

def Verb.takesStep : Verb → Bool
  | replay => true
  | build | ancestors | descendants | consequences | lines => false

structure Draft where
  transcript : Option String := none
  config : Option String := none
  json : Bool := false
  ids : Option (List ClauseId) := none
  step : Option UInt64 := none
deriving DecidableEq, Repr

structure Request where
  verb : Verb
  transcript : String
  config : Option String
  json : Bool
  ids : List ClauseId
  step : Option UInt64
deriving DecidableEq, Repr

inductive Invocation
  | run (request : Request)
  | version
  | help
  | misuse
deriving DecidableEq, Repr

/-- A numeral may have a plus sign. -/
def word? (text : List Char) : Option UInt64 :=
  match text with
  | '+' :: digits => Text.word64? digits
  | digits => Text.word64? digits

def ids? (text : List Char) : Option (List ClauseId) := (text.splitOn ',').mapM word?

def once (field : Option α) (value : α) : Option (Option α) :=
  if field.isSome then none else some (some value)

namespace Draft

def addTranscript (draft : Draft) (path : String) : Option Draft := do
  return { draft with transcript := ← once draft.transcript path }

/-- Only lists of ids may be given more than once; the lists are joined. -/
def addOption (verb : Verb) (draft : Draft) (name value : List Char) : Option Draft :=
  match String.ofList name with
  | "config" => do return { draft with config := ← once draft.config (String.ofList value) }
  | "id" =>
    if verb.takesIds then do
      let ids ← ids? value
      return { draft with ids := some (draft.ids.getD [] ++ ids) }
    else none
  | "step" =>
    if verb.takesStep then do return { draft with step := ← once draft.step (← word? value) }
    else none
  | _ => none

def addJson (draft : Draft) : Option Draft :=
  if draft.json then none else some { draft with json := true }

def request? (verb : Verb) (draft : Draft) : Option Request := do
  let transcript ← draft.transcript
  if verb.requiresIds && draft.ids.isNone then none
  else some {
    verb, transcript
    config := draft.config
    json := draft.json
    ids := draft.ids.getD []
    step := draft.step }

end Draft

def isOption (argument : String) : Bool := argument.startsWith "-" && argument ≠ "-"

inductive Reading
  | draft (draft : Draft)
  | help
  | misuse
deriving DecidableEq, Repr

/-- The arguments after a verb, in order: the first that asks for help or is out of place decides.
After two hyphens alone, all arguments are paths. -/
def Reading.ofArguments (verb : Verb) (draft : Draft) : List String → Reading
  | [] => .draft draft
  | argument :: rest =>
    match argument.toList with
    | ['-', '-'] => (rest.foldlM Draft.addTranscript draft).elim .misuse .draft
    | '-' :: '-' :: text =>
      let name := text.takeWhile (· ≠ '=')
      match text.dropWhile (· ≠ '=') with
      | _ :: value => (draft.addOption verb name value).elim .misuse (ofArguments verb · rest)
      | [] =>
        if name = "help".toList then .help
        else if name = "json".toList then draft.addJson.elim .misuse (ofArguments verb · rest)
        else match rest with
          | value :: rest =>
            if isOption value then .misuse
            else (draft.addOption verb name value.toList).elim .misuse (ofArguments verb · rest)
          | [] => .misuse
    | '-' :: 'h' :: _ => .help
    | '-' :: _ :: _ => .misuse
    | _ => (draft.addTranscript argument).elim .misuse (ofArguments verb · rest)

def isHelpTopic : List String → Bool
  | [] => true
  | [name] => name = "help" || (Verb.ofName? name).isSome
  | _ => false

def Invocation.ofArguments : List String → Invocation
  | [] => .misuse
  | first :: rest =>
    match Verb.ofName? first, first.toList with
    | some verb, _ =>
      match Reading.ofArguments verb {} rest with
      | .draft draft => ((draft.request? verb).map .run).getD .misuse
      | .help => .help
      | .misuse => .misuse
    | none, '-' :: 'h' :: _ => .help
    | none, '-' :: 'V' :: _ => .version
    | none, _ =>
      if first = "--help" ∨ first = "help" ∧ isHelpTopic rest then .help
      else if first = "--version" then .version
      else .misuse

end DerivationReplay.Command
