import DerivationReplay.Clause.Record
import DerivationReplay.Derivation
import DerivationReplay.Json.Reader

/-! Derivations as JSON records: clauses under their numbers, and the leaves. -/
namespace DerivationReplay.Derivation
open Json

def toJson (derivation : Derivation) : Json :=
  record [
    ("nodes", record (derivation.table.toList.map fun (id, clause) =>
      (toString id, clause.toJson))),
    ("leaves", ofWords derivation.leaves.toList)]

/-- A number without leading zeros, written without escapes. -/
def key? (name : Quoted) : Option ClauseId := do
  let text ← name.text
  let id ← Text.word64? text.toList
  if name.escaped || toString id ≠ text then none else some id

/-- Of repeated numbers the last one counts. -/
def table? : Json → Option Table
  | .object fields => do
    let entries ← fields.mapM fun (name, value) => do
      let id ← key? name
      let clause ← Clause.ofJson? value
      some (id, clause)
    some (.ofList entries)
  | _ => none

inductive DecodeError
  | malformed
  | flawed (flaw : Flaw)
deriving DecidableEq, Repr

/-- The recorded children and leaves are ignored: they follow from the parents. -/
def ofJson (value : Json) : Except DecodeError Derivation :=
  match members? ["nodes"] false value >>= fun members => required table? (members.head?.join) with
  | none => .error .malformed
  | some table => (ofTable table).mapError .flawed

/-- Nothing but space may follow the value; a flaw in it is found first. -/
def ofText (text : String) : Except DecodeError Derivation := do
  let (value, rest) ← (read? text.toList).elim (.error .malformed) .ok
  let derivation ← ofJson value
  if (skipSpace rest).isEmpty then return derivation else .error .malformed

end DerivationReplay.Derivation
