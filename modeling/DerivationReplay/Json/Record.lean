import DerivationReplay.Json.Value
import DerivationReplay.Text.Decimal

/-! Decoding of JSON values: words, texts, lists, and records with known fields. -/
namespace DerivationReplay.Json

def bool? : Json → Option Bool
  | .bool value => some value
  | _ => none

def text? : Json → Option String
  | .string quoted => quoted.text
  | _ => none

def word? : Json → Option UInt64
  | .natural value => Text.word64OfNat? value
  | _ => none

def list? (decode : Json → Option α) : Json → Option (List α)
  | .array items => items.mapM decode
  | _ => none

def nullable? (decode : Json → Option α) : Json → Option (Option α)
  | .null => some none
  | value => (decode value).map some

def named? (fields : List (Quoted × Json)) : Option (List (String × Json)) :=
  fields.mapM fun (name, value) => name.text.map (·, value)

/-- The values of a record's fields in the order of the names, each present or not. A record is an
object that has none of these fields twice, or an array of the first values. Other fields are
ignored unless the record is closed. -/
def members? (names : List String) (closed : Bool) : Json → Option (List (Option Json))
  | .array items =>
    if items.length ≤ names.length then
      some (items.map some ++ List.replicate (names.length - items.length) none)
    else none
  | .object fields => do
    let fields ← named? fields
    if closed && fields.any (fun field => !names.contains field.1) then none
    else if names.any (fun name => fields.countP (·.1 = name) > 1) then none
    else some (names.map (List.lookup · fields))
  | _ => none

def required (decode : Json → Option α) (member : Option Json) : Option α := member.bind decode

def defaulting (default : α) (decode : Json → Option α) : Option Json → Option α
  | none => some default
  | some value => decode value

theorem word_of_word (value : UInt64) : (ofWord value).word? = some value :=
  Text.word64_of_nat value

theorem words_of_words (values : List UInt64) : list? word? (ofWords values) = some values := by
  induction values with
  | nil => rfl
  | cons value values ih =>
    simp only [list?, ofWords, List.map_cons, List.mapM_cons, word_of_word] at ih ⊢
    simp [ih]

theorem text_of_text (value : String) : (ofText value).text? = some value := rfl

end DerivationReplay.Json
