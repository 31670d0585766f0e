import DerivationReplay.Json.Value

/-! Writing JSON on one line, or indented with sorted fields. -/
namespace DerivationReplay.Json

def hexDigit (value : Nat) : Char :=
  if value < 10 then Char.ofNat ('0'.toNat + value) else Char.ofNat ('a'.toNat + (value - 10))

def escape (c : Char) : List Char :=
  match c with
  | '"' => ['\\', '"']
  | '\\' => ['\\', '\\']
  | '\n' => ['\\', 'n']
  | '\t' => ['\\', 't']
  | '\r' => ['\\', 'r']
  | '\x08' => ['\\', 'b']
  | '\x0c' => ['\\', 'f']
  | c =>
    if c.toNat < 0x20 then ['\\', 'u', '0', '0', hexDigit (c.toNat / 16), hexDigit (c.toNat % 16)]
    else [c]

def quote (text : String) : String :=
  String.ofList (['"'] ++ text.toList.flatMap escape ++ ['"'])

def quoteText (quoted : Quoted) : String := quote (quoted.text.getD "")

mutual

def compact : Json → String
  | .null => "null"
  | .bool value => if value then "true" else "false"
  | .natural value => toString value
  | .number literal => literal
  | .string quoted => quoteText quoted
  | .array items => "[" ++ ",".intercalate (compactItems items) ++ "]"
  | .object fields => "\x7b" ++ ",".intercalate (compactFields fields) ++ "\x7d"

def compactItems : List Json → List String
  | [] => []
  | item :: items => compact item :: compactItems items

def compactFields : List (Quoted × Json) → List String
  | [] => []
  | (name, value) :: fields => (quoteText name ++ ":" ++ compact value) :: compactFields fields

end

def sortByName (fields : List (Quoted × Json)) : List (Quoted × Json) :=
  fields.mergeSort fun a b => (compare (a.1.text.getD "") (b.1.text.getD "")).isLE

mutual

def sortFields : Json → Json
  | .array items => .array (sortFieldsInItems items)
  | .object fields => .object (sortByName (sortFieldsInFields fields))
  | value => value

def sortFieldsInItems : List Json → List Json
  | [] => []
  | item :: items => sortFields item :: sortFieldsInItems items

def sortFieldsInFields : List (Quoted × Json) → List (Quoted × Json)
  | [] => []
  | (name, value) :: fields => (name, sortFields value) :: sortFieldsInFields fields

end

def newLine (depth : Nat) : String := "\n" ++ String.ofList (List.replicate (2 * depth) ' ')

def block (opening closing : String) (depth : Nat) (items : List String) : String :=
  if items.isEmpty then opening ++ closing
  else opening ++ newLine (depth + 1) ++ ("," ++ newLine (depth + 1)).intercalate items ++
    newLine depth ++ closing

mutual

def indentedAt (depth : Nat) : Json → String
  | .array items => block "[" "]" depth (indentedItems (depth + 1) items)
  | .object fields => block "\x7b" "\x7d" depth (indentedFields (depth + 1) fields)
  | value => compact value

def indentedItems (depth : Nat) : List Json → List String
  | [] => []
  | item :: items => indentedAt depth item :: indentedItems depth items

def indentedFields (depth : Nat) : List (Quoted × Json) → List String
  | [] => []
  | (name, value) :: fields =>
    (quoteText name ++ ": " ++ indentedAt depth value) :: indentedFields depth fields

end

/-- Two blanks for each level, fields sorted by name at every level. -/
def indented (value : Json) : String := indentedAt 0 (sortFields value)

end DerivationReplay.Json
