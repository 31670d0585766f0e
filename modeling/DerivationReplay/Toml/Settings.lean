import DerivationReplay.Toml.Quotation

/-!
Settings in TOML: a document of keys with texts or truth values, one on each line. Documents with
tables, dotted keys or other values are not settings.
-/
namespace DerivationReplay.Toml

def isBareKey (c : Char) : Bool := c.isAlphanum || c = '_' || c = '-'

def key? (text : List Char) : Option (String × List Char) :=
  let bare := text.takeWhile isBareKey
  if bare.isEmpty then quotation? text
  else some (String.ofList bare, text.dropWhile isBareKey)

def value? : List Char → Option (Json × List Char)
  | 't' :: 'r' :: 'u' :: 'e' :: rest => some (.bool true, rest)
  | 'f' :: 'a' :: 'l' :: 's' :: 'e' :: rest => some (.bool false, rest)
  | text => (anyQuotation? text).map fun (value, rest) => (.ofText value, rest)

def setting? (text : List Char) : Option ((String × Json) × List Char) := do
  let (key, rest) ← key? text
  let rest ← ['='].isPrefixOf? (skipGaps rest)
  let (value, rest) ← value? (skipGaps rest)
  some ((key, value), rest)

def lineEnd? (text : List Char) : Option (List Char) :=
  let rest := match skipGaps text with
    | '#' :: comment => comment.dropWhile isPlain
    | rest => rest
  if rest.isEmpty then some [] else lineBreak? rest

/-- Each line takes one unit of fuel. -/
def settingsWithin? : Nat → List Char → Option (List (String × Json))
  | 0, _ => none
  | fuel + 1, text =>
    if text.isEmpty then some []
    else match lineEnd? text with
      | some rest => settingsWithin? fuel rest
      | none => do
        let (setting, rest) ← setting? (skipGaps text)
        let rest ← lineEnd? rest
        let settings ← settingsWithin? fuel rest
        some (setting :: settings)

/-- The settings of a document as a record; a byte order mark may start the document. -/
def settings? (document : String) : Option Json :=
  let text := match document.toList with
    | '\ufeff' :: text => text
    | text => text
  (settingsWithin? (text.length + 1) text).map .record

end DerivationReplay.Toml
