import DerivationReplay.Json.Value
import DerivationReplay.Text.Decimal

/-! Reading one JSON value from the front of a text. -/
namespace DerivationReplay.Json
open Text

def isSpace (c : Char) : Bool := c = ' ' || c = '\t' || c = '\n' || c = '\r'

def skipSpace (text : List Char) : List Char := text.dropWhile isSpace

def hexValue? (c : Char) : Option Nat :=
  if '0' ≤ c ∧ c ≤ '9' then some (c.toNat - '0'.toNat)
  else if 'a' ≤ c ∧ c ≤ 'f' then some (c.toNat - 'a'.toNat + 10)
  else if 'A' ≤ c ∧ c ≤ 'F' then some (c.toNat - 'A'.toNat + 10)
  else none

def hexNumber? (digits : List Char) : Option Nat :=
  digits.foldlM (fun value c => (hexValue? c).map (16 * value + ·)) 0

def escapedLetter? : Char → Option Char
  | '"' => some '"'
  | '\\' => some '\\'
  | '/' => some '/'
  | 'b' => some '\x08'
  | 'f' => some '\x0c'
  | 'n' => some '\n'
  | 'r' => some '\r'
  | 't' => some '\t'
  | _ => none

def isHighSurrogate (unit : Nat) : Bool := 0xd800 ≤ unit && unit < 0xdc00

def isLowSurrogate (unit : Nat) : Bool := 0xdc00 ≤ unit && unit < 0xe000

/-- Code points from code units: a high surrogate must be followed by a low one. -/
def joinSurrogates? : List Nat → Option (List Char)
  | [] => some []
  | unit :: rest =>
    if isHighSurrogate unit then
      match rest with
      | low :: rest =>
        if isLowSurrogate low then
          (joinSurrogates? rest).map
            (Char.ofNat (0x10000 + (unit - 0xd800) * 0x400 + (low - 0xdc00)) :: ·)
        else none
      | [] => none
    else if isLowSurrogate unit then none
    else (joinSurrogates? rest).map (Char.ofNat unit :: ·)

def quotedTail? (units : List Nat) (escaped : Bool) : List Char → Option (Quoted × List Char)
  | [] => none
  | '"' :: rest => some (⟨(joinSurrogates? units.reverse).map String.ofList, escaped⟩, rest)
  | '\\' :: 'u' :: a :: b :: c :: d :: rest => do
    let unit ← hexNumber? [a, b, c, d]
    quotedTail? (unit :: units) true rest
  | '\\' :: letter :: rest => do
    let c ← escapedLetter? letter
    quotedTail? (c.toNat :: units) true rest
  | c :: rest => if c.toNat < 0x20 then none else quotedTail? (c.toNat :: units) escaped rest

def fraction? : List Char → Option (List Char × List Char)
  | '.' :: rest =>
    let digits := rest.takeWhile Char.isDigit
    if digits.isEmpty then none else some ('.' :: digits, rest.dropWhile Char.isDigit)
  | rest => some ([], rest)

def exponentDigits? (start rest : List Char) : Option (List Char × List Char) :=
  let digits := rest.takeWhile Char.isDigit
  if digits.isEmpty then none else some (start ++ digits, rest.dropWhile Char.isDigit)

def exponent? : List Char → Option (List Char × List Char)
  | e :: rest =>
    if e = 'e' ∨ e = 'E' then
      match rest with
      | '+' :: rest => exponentDigits? [e, '+'] rest
      | '-' :: rest => exponentDigits? [e, '-'] rest
      | rest => exponentDigits? [e] rest
    else some ([], e :: rest)
  | [] => some ([], [])

/-- No digit may follow a leading zero. -/
def integer? (text : List Char) : Option (List Char × List Char) :=
  let digits := text.takeWhile Char.isDigit
  if digits.isEmpty || (digits.head? = some '0' && digits.length > 1) then none
  else some (digits, text.dropWhile Char.isDigit)

def number? (text : List Char) : Option (Json × List Char) := do
  let sign := if text.head? = some '-' then ['-'] else []
  let (digits, rest) ← integer? (text.drop sign.length)
  let (fraction, rest) ← fraction? rest
  let (exponent, rest) ← exponent? rest
  if sign.isEmpty && fraction.isEmpty && exponent.isEmpty then
    let value ← natural? digits
    some (.natural value, rest)
  else some (.number (String.ofList (sign ++ digits ++ fraction ++ exponent)), rest)

mutual

/-- Each level of nesting and each item takes one unit of fuel. -/
def valueWithin? : Nat → List Char → Option (Json × List Char)
  | 0, _ => none
  | fuel + 1, text =>
    match skipSpace text with
    | 'n' :: 'u' :: 'l' :: 'l' :: rest => some (.null, rest)
    | 't' :: 'r' :: 'u' :: 'e' :: rest => some (.bool true, rest)
    | 'f' :: 'a' :: 'l' :: 's' :: 'e' :: rest => some (.bool false, rest)
    | '"' :: rest => (quotedTail? [] false rest).map fun (quoted, rest) => (.string quoted, rest)
    | '[' :: rest =>
      match skipSpace rest with
      | ']' :: rest => some (.array [], rest)
      | rest => (itemsWithin? fuel rest).map fun (items, rest) => (.array items, rest)
    | '{' :: rest =>
      match skipSpace rest with
      | '}' :: rest => some (.object [], rest)
      | rest => (fieldsWithin? fuel rest).map fun (fields, rest) => (.object fields, rest)
    | text => number? text

def itemsWithin? : Nat → List Char → Option (List Json × List Char)
  | 0, _ => none
  | fuel + 1, text => do
    let (item, rest) ← valueWithin? fuel text
    match skipSpace rest with
    | ']' :: rest => some ([item], rest)
    | ',' :: rest =>
      let (items, rest) ← itemsWithin? fuel rest
      some (item :: items, rest)
    | _ => none

def fieldsWithin? : Nat → List Char → Option (List (Quoted × Json) × List Char)
  | 0, _ => none
  | fuel + 1, text =>
    match skipSpace text with
    | '"' :: rest => do
      let (name, rest) ← quotedTail? [] false rest
      match skipSpace rest with
      | ':' :: rest =>
        let (value, rest) ← valueWithin? fuel rest
        match skipSpace rest with
        | '}' :: rest => some ([(name, value)], rest)
        | ',' :: rest =>
          let (fields, rest) ← fieldsWithin? fuel rest
          some ((name, value) :: fields, rest)
        | _ => none
      | _ => none
    | _ => none

end

/-- A value and the text after it. An array takes two units of fuel for its bracket and its first
item, so twice the length of the text is enough. -/
def read? (text : List Char) : Option (Json × List Char) :=
  valueWithin? (2 * text.length + 2) text

end DerivationReplay.Json
