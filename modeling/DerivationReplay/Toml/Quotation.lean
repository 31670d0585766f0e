import DerivationReplay.Json.Reader

/-!
Quoted texts of TOML: basic and literal, on one line or on several. A text on several lines may
end in two quotes of its own before the three that close it.
-/
namespace DerivationReplay.Toml

def isPlain (c : Char) : Bool := c = '\t' || (0x20 ≤ c.toNat && c.toNat ≠ 0x7f)

def isGap (c : Char) : Bool := c = ' ' || c = '\t'

def skipGaps (text : List Char) : List Char := text.dropWhile isGap

def lineBreak? : List Char → Option (List Char)
  | '\n' :: rest => some rest
  | '\r' :: '\n' :: rest => some rest
  | _ => none

/-- A line break right after the opening quotes is no part of the text. -/
def skipFirstBreak (text : List Char) : List Char := (lineBreak? text).getD text

def scalar? (code : Nat) : Option Char :=
  if code < 0xd800 ∨ (0xe000 ≤ code ∧ code ≤ 0x10ffff) then some (Char.ofNat code) else none

def escape? : List Char → Option (Char × List Char)
  | '"' :: rest => some ('"', rest)
  | '\\' :: rest => some ('\\', rest)
  | 'b' :: rest => some ('\x08', rest)
  | 'f' :: rest => some ('\x0c', rest)
  | 'n' :: rest => some ('\n', rest)
  | 'r' :: rest => some ('\r', rest)
  | 't' :: rest => some ('\t', rest)
  | 'u' :: a :: b :: c :: d :: rest =>
    ((Json.hexNumber? [a, b, c, d]).bind scalar?).map (·, rest)
  | 'U' :: a :: b :: c :: d :: e :: f :: g :: h :: rest =>
    ((Json.hexNumber? [a, b, c, d, e, f, g, h]).bind scalar?).map (·, rest)
  | _ => none

def skipFold : List Char → List Char
  | [] => []
  | '\r' :: '\n' :: rest => skipFold rest
  | c :: rest => if isGap c || c = '\n' then skipFold rest else c :: rest

/-- A backslash at the end of a line joins it with the next text. -/
def fold? (text : List Char) : Option (List Char) := (lineBreak? (skipGaps text)).map skipFold

/-- The rest of a basic text; each step takes a character or more. -/
def basicTail? : Nat → List Char → List Char → Option (String × List Char)
  | 0, _, _ => none
  | _, _, [] => none
  | _, read, '"' :: rest => some (String.ofList read.reverse, rest)
  | fuel + 1, read, '\\' :: rest => do
    let (c, rest) ← escape? rest
    basicTail? fuel (c :: read) rest
  | fuel + 1, read, c :: rest => if isPlain c then basicTail? fuel (c :: read) rest else none

def longBasicTail? : Nat → List Char → List Char → Option (String × List Char)
  | 0, _, _ => none
  | _, _, [] => none
  | _, read, '"' :: '"' :: '"' :: '"' :: '"' :: rest =>
    some (String.ofList ('"' :: '"' :: read).reverse, rest)
  | _, read, '"' :: '"' :: '"' :: '"' :: rest => some (String.ofList ('"' :: read).reverse, rest)
  | _, read, '"' :: '"' :: '"' :: rest => some (String.ofList read.reverse, rest)
  | fuel + 1, read, '\\' :: rest =>
    match fold? rest with
    | some rest => longBasicTail? fuel read rest
    | none => do
      let (c, rest) ← escape? rest
      longBasicTail? fuel (c :: read) rest
  | fuel + 1, read, c :: rest =>
    match lineBreak? (c :: rest) with
    | some rest => longBasicTail? fuel ('\n' :: read) rest
    | none => if isPlain c then longBasicTail? fuel (c :: read) rest else none

def literalTail? (read : List Char) : List Char → Option (String × List Char)
  | [] => none
  | '\'' :: rest => some (String.ofList read.reverse, rest)
  | c :: rest => if isPlain c then literalTail? (c :: read) rest else none

def longLiteralTail? (read : List Char) : List Char → Option (String × List Char)
  | [] => none
  | '\'' :: '\'' :: '\'' :: '\'' :: '\'' :: rest =>
    some (String.ofList ('\'' :: '\'' :: read).reverse, rest)
  | '\'' :: '\'' :: '\'' :: '\'' :: rest => some (String.ofList ('\'' :: read).reverse, rest)
  | '\'' :: '\'' :: '\'' :: rest => some (String.ofList read.reverse, rest)
  | '\r' :: '\n' :: rest => longLiteralTail? ('\n' :: read) rest
  | c :: rest => if c = '\n' ∨ isPlain c then longLiteralTail? (c :: read) rest else none

def quotation? : List Char → Option (String × List Char)
  | '"' :: rest => basicTail? (rest.length + 1) [] rest
  | '\'' :: rest => literalTail? [] rest
  | _ => none

def anyQuotation? : List Char → Option (String × List Char)
  | '"' :: '"' :: '"' :: rest => longBasicTail? (rest.length + 1) [] (skipFirstBreak rest)
  | '\'' :: '\'' :: '\'' :: rest => longLiteralTail? [] (skipFirstBreak rest)
  | text => quotation? text

end DerivationReplay.Toml
