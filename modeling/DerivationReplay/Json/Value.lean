/-!
JSON values as documents write them: repeated fields are kept, a numeral that is not a natural
number keeps its literal, and quoted texts remember whether escapes were used.
-/
namespace DerivationReplay

structure Quoted where
  /-- Absent when a surrogate escape has no partner, so that the quotation denotes no text. -/
  text : Option String
  escaped : Bool
deriving DecidableEq, Repr

def Quoted.ofText (text : String) : Quoted := ⟨some text, false⟩

inductive Json
  | null
  | bool (value : Bool)
  | natural (value : Nat)
  /-- A number with a sign, a fraction or an exponent. -/
  | number (literal : String)
  | string (quoted : Quoted)
  | array (items : List Json)
  | object (fields : List (Quoted × Json))
deriving Repr

namespace Json

def ofText (value : String) : Json := .string (.ofText value)

def ofWord (value : UInt64) : Json := .natural value.toNat

def ofWords (values : List UInt64) : Json := .array (values.map ofWord)

def record (fields : List (String × Json)) : Json :=
  .object (fields.map fun (name, value) => (.ofText name, value))

def ofOption (encode : α → Json) : Option α → Json
  | none => .null
  | some value => encode value

end Json
end DerivationReplay
