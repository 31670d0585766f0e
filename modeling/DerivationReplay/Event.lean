import DerivationReplay.Clause.Numbering

/-! Events of a saturation run: what one line of a transcript reports about one clause. -/
namespace DerivationReplay

inductive EventKind
  | preprocessing
  | new
  | passive
  | active
  | forwardReduction
  | backwardReduction
  /-- Names a clause that replaces the one reduced last. -/
  | replacement
  /-- Names a clause that the last reduction used. -/
  | premise
deriving DecidableEq, Repr

structure Event where
  kind : EventKind
  id : ClauseId
  clause : String
  rule : String
  parents : List ClauseId
  statistics : Statistics
deriving DecidableEq, Repr

namespace EventKind

def all : List EventKind :=
  [preprocessing, new, passive, active, forwardReduction, backwardReduction, replacement, premise]

def phrase : EventKind → String
  | preprocessing => "preprocessing"
  | new => "new"
  | passive => "passive"
  | active => "active"
  | forwardReduction => "forward reduce"
  | backwardReduction => "backward reduce"
  | replacement => "replaced by"
  | premise => "using"

def tag : EventKind → String
  | forwardReduction => "forward-reduce"
  | backwardReduction => "backward-reduce"
  | replacement => "replaced-by"
  | kind => kind.phrase

def ofTag? (tag : String) : Option EventKind := all.find? (·.tag = tag)

def declares : EventKind → Bool
  | preprocessing | new | passive | active => true
  | forwardReduction | backwardReduction | replacement | premise => false

end EventKind
end DerivationReplay
