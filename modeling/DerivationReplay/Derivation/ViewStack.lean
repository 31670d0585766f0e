import DerivationReplay.Derivation

/-! A derivation and the views taken of it one after the other; each can be undone. -/
namespace DerivationReplay

structure ViewStack where
  root : Derivation
  /-- The latest first. -/
  views : List Derivation := []
deriving DecidableEq

namespace ViewStack

def current (stack : ViewStack) : Derivation := stack.views.headD stack.root

def depth (stack : ViewStack) : Nat := stack.views.length

def push (stack : ViewStack) (view : Derivation) : ViewStack :=
  { stack with views := view :: stack.views }

def apply (stack : ViewStack) (view : Derivation → Except ε Derivation) : Except ε ViewStack :=
  stack.push <$> view stack.current

/-- Nothing happens at the root; the answer says whether a view was removed. -/
def undo (stack : ViewStack) : Bool × ViewStack :=
  (!stack.views.isEmpty, { stack with views := stack.views.tail })

def reset (stack : ViewStack) : ViewStack := { stack with views := [] }

end ViewStack
end DerivationReplay
