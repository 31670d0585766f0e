import DerivationReplay.Derivation.Selection
import DerivationReplay.Derivation.ViewStack
import Mathlib.Data.List.Infix
import Mathlib.Data.List.Induction

/-!
Going through views and back. A view that cannot be taken leaves the stack as it is, and no move but
a reset reaches below the top of the stack. So as long as a session stays above the stack it started
from, undoing what it has added leads back there.
-/
namespace DerivationReplay.ViewStack

inductive Move : Type 1
  | push (view : Derivation)
  | apply {ε : Type} (view : Derivation → Except ε Derivation)
  | undo
  | reset

def Move.refused (stack : ViewStack) : Move → Bool
  | .apply view =>
    match stack.apply view with
    | .error _ => true
    | .ok _ => false
  | _ => false

def make (stack : ViewStack) : Move → ViewStack
  | .push view => stack.push view
  | .apply view =>
    match stack.apply view with
    | .error _ => stack
    | .ok next => next
  | .undo => stack.undo.2
  | .reset => stack.reset

def after (stack : ViewStack) (moves : List Move) : ViewStack := moves.foldl make stack

def course (stack : ViewStack) : List Move → List (ViewStack × Move)
  | [] => []
  | move :: moves => (stack, move) :: course (stack.make move) moves

def accepted (stack : ViewStack) (moves : List Move) : List Move :=
  ((stack.course moves).filter fun (stack, move) => !move.refused stack).map Prod.snd

section Step
variable (stack : ViewStack) (move : Move)

theorem make_refused (refused : move.refused stack = true) : stack.make move = stack := by
  cases move with
  | apply view =>
    simp only [Move.refused] at refused
    simp only [make]
    split at refused <;> simp_all
  | _ => cases refused

theorem make_cases : (∃ view, stack.make move = stack.push view) ∨ stack.make move = stack ∨
    stack.make move = stack.undo.2 ∨ move = .reset ∧ stack.make move = stack.reset := by
  cases move with
  | push view => exact .inl ⟨view, rfl⟩
  | apply view =>
    cases taken : view stack.current with
    | error refusal =>
      have refused : (Move.apply view).refused stack = true := by
        simp [Move.refused, ViewStack.apply, taken]
      exact .inr (.inl (make_refused stack _ refused))
    | ok next => exact .inl ⟨next, by simp [make, ViewStack.apply, taken]⟩
  | undo => exact .inr (.inr (.inl rfl))
  | reset => exact .inr (.inr (.inr ⟨rfl, rfl⟩))

theorem make_root : (stack.make move).root = stack.root := by
  rcases make_cases stack move with ⟨view, made⟩ | made | made | ⟨_, made⟩
  all_goals exact (congrArg root made).trans rfl

end Step

/-- The first stack is left when the views that were added later are removed. -/
def Above (base stack : ViewStack) : Prop := stack.root = base.root ∧ base.views <:+ stack.views

theorem above_make {base stack : ViewStack} {move : Move} (above : Above base stack)
    (stays : move ≠ .reset) (deep : base.depth ≤ (stack.make move).depth) :
    Above base (stack.make move) := by
  obtain ⟨root, views⟩ := above
  refine ⟨(make_root stack move).trans root, ?_⟩
  rcases make_cases stack move with ⟨view, made⟩ | made | made | ⟨reset, _⟩
  · rw [made]
    exact views.trans (List.suffix_cons view stack.views)
  · rw [made]
    exact views
  · -- An undo takes the latest view away; the depth says that the base is not reached.
    rw [made] at deep ⊢
    exact List.suffix_of_suffix_length_le views (List.tail_suffix stack.views) deep
  · exact absurd reset stays

theorem after_snoc (stack : ViewStack) (moves : List Move) (move : Move) :
    stack.after (moves ++ [move]) = (stack.after moves).make move := List.foldl_concat ..

theorem after_append (stack : ViewStack) (moves more : List Move) :
    stack.after (moves ++ more) = (stack.after moves).after more := List.foldl_append

theorem above_after {base : ViewStack} {moves : List Move} (stay : ∀ move ∈ moves, move ≠ .reset)
    (deep : ∀ before, before <+: moves → base.depth ≤ (base.after before).depth) :
    Above base (base.after moves) := by
  induction moves using List.reverseRecOn with
  | nil => exact ⟨rfl, List.suffix_refl base.views⟩
  | append_singleton moves move ih =>
    have above : Above base (base.after moves) := ih
      (fun other mem => stay other (List.mem_append_left _ mem))
      (fun before start => deep before (start.trans (List.prefix_append moves [move])))
    have end_deep := deep (moves ++ [move]) (List.prefix_refl _)
    rw [after_snoc] at end_deep ⊢
    exact above_make above (stay move (by simp)) end_deep

theorem after_undos (stack : ViewStack) (count : Nat) :
    stack.after (List.replicate count .undo) = { stack with views := stack.views.drop count } := by
  induction count generalizing stack with
  | zero => rfl
  | succ count ih =>
    change stack.undo.2.after (List.replicate count .undo) = _
    rw [ih, undo]
    simp [List.drop_tail]

theorem after_undos_of_above {base stack : ViewStack} (above : Above base stack) :
    stack.after (List.replicate (stack.depth - base.depth) .undo) = base := by
  obtain ⟨root, views⟩ := above
  have left : stack.views.drop (stack.depth - base.depth) = base.views :=
    (List.suffix_iff_eq_drop.mp views).symm
  rw [after_undos, left, root]

theorem after_root (stack : ViewStack) (moves : List Move) :
    (stack.after moves).root = stack.root := by
  induction moves using List.reverseRecOn with
  | nil => rfl
  | append_singleton moves move ih => rw [after_snoc, make_root, ih]

theorem accepted_cons (stack : ViewStack) (move : Move) (moves : List Move) :
    stack.accepted (move :: moves) =
      if move.refused stack then stack.accepted moves
      else move :: (stack.make move).accepted moves := by
  unfold accepted
  rw [course]
  split
  · rename_i refused
    rw [make_refused stack move refused, List.filter_cons_of_neg (by simp [refused])]
  · rename_i taken
    rw [List.filter_cons_of_pos (by simpa using taken), List.map_cons]

theorem course_accepted (stack : ViewStack) (moves : List Move) :
    stack.course (stack.accepted moves) =
      (stack.course moves).filter fun (stack, move) => !move.refused stack := by
  induction moves generalizing stack with
  | nil => rfl
  | cons move moves ih =>
    rw [accepted_cons]
    split
    · rename_i refused
      rw [ih, course, make_refused stack move refused, List.filter_cons_of_neg (by simp [refused])]
    · rename_i taken
      rw [course, ih, course, List.filter_cons_of_pos (by simpa using taken)]

theorem after_accepted (stack : ViewStack) (moves : List Move) :
    stack.after (stack.accepted moves) = stack.after moves := by
  induction moves generalizing stack with
  | nil => rfl
  | cons move moves ih =>
    rw [accepted_cons]
    split
    · rename_i refused
      rw [ih, after, after, List.foldl_cons, make_refused stack move refused]
    · exact ih (stack.make move)

theorem undo_at_root {stack : ViewStack} (root : stack.depth = 0) :
    stack.undo = (false, stack) := by
  obtain ⟨_, views⟩ := stack
  obtain rfl : views = [] := List.length_eq_zero_iff.mp root
  rfl

/-- A session that neither resets the stack nor goes below where it started is undone by as many
steps as it has gone up. Refused views can be left out of a session: all other moves are made on the
same stacks, and it ends on the same one. Nothing replaces the root, and there is nothing to undo on
it. -/
theorem views_stacked (stack : ViewStack) :
    (∀ moves, (∀ move ∈ moves, move ≠ .reset) →
      (∀ before, before <+: moves → stack.depth ≤ (stack.after before).depth) →
      stack.after (moves ++ List.replicate ((stack.after moves).depth - stack.depth) .undo) =
        stack) ∧
    (∀ moves, stack.course (stack.accepted moves) =
        ((stack.course moves).filter fun (stack, move) => !move.refused stack) ∧
      stack.after (stack.accepted moves) = stack.after moves) ∧
    ∀ moves, (stack.after moves).root = stack.root ∧
      ((stack.after moves).depth = 0 → (stack.after moves).undo = (false, stack.after moves)) := by
  refine ⟨fun moves stay deep => ?_, fun moves => ?_, fun moves => ?_⟩
  · rw [after_append]
    exact after_undos_of_above (above_after stay deep)
  · exact ⟨course_accepted stack moves, after_accepted stack moves⟩
  · exact ⟨after_root stack moves, undo_at_root⟩

def resolved : List Clause :=
  [{ id := 1, text := "p", rule := "input" },
    { id := 2, text := "q", rule := "cnf", parents := [1], life := { active := some 1 } },
    { id := 3, text := "r", rule := "resolution", parents := [1, 2] }]

def plain : Derivation := .assemble (.ofList (resolved.map fun clause => (clause.id, clause)))

def viewed : ViewStack := ⟨plain, [plain.activatedPart]⟩

def session : List Move :=
  [.apply (·.ancestorView [2]), .apply (·.descendantView [3]), .undo, .push plain,
    .apply (·.descendantView [2]), .apply (·.ancestorView [1, 9])]

theorem session_stays_above (before : List Move) (start : before <+: session) :
    viewed.depth ≤ (viewed.after before).depth := by
  have depths : ∀ before ∈ session.inits, viewed.depth ≤ (viewed.after before).depth := by
    decide +kernel
  exact depths before ((List.mem_inits before session).mpr start)

/-- Two of the views are refused, so that two undos lead back. -/
theorem session_undone : (∀ move ∈ session, move ≠ .reset) ∧
    (∀ before, before <+: session → viewed.depth ≤ (viewed.after before).depth) ∧
    viewed.after (session ++ [.undo, .undo]) = viewed ∧
    (viewed.accepted session).length = 4 ∧
    viewed.after (viewed.accepted session) = viewed.after session ∧
    (viewed.after [.undo, .undo]).depth = 0 ∧
    (viewed.after [.undo, .undo]).undo = (false, viewed.after [.undo, .undo]) := by
  obtain ⟨bracket, refusals, root⟩ := views_stacked viewed
  have stay : ∀ move ∈ session, move ≠ .reset := by simp [session]
  have grown : (viewed.after session).depth - viewed.depth = 2 := by decide +kernel
  have left : (viewed.accepted session).length = 4 := by decide +kernel
  have back := bracket session stay session_stays_above
  rw [grown] at back
  exact ⟨stay, session_stays_above, back, left, (refusals session).2, rfl,
    (root [.undo, .undo]).2 rfl⟩

end DerivationReplay.ViewStack
