import DerivationReplay.Clause
import DerivationReplay.Event
import Mathlib.Data.List.TakeWhile

/-!
A chronicle is the list of a run's events, read as a whole: each field of a clause is read off the
events that report on it, wherever they stand. Each reading is followed through one more event at
the end of the chronicle.
-/
namespace DerivationReplay

namespace EventKind

def reduces : EventKind → Bool
  | forwardReduction | backwardReduction => true
  | _ => false

/-- Whether the event names a clause only to say how another one was reduced. -/
def details : EventKind → Bool
  | replacement | premise => true
  | _ => false

theorem reduces_iff (kind : EventKind) :
    kind.reduces = true ↔ kind = .forwardReduction ∨ kind = .backwardReduction := by
  cases kind <;> simp [reduces]

theorem details_iff (kind : EventKind) :
    kind.details = true ↔ kind = .replacement ∨ kind = .premise := by
  cases kind <;> simp [details]

theorem plain_of_reduces (kind : EventKind) (reduces : kind.reduces = true) :
    kind.details = false := by
  cases kind <;> first | rfl | cases reduces

theorem undeclaring_of_reduces (kind : EventKind) (reduces : kind.reduces = true) :
    kind.declares = false := by
  cases kind <;> first | rfl | cases reduces

end EventKind

namespace Event

def isOf (kind : EventKind) (id : ClauseId) (event : Event) : Bool :=
  event.kind = kind && event.id = id

def declares (id : ClauseId) (event : Event) : Bool := event.kind.declares && event.id = id

def reduces (id : ClauseId) (event : Event) : Bool := event.kind.reduces && event.id = id

def concerns (id : ClauseId) (event : Event) : Bool := !event.kind.details && event.id = id

def lists (parent : ClauseId) (event : Event) : Bool :=
  event.kind.declares && event.parents.contains parent

def refutes (emptyClause : String) (event : Event) : Bool :=
  event.kind = .new && event.clause = emptyClause

def activates (emptyClause : String) (event : Event) : Bool :=
  event.kind = .active || event.refutes emptyClause

end Event

namespace Chronicle

/-- The events that count: up to the refutation, with it. -/
def span (emptyClause : String) (events : List Event) : List Event :=
  events.take (events.findIdx (·.refutes emptyClause) + 1)

def place? (report : Event → Bool) (told : List Event) : Option Time :=
  (told.findIdx? report).map .ofNat

def declaration? (told : List Event) (id : ClauseId) : Option Event :=
  told.find? (·.declares id)

/-- The number of the clause's activation, counted from one. -/
def step? (emptyClause : String) (told : List Event) (id : ClauseId) : Option Time :=
  (told.findIdx? fun event => event.activates emptyClause && event.id = id).map fun place =>
    .ofNat ((told.take place).countP (·.activates emptyClause) + 1)

def afterReduction (told : List Event) (id : ClauseId) : List Event :=
  (told.dropWhile (!·.reduces id)).tail

/-- The clauses that detail the reduction: they are named before anything else is reduced. -/
def deletionParents (told : List Event) (id : ClauseId) : List ClauseId :=
  (((afterReduction told id).takeWhile (!·.kind.reduces)).filter (·.kind.details)).map Event.id

/-- The refutation makes its clause passive and active as well. -/
def life (emptyClause : String) (told : List Event) (id : ClauseId) : Lifecycle where
  new := place? (·.isOf .new id) told
  passive := place? (fun event => event.isOf .passive id ||
    event.refutes emptyClause && event.id = id) told
  active := step? emptyClause told id
  deletion := place? (·.reduces id) told
  deletionParents := deletionParents told id

def declared (emptyClause : String) (told : List Event) (first : Event) : Clause :=
  let shown := (told.find? (·.isOf .active first.id)).getD first
  { id := first.id
    text := shown.clause
    rule := first.rule
    parents := first.parents
    statistics := shown.statistics
    fromPreprocessing := first.kind = .preprocessing
    life := life emptyClause told first.id }

def written? (emptyClause : String) (told : List Event) (id : ClauseId) : Option Clause :=
  (declaration? told id).map (declared emptyClause told)

/-- A clause that is known only as a parent is a placeholder. -/
def clause? (emptyClause : String) (told : List Event) (id : ClauseId) : Option Clause :=
  (written? emptyClause told id).or
    (if told.any (·.lists id) then some (.placeholder id) else none)

def reduced? (told : List Event) : Option ClauseId :=
  (told.filter (·.kind.reduces)).getLast?.map Event.id

section Snoc
variable (emptyClause : String) (told : List Event) (event : Event) (id : ClauseId)

theorem place_snoc (report : Event → Bool) : place? report (told ++ [event]) =
    (place? report told).or (if report event then some (.ofNat told.length) else none) := by
  rw [place?, place?, List.findIdx?_append, Option.map_or]
  cases hit : report event <;> simp [List.findIdx?_cons, hit]

theorem place_none_iff (report : Event → Bool) :
    place? report told = none ↔ ∀ event ∈ told, report event = false := by
  rw [place?, Option.map_eq_none_iff, List.findIdx?_eq_none_iff]

theorem declaration_snoc : declaration? (told ++ [event]) id =
    (declaration? told id).or (if event.declares id then some event else none) := by
  rw [declaration?, declaration?, List.find?_append]
  cases hit : event.declares id <;> simp [hit]

theorem step_snoc : step? emptyClause (told ++ [event]) id = (step? emptyClause told id).or
    (if event.activates emptyClause && event.id = id
      then some (.ofNat (told.countP (·.activates emptyClause) + 1)) else none) := by
  rw [step?, step?, List.findIdx?_append]
  cases found : told.findIdx? fun event => event.activates emptyClause && event.id = id with
  | none =>
    cases hit : event.activates emptyClause && event.id = id <;>
      simp [List.findIdx?_cons, hit]
  | some place =>
    have inside : place ≤ told.length :=
      Nat.le_of_lt (List.findIdx?_eq_some_iff_getElem.mp found).1
    simp [List.take_append_of_le_length inside]

/-- The reduction of the clause is the one that details would still refer to. -/
def Open (told : List Event) (id : ClauseId) : Prop :=
  (∃ event ∈ told, event.reduces id = true) ∧
    ∀ later ∈ afterReduction told id, later.kind.reduces = false

theorem drop_while_nil_iff : told.dropWhile (!·.reduces id) = [] ↔
    ¬ ∃ event ∈ told, event.reduces id = true := by
  simp [List.dropWhile_eq_nil_iff]

theorem after_reduction_snoc : afterReduction (told ++ [event]) id =
    if (∃ event ∈ told, event.reduces id = true) then afterReduction told id ++ [event]
    else [] := by
  rw [afterReduction, List.dropWhile_append]
  split
  · rename_i none
    have none := (drop_while_nil_iff told id).mp (List.isEmpty_iff.mp none)
    rw [if_neg none]
    cases hit : event.reduces id <;> simp [hit]
  · rename_i some
    have some : told.dropWhile (!·.reduces id) ≠ [] :=
      fun none => some (List.isEmpty_iff.mpr none)
    rw [List.tail_append_of_ne_nil some, if_pos (not_not.mp fun none =>
      some ((drop_while_nil_iff told id).mpr none)), afterReduction]

theorem deletion_parents_of_open (still : Open told id) :
    deletionParents (told ++ [event]) id =
      deletionParents told id ++ if event.kind.details then [event.id] else [] := by
  have all : ∀ later ∈ afterReduction told id, (!later.kind.reduces) = true := by
    intro later mem
    rw [still.2 later mem]
    rfl
  rw [deletionParents, deletionParents, after_reduction_snoc, if_pos still.1,
    List.takeWhile_append_of_pos all, List.takeWhile_eq_self_iff.mpr all, List.filter_append,
    List.map_append]
  congr 1
  cases kind : event.kind <;> simp [EventKind.reduces, EventKind.details, kind]

theorem deletion_parents_of_closed (ended : ¬ Open told id) :
    deletionParents (told ++ [event]) id = deletionParents told id := by
  rw [deletionParents, deletionParents, after_reduction_snoc]
  split
  · rename_i reduced
    rw [List.takeWhile_append, if_neg]
    intro whole
    refine ended ⟨reduced, fun later mem => ?_⟩
    have kept := (List.takeWhile_sublist _).eq_of_length whole ▸ mem
    simpa using List.mem_takeWhile_imp kept
  · rename_i none
    rw [afterReduction, (drop_while_nil_iff told id).mpr none]
    rfl

instance : Decidable (Open told id) := inferInstanceAs (Decidable (_ ∧ _))

theorem life_snoc : life emptyClause (told ++ [event]) id =
    { new := (life emptyClause told id).new.or
        (if event.isOf .new id then some (.ofNat told.length) else none)
      passive := (life emptyClause told id).passive.or
        (if event.isOf .passive id || event.refutes emptyClause && event.id = id
          then some (.ofNat told.length) else none)
      active := (life emptyClause told id).active.or
        (if event.activates emptyClause && event.id = id
          then some (.ofNat (told.countP (·.activates emptyClause) + 1)) else none)
      deletion := (life emptyClause told id).deletion.or
        (if event.reduces id then some (.ofNat told.length) else none)
      deletionParents := (life emptyClause told id).deletionParents ++
        if Open told id ∧ event.kind.details then [event.id] else [] } := by
  simp only [life, place_snoc, step_snoc, Lifecycle.mk.injEq, true_and]
  by_cases still : Open told id
  · simp only [deletion_parents_of_open told event id still, still, true_and]
  · simp only [deletion_parents_of_closed told event id still, still, false_and, if_false,
      List.append_nil]

theorem life_apart (other : event.concerns id = false)
    (apart : event.kind.details = true → ¬ Open told id) :
    life emptyClause (told ++ [event]) id = life emptyClause told id := by
  rw [life_snoc]
  by_cases details : event.kind.details = true
  · rcases event.kind.details_iff.mp details with kind | kind <;>
      simp [Event.isOf, Event.refutes, Event.activates, Event.reduces, EventKind.reduces, kind,
        apart details]
  · have id : event.id ≠ id := by simpa [Event.concerns, details] using other
    simp [Event.isOf, Event.reduces, id, details]

theorem declaration_id (first : Event) (found : declaration? told id = some first) :
    first.id = id := by
  have declares := List.find?_some found
  simpa using (Bool.and_eq_true_iff.mp declares).2

theorem written_id (clause : Clause) (found : written? emptyClause told id = some clause) :
    clause.id = id := by
  obtain ⟨first, declaration, rfl⟩ := Option.map_eq_some_iff.mp found
  exact declaration_id told id first declaration

theorem written_life (clause : Clause) (found : written? emptyClause told id = some clause) :
    life emptyClause told id = clause.life := by
  obtain ⟨first, declaration, rfl⟩ := Option.map_eq_some_iff.mp found
  rw [declared, declaration_id told id first declaration]

theorem written_apart (other : event.concerns id = false)
    (apart : event.kind.details = true → ¬ Open told id) :
    written? emptyClause (told ++ [event]) id = written? emptyClause told id := by
  have declares : event.declares id = false := by
    cases kind : event.kind <;>
      simp_all [Event.declares, Event.concerns, EventKind.declares, EventKind.details]
  have active : event.isOf .active id = false := by
    cases kind : event.kind <;> simp_all [Event.isOf, Event.concerns, EventKind.details]
  rw [written?, written?, declaration_snoc, declares, if_neg Bool.false_ne_true, Option.or_none]
  refine Option.map_congr fun first found => ?_
  obtain rfl := declaration_id told id first found
  simp only [declared, life_apart emptyClause told event first.id other apart, List.find?_append,
    List.find?_singleton, active, if_neg Bool.false_ne_true, Option.or_none]

theorem written_again (clause : Clause) (known : written? emptyClause told id = some clause)
    (other : event.isOf .active id = false) : written? emptyClause (told ++ [event]) id =
      some { clause with life := life emptyClause (told ++ [event]) id } := by
  obtain ⟨first, found, rfl⟩ := Option.map_eq_some_iff.mp known
  obtain rfl := declaration_id told id first found
  rw [written?, declaration_snoc, found, Option.some_or, Option.map_some]
  simp only [declared, List.find?_append, List.find?_singleton, other, if_neg Bool.false_ne_true,
    Option.or_none]

theorem written_activated (clause : Clause)
    (known : written? emptyClause told event.id = some clause) (kind : event.kind = .active)
    (inactive : ∀ other ∈ told, other.isOf .active event.id = false) :
    written? emptyClause (told ++ [event]) event.id = some { clause with
      text := event.clause
      statistics := event.statistics
      life := life emptyClause (told ++ [event]) event.id } := by
  obtain ⟨first, found, rfl⟩ := Option.map_eq_some_iff.mp known
  have same := declaration_id told event.id first found
  have none : told.find? (·.isOf .active event.id) = none :=
    List.find?_eq_none.mpr fun other mem => by simp [inactive other mem]
  have hit : event.isOf .active event.id = true := by simp [Event.isOf, kind]
  rw [written?, declaration_snoc, found, Option.some_or, Option.map_some]
  simp only [declared, same, List.find?_append, List.find?_singleton, none, hit, if_pos,
    Option.none_or, Option.getD_some]

theorem written_first (none : written? emptyClause told event.id = none)
    (kind : event.kind = .preprocessing ∨ event.kind = .new)
    (inactive : ∀ other ∈ told, other.isOf .active event.id = false) :
    written? emptyClause (told ++ [event]) event.id = some
      { id := event.id
        text := event.clause
        rule := event.rule
        parents := event.parents
        statistics := event.statistics
        fromPreprocessing := event.kind = .preprocessing
        life := life emptyClause (told ++ [event]) event.id } := by
  have declares : event.declares event.id = true := by
    rcases kind with kind | kind <;> simp [Event.declares, EventKind.declares, kind]
  have missing : (told ++ [event]).find? (·.isOf .active event.id) = Option.none := by
    refine List.find?_eq_none.mpr fun other mem => ?_
    rcases List.mem_append.mp mem with old | last
    · simp [inactive other old]
    · obtain rfl := List.mem_singleton.mp last
      rcases kind with kind | kind <;> simp [Event.isOf, kind]
  rw [written?, declaration_snoc, Option.map_eq_none_iff.mp none, Option.none_or, declares,
    if_pos rfl, Option.map_some]
  simp only [declared, missing, Option.getD_none]

end Snoc
end Chronicle
end DerivationReplay
